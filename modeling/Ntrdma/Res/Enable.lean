import Mathlib.Data.List.Nodup
import Mathlib.Tactic

/-!
# Enabling the resources again

Model of `ntrdma_dev_res_enable`: after a reset the enable commands of all memory regions and queue
pairs are queued (`ntrdma_mr_enable`, `ntrdma_qp_enable`) and submitted; then each is waited for
(`ntrdma_cmd_cb_wait_out`), or, if they could not be submitted, withdrawn (`ntrdma_cmd_cb_unlink`).
The work that sends commands and goes over the responses, and other users of the command lists, may
run at any point in between, so a call is a list of its own steps with steps of others among them.

The loop that withdraws the commands of the queue pairs has the cursor of the loop before, which is
at the head of the list of regions then. So the commands of the regions are withdrawn, and those of
queue pairs only go away if somebody else completes them in the meantime
(`resEnable_withdraws_iff`).
-/

namespace Ntrdma

/-- A callback (C `struct ntrdma_cmd_cb`): of a region, a queue pair or another command, or what
would be one if the head of `mr_list` were in a region. -/
inductive EnableCb where
  | mr (key : Nat)
  | qp (key : Nat)
  | other (id : Nat)
  | listHead
  deriving DecidableEq, Repr

/-- The command lists (C `struct ntrdma_dev_cmd_send`), what `ntrdma_dev_res_enable` queued, and
what was answered or aborted. -/
structure CmdLists where
  ready : Bool
  pend : List EnableCb
  post : List EnableCb
  inList : EnableCb → Bool
  cmdsDone : EnableCb → Bool
  queued : List EnableCb
  answered : List EnableCb

namespace CmdLists

def linked (s : CmdLists) : List EnableCb := s.pend ++ s.post

def complete (s : CmdLists) (cb : EnableCb) : CmdLists :=
  { s with cmdsDone := Function.update s.cmdsDone cb true }

def reinit (s : CmdLists) (cb : EnableCb) : CmdLists :=
  { s with cmdsDone := Function.update s.cmdsDone cb false }

/-- C `ntrdma_dev_cmd_add_unsafe`, of a callback that is in no list. -/
def addUnsafe (s : CmdLists) (cb : EnableCb) : Option CmdLists :=
  if cb ∈ s.linked then none
  else some { s with pend := s.pend ++ [cb], inList := Function.update s.inList cb true }

/-- C `ntrdma_dev_cmd_add`, called from `ntrdma_mr_enable_cb` or `ntrdma_qp_enable_cb`. -/
def add (s : CmdLists) (cb : EnableCb) : Option CmdLists :=
  if s.ready then { s with queued := s.queued ++ [cb] }.addUnsafe cb else some s

/-- C `ntrdma_cmd_cb_unlink`. Where `in_list` is set in memory that is no callback of a list,
`list_del` goes wrong. -/
def unlink (s : CmdLists) (cb : EnableCb) : Option CmdLists :=
  if s.inList cb then
    if cb ∈ s.linked then
      some ({ s with
        pend := s.pend.erase cb
        post := s.post.erase cb
        inList := Function.update s.inList cb false }.complete cb)
    else none
  else some (s.complete cb)

end CmdLists

inductive EnableStep where
  | reinit (cb : EnableCb)
  | add (cb : EnableCb)
  | unlink (cb : EnableCb)
  /-- C `ntrdma_cmd_cb_wait_out`, which unlinks the callback after the timeout -/
  | waitOut (cb : EnableCb) (timedOut : Bool)
  deriving DecidableEq, Repr

inductive CmdEnvStep where
  /-- `ntrdma_cmd_send_work` issues a pending command -/
  | issue
  /-- `ntrdma_cmd_send_work` calls `rsp_cmpl` for a response, which may queue the callback again -/
  | answer (again : Bool)
  /-- `ntrdma_dev_cmd_quiesce` aborts all commands -/
  | quiesce
  | addOther (id : Nat)
  | unlinkOther (id : Nat)
  | setReady (ready : Bool)
  deriving DecidableEq, Repr

def EnableStep.cb : EnableStep → EnableCb
  | reinit cb => cb
  | add cb => cb
  | unlink cb => cb
  | waitOut cb _ => cb

/-- The lists after a step, or `none` if it cannot be taken or destroys them. -/
def EnableStep.exec (s : CmdLists) : EnableStep → Option CmdLists
  | reinit cb => some (s.reinit cb)
  | add cb => s.add cb
  | unlink cb => s.unlink cb
  | waitOut cb true => s.unlink cb
  | waitOut cb false => if s.cmdsDone cb then some s else none

def CmdEnvStep.exec (s : CmdLists) : CmdEnvStep → Option CmdLists
  | issue =>
    match s.pend with
    | [] => none
    | cb :: rest => some { s with pend := rest, post := s.post ++ [cb] }
  | answer again =>
    match s.post with
    | [] => none
    | cb :: rest =>
      let s := { s with post := rest, inList := Function.update s.inList cb false }
      if again then s.addUnsafe cb else some { s.complete cb with answered := s.answered ++ [cb] }
  | quiesce =>
    some { s with
      pend := []
      post := []
      inList := fun cb => if cb ∈ s.linked then false else s.inList cb
      cmdsDone := fun cb => if cb ∈ s.linked then true else s.cmdsDone cb
      answered := s.answered ++ s.linked }
  | addOther id => s.addUnsafe (.other id)
  | unlinkOther id => s.unlink (.other id)
  | setReady ready => some { s with ready }

/-- C `ntrdma_mr_enable` and `ntrdma_qp_enable`. -/
def enableSteps (cb : EnableCb) : List EnableStep := [.reinit cb, .add cb]

/-- C `ntrdma_dev_res_enable`, with what times out. In the last loop `mr` is what was left
behind. -/
def resEnableSteps (mrs qps : List Nat) (submitted : Bool) (timedOut : EnableCb → Bool) :
    List EnableStep :=
  mrs.flatMap (fun key => enableSteps (.mr key)) ++ qps.flatMap
    (fun key => enableSteps (.qp key)) ++
    if submitted then
      mrs.map (fun key => .waitOut (.mr key) (timedOut (.mr key))) ++
        qps.map (fun key => .waitOut (.qp key) (timedOut (.qp key)))
    else mrs.map (fun key => .unlink (.mr key)) ++ qps.map (fun _ => .unlink .listHead)

abbrev Sched := List (EnableStep ⊕ CmdEnvStep)

def ownSteps (sched : Sched) : List EnableStep := sched.filterMap Sum.getLeft?

def runSched (s : CmdLists) : Sched → Option CmdLists
  | [] => some s
  | .inl step :: rest => (step.exec s).bind fun s => runSched s rest
  | .inr step :: rest => (step.exec s).bind fun s => runSched s rest

/-! ## The lists -/

namespace CmdLists

/-- Each callback is in at most one place, where `in_list` is set. -/
structure WF (s : CmdLists) : Prop where
  nodup : s.linked.Nodup
  inList : ∀ cb ∈ s.linked, s.inList cb = true

structure Same (s t : CmdLists) (cb : EnableCb) : Prop where
  linked : cb ∈ t.linked ↔ cb ∈ s.linked
  cmdsDone : t.cmdsDone cb = s.cmdsDone cb
  queued : cb ∈ t.queued ↔ cb ∈ s.queued
  answered : cb ∈ t.answered ↔ cb ∈ s.answered

/-- A step that completes a callback and takes it out of the lists, for the record. -/
structure Answered (s t : CmdLists) (cb : EnableCb) : Prop where
  before : cb ∈ s.linked
  linked : cb ∉ t.linked
  cmdsDone : t.cmdsDone cb = true
  queued : cb ∈ t.queued ↔ cb ∈ s.queued
  answered : cb ∈ t.answered

section
variable {s t : CmdLists} {cb cb' : EnableCb}

lemma WF.update {b : Bool} (hwf : s.WF) (hnodup : t.linked.Nodup)
    (hinList : t.inList = Function.update s.inList cb b) (hcb : cb ∈ t.linked → b = true)
    (hother : ∀ cb', cb' ≠ cb → cb' ∈ t.linked → cb' ∈ s.linked) : t.WF := by
  refine ⟨hnodup, fun cb' hmem => ?_⟩
  rw [hinList]
  by_cases heq : cb' = cb
  · rw [heq] at hmem ⊢
    rw [Function.update_self, hcb hmem]
  · rw [Function.update_of_ne heq, hwf.inList cb' (hother cb' heq hmem)]

structure Added (s t : CmdLists) (cb : EnableCb) : Prop where
  wf : t.WF
  before : cb ∉ s.linked
  linked : cb ∈ t.linked
  others : ∀ cb', cb' ≠ cb → (cb' ∈ t.linked ↔ cb' ∈ s.linked)
  cmdsDone : t.cmdsDone = s.cmdsDone
  queued : t.queued = s.queued
  answered : t.answered = s.answered

lemma addUnsafe_spec (hwf : s.WF) (h : s.addUnsafe cb = some t) : s.Added t cb := by
  rw [addUnsafe] at h
  split at h
  · cases h
  rename_i hnot
  cases h
  have hmem (cb' : EnableCb) : cb' ∈ (s.pend ++ [cb]) ++ s.post ↔ cb' = cb ∨ cb' ∈ s.linked := by
    simp only [linked, List.mem_append, List.mem_singleton]
    tauto
  have hnodup : ((s.pend ++ [cb]) ++ s.post).Nodup := by
    rw [List.append_assoc, List.singleton_append]
    exact List.nodup_middle.2 (List.nodup_cons.2 ⟨hnot, hwf.nodup⟩)
  have hother (cb' : EnableCb) (hne : cb' ≠ cb) :
    cb' ∈ (s.pend ++ [cb]) ++ s.post ↔ cb' ∈ s.linked :=
    (hmem cb').trans (or_iff_right hne)
  have hcb := (hmem cb).2 (.inl rfl)
  exact ⟨hwf.update hnodup rfl (fun _ => rfl) fun cb' hne =>
    (hother cb' hne).1, hnot, hcb, hother, rfl, rfl,
    rfl⟩

structure Unlinked (s t : CmdLists) (cb : EnableCb) : Prop where
  wf : t.WF
  linked : cb ∉ t.linked
  cmdsDone : t.cmdsDone cb = true
  others : ∀ cb', cb' ≠ cb → s.Same t cb'

lemma complete_same (s : CmdLists) (hne : cb' ≠ cb) : s.Same (s.complete cb) cb' :=
  ⟨.rfl, Function.update_of_ne hne .., .rfl, .rfl⟩

lemma unlink_spec (hwf : s.WF) (h : s.unlink cb = some t) : s.Unlinked t cb := by
  rw [unlink] at h
  split at h
  · split at h
    · cases h
      obtain ⟨hpend, hpost, -⟩ := List.nodup_append.1 hwf.nodup
      have hmem (cb' : EnableCb) :
          cb' ∈ s.pend.erase cb ++ s.post.erase cb ↔ cb' ≠ cb ∧ cb' ∈ s.linked := by
        rw [List.mem_append, hpend.mem_erase_iff, hpost.mem_erase_iff, linked, List.mem_append]
        tauto
      have hnodup : (s.pend.erase cb ++ s.post.erase cb).Nodup :=
        hwf.nodup.sublist (List.Sublist.append List.erase_sublist List.erase_sublist)
      have hnot : cb ∉ s.pend.erase cb ++ s.post.erase cb := fun hmem' => ((hmem cb).1 hmem').1 rfl
      have hother (cb' : EnableCb) (hne : cb' ≠ cb) :
          cb' ∈ s.pend.erase cb ++ s.post.erase cb ↔ cb' ∈ s.linked :=
            (hmem cb').trans (and_iff_right hne)
      exact ⟨hwf.update hnodup rfl (fun hmem' => absurd hmem' hnot) fun cb' hne =>
        (hother cb' hne).1, hnot,
        Function.update_self .., fun cb' hne =>
          ⟨hother cb' hne, Function.update_of_ne hne .., .rfl, .rfl⟩⟩
    · cases h
  next hin =>
    cases h
    exact ⟨⟨hwf.nodup, hwf.inList⟩, fun hmem => hin (hwf.inList cb hmem), Function.update_self ..,
      fun cb' hne => s.complete_same hne⟩

/-! ## Steps of others -/

lemma env_spec {step : CmdEnvStep} (hwf : s.WF) (h : step.exec s = some t) :
    t.WF ∧ ∀ cb, (∀ id, cb ≠ .other id) → s.Same t cb ∨ s.Answered t cb := by
  cases step with
  | issue =>
    rw [CmdEnvStep.exec] at h
    split at h
    · cases h
    rename_i cb' rest hpend
    cases h
    have hperm : (rest ++ (s.post ++ [cb'])).Perm s.linked := by
      rw [linked, hpend, List.cons_append, ← List.append_assoc]
      exact List.perm_append_singleton cb' (rest ++ s.post)
    exact ⟨⟨hperm.nodup_iff.2 hwf.nodup, fun cb hmem => hwf.inList cb (hperm.mem_iff.1 hmem)⟩,
      fun cb _ => .inl ⟨hperm.mem_iff, rfl, .rfl, .rfl⟩⟩
  | answer again =>
    rw [CmdEnvStep.exec] at h
    split at h
    · cases h
    rename_i cb' rest hpost
    have hperm : s.linked.Perm (cb' :: (s.pend ++ rest)) := by
      rw [linked, hpost]
      exact List.perm_middle
    have hnodup := hperm.nodup_iff.1 hwf.nodup
    have hmem (cb : EnableCb) : cb ∈ s.linked ↔ cb = cb' ∨ cb ∈ s.pend ++ rest :=
      hperm.mem_iff.trans List.mem_cons
    -- The lists without the callback, before `rsp_cmpl`.
    have hwf' :
      ({ s with post := rest, inList := Function.update s.inList cb' false } : CmdLists).WF :=
      hwf.update (List.nodup_cons.1 hnodup).2 rfl (fun h => absurd h (List.nodup_cons.1 hnodup).1)
        fun cb _ h => (hmem cb).2 (.inr h)
    cases again with
    | true =>
      have hadd := addUnsafe_spec hwf' h
      refine ⟨hadd.wf, fun cb _ =>
        .inl ⟨?_, by rw [hadd.cmdsDone], by rw [hadd.queued], by rw [hadd.answered]⟩⟩
      rw [hmem cb]
      by_cases heq : cb = cb'
      · rw [heq]
        exact ⟨fun _ => .inl rfl, fun _ => hadd.linked⟩
      · rw [or_iff_right heq]
        exact hadd.others cb heq
    | false =>
      cases h
      refine ⟨⟨hwf'.nodup, hwf'.inList⟩, fun cb _ => ?_⟩
      by_cases heq : cb = cb'
      · rw [heq]
        exact .inr ⟨(hmem cb').2 (.inl rfl), (List.nodup_cons.1 hnodup).1,
          Function.update_self .., .rfl,
          List.mem_append_right _ (List.mem_singleton_self _)⟩
      · refine .inl ⟨((hmem cb).trans (or_iff_right heq)).symm,
          Function.update_of_ne heq .., .rfl, ?_⟩
        exact List.mem_append.trans (or_iff_left fun h => heq (List.mem_singleton.1 h))
  | quiesce =>
    cases h
    refine ⟨⟨List.nodup_nil, nofun⟩, fun cb _ => ?_⟩
    by_cases hcb : cb ∈ s.linked
    · exact .inr ⟨hcb, nofun, if_pos hcb, .rfl, List.mem_append_right _ hcb⟩
    · exact .inl ⟨⟨nofun, fun h => absurd h hcb⟩, if_neg hcb, .rfl,
        List.mem_append.trans (or_iff_left hcb)⟩
  | addOther id =>
    have hadd := addUnsafe_spec hwf h
    refine ⟨hadd.wf, fun cb hcb => .inl ⟨hadd.others cb (hcb id), by rw [hadd.cmdsDone], ?_, ?_⟩⟩
    · rw [hadd.queued]
    · rw [hadd.answered]
  | unlinkOther id =>
    have hunlink := unlink_spec hwf h
    exact ⟨hunlink.wf, fun cb hcb => .inl (hunlink.others cb (hcb id))⟩
  | setReady =>
    cases h
    exact ⟨⟨hwf.nodup, hwf.inList⟩, fun cb _ => .inl ⟨.rfl, rfl, .rfl, .rfl⟩⟩

end

end CmdLists

/-! ## A callback during the call -/

section
variable {s t : CmdLists} {cb : EnableCb} {last rest : List EnableStep}

structure Idle (s : CmdLists) (cb : EnableCb) : Prop where
  linked : cb ∉ s.linked
  queued : cb ∉ s.queued
  answered : cb ∉ s.answered

/-- The callback was queued, if the commands were ready: it is in a list or was completed by
others. -/
inductive Queued (s : CmdLists) (cb : EnableCb) : Prop where
  | notReady : Idle s cb → Queued s cb
  | linked : cb ∈ s.queued → cb ∈ s.linked → cb ∉ s.answered → Queued s cb
  | answered : cb ∈ s.queued → cb ∉ s.linked → s.cmdsDone cb = true → cb ∈ s.answered → Queued s cb

/-- The steps that are left with a callback that is enabled and for which then `last` is done. -/
inductive Phase (s : CmdLists) (cb : EnableCb) (last : List EnableStep) :
    List EnableStep → Prop where
  | fresh : Idle s cb → Phase s cb last (.reinit cb :: .add cb :: last)
  | ready : Idle s cb → Phase s cb last (.add cb :: last)
  | queued : Queued s cb → Phase s cb last last
  | withdrawn : last = [.unlink cb] → cb ∉ s.linked → s.cmdsDone cb = true → Phase s cb last []

lemma Idle.same (h : Idle s cb) (hsame : s.Same t cb) : Idle t cb :=
  ⟨fun hmem => h.linked (hsame.linked.1 hmem), fun hmem => h.queued (hsame.queued.1 hmem),
    fun hmem => h.answered (hsame.answered.1 hmem)⟩

lemma Queued.same (h : Queued s cb) (hsame : s.Same t cb) : Queued t cb := by
  cases h with
  | notReady hidle => exact .notReady (hidle.same hsame)
  | linked hqueued hlinked hans =>
    exact .linked (hsame.queued.2 hqueued) (hsame.linked.2 hlinked) fun h =>
      hans (hsame.answered.1 h)
  | answered hqueued hlinked hdone hans =>
    exact .answered (hsame.queued.2 hqueued) (fun h => hlinked (hsame.linked.1 h))
      (hsame.cmdsDone.trans hdone) (hsame.answered.2 hans)

lemma Phase.same (h : Phase s cb last rest) (hsame : s.Same t cb) : Phase t cb last rest := by
  cases h with
  | fresh hidle => exact .fresh (hidle.same hsame)
  | ready hidle => exact .ready (hidle.same hsame)
  | queued hwait => exact .queued (hwait.same hsame)
  | withdrawn hlast hlinked hdone =>
    exact .withdrawn hlast (fun h => hlinked (hsame.linked.1 h)) (hsame.cmdsDone.trans hdone)

lemma Phase.answered (h : Phase s cb last rest) (hans : s.Answered t cb) :
    Phase t cb last rest := by
  cases h with
  | fresh hidle => exact absurd hans.before hidle.linked
  | ready hidle => exact absurd hans.before hidle.linked
  | queued hwait =>
    cases hwait with
    | notReady hidle => exact absurd hans.before hidle.linked
    | linked hqueued =>
      exact .queued (.answered (hans.queued.2 hqueued) hans.linked hans.cmdsDone hans.answered)
    | answered _ hlinked => exact absurd hans.before hlinked
  | withdrawn _ hlinked => exact absurd hans.before hlinked

lemma add_spec (hwf : s.WF) (h : s.add cb = some t) :
    t.WF ∧ (Idle s cb → Queued t cb) ∧ ∀ cb', cb' ≠ cb → s.Same t cb' := by
  rw [CmdLists.add] at h
  split at h
  · have hadd := CmdLists.addUnsafe_spec (s := { s with queued := s.queued ++ [cb] })
      ⟨hwf.nodup, hwf.inList⟩ h
    refine ⟨hadd.wf, fun hidle => ?_, fun cb' hne => ?_⟩
    · refine .linked ?_ hadd.linked ?_
      · rw [hadd.queued]
        exact List.mem_append_right _ (List.mem_singleton_self cb)
      · rw [hadd.answered]
        exact hidle.answered
    · refine ⟨hadd.others cb' hne, by rw [hadd.cmdsDone], ?_, by rw [hadd.answered]⟩
      rw [hadd.queued]
      exact List.mem_append.trans (or_iff_left fun h => hne (List.mem_singleton.1 h))
  · cases h
    exact ⟨hwf, .notReady, fun _ _ => ⟨.rfl, rfl, .rfl, .rfl⟩⟩

variable {step : EnableStep}

lemma EnableStep.exec_same (hwf : s.WF) (h : step.exec s = some t) :
    t.WF ∧ ∀ cb, cb ≠ step.cb → s.Same t cb := by
  cases step with
  | reinit =>
    cases h
    exact ⟨⟨hwf.nodup, hwf.inList⟩, fun cb' hne => ⟨.rfl, Function.update_of_ne hne .., .rfl, .rfl⟩⟩
  | add =>
    obtain ⟨hwf', -, hsame⟩ := add_spec hwf h
    exact ⟨hwf', hsame⟩
  | unlink =>
    have hunlink := CmdLists.unlink_spec hwf h
    exact ⟨hunlink.wf, hunlink.others⟩
  | waitOut _ timedOut =>
    cases timedOut with
    | true =>
      have hunlink := CmdLists.unlink_spec hwf h
      exact ⟨hunlink.wf, hunlink.others⟩
    | false =>
      rw [EnableStep.exec] at h
      split at h
      · cases h
        exact ⟨hwf, fun _ _ => ⟨.rfl, rfl, .rfl, .rfl⟩⟩
      · cases h

lemma Phase.next (hlast : last = [] ∨ last = [.unlink cb]) (hwf : s.WF)
    (h : Phase s cb last (step :: rest)) (hexec : step.exec s = some t) : Phase t cb last rest := by
  generalize hall : step :: rest = all at h
  cases h with
  | fresh hidle =>
    cases hall
    cases hexec
    exact .ready ⟨hidle.linked, hidle.queued, hidle.answered⟩
  | ready hidle =>
    cases hall
    exact .queued ((add_spec hwf hexec).2.1 hidle)
  | queued =>
    obtain rfl | rfl := hlast
    · cases hall
    · cases hall
      have hunlink := CmdLists.unlink_spec hwf hexec
      exact .withdrawn rfl hunlink.linked hunlink.cmdsDone
  | withdrawn => cases hall

lemma Phase.run {sched : Sched} (hcb : ∀ id, cb ≠ .other id)
    (hlast : last = [] ∨ last = [.unlink cb]) (hwf : s.WF)
    (h : Phase s cb last ((ownSteps sched).filter (·.cb = cb))) (hrun : runSched s sched = some t) :
    Phase t cb last [] := by
  induction sched generalizing s with
  | nil =>
    cases hrun
    exact h
  | cons act sched ih =>
    cases act with
    | inl step =>
      obtain ⟨s', hexec, hrun⟩ := Option.bind_eq_some_iff.1 hrun
      obtain ⟨hwf', hsame⟩ := EnableStep.exec_same hwf hexec
      rw [show ownSteps (.inl step :: sched) = step :: ownSteps sched from rfl] at h
      by_cases heq : step.cb = cb
      · rw [List.filter_cons_of_pos (by simpa using heq)] at h
        exact ih hwf' (h.next hlast hwf hexec) hrun
      · rw [List.filter_cons_of_neg (by simpa using heq)] at h
        exact ih hwf' (h.same (hsame cb (Ne.symm heq))) hrun
    | inr step =>
      obtain ⟨s', hexec, hrun⟩ := Option.bind_eq_some_iff.1 hrun
      obtain ⟨hwf', henv⟩ := CmdLists.env_spec hwf hexec
      refine ih hwf' ?_ hrun
      obtain hsame | hans := henv cb hcb
      · exact h.same hsame
      · exact h.answered hans

end

/-! ## The steps about a callback -/

section
variable {mrs qps : List Nat} {timedOut : EnableCb → Bool} {key : Nat}

lemma filter_about_none {cb : EnableCb} {l : List EnableStep} (h : ∀ step ∈ l, step.cb ≠ cb) :
    l.filter (·.cb = cb) = [] :=
  List.filter_eq_nil_iff.2 fun step hstep => by simpa using h step hstep

lemma filter_about_loop {mk : Nat → EnableCb} (hmk : Function.Injective mk)
    {f : EnableCb → List EnableStep} (hf : ∀ cb, ∀ step ∈ f cb, step.cb = cb) {l : List Nat}
    (hl : l.Nodup) (hkey : key ∈ l) :
    (l.flatMap fun key => f (mk key)).filter (·.cb = mk key) = f (mk key) := by
  induction l with
  | nil => cases hkey
  | cons key' l ih =>
    obtain ⟨hnot, hl⟩ := List.nodup_cons.1 hl
    rw [List.flatMap_cons, List.filter_append]
    by_cases heq : key' = key
    · subst heq
      have hself : (f (mk key')).filter (·.cb = mk key') = f (mk key') :=
        List.filter_eq_self.2 fun step hstep => by simpa using hf _ step hstep
      have hrest : (l.flatMap fun key => f (mk key)).filter (·.cb = mk key') = [] := by
        refine filter_about_none fun step hstep => ?_
        obtain ⟨key, hkey, hstep⟩ := List.mem_flatMap.1 hstep
        rw [hf _ step hstep]
        exact fun heq => hnot (hmk heq ▸ hkey)
      rw [hself, hrest, List.append_nil]
    · have hhead : (f (mk key')).filter (·.cb = mk key) = [] := by
        refine filter_about_none fun step hstep => ?_
        rw [hf _ step hstep]
        exact fun h => heq (hmk h)
      rw [hhead, List.nil_append]
      exact ih hl ((List.mem_cons.1 hkey).resolve_left (Ne.symm heq))

lemma enableSteps_cb (cb : EnableCb) : ∀ step ∈ enableSteps cb, step.cb = cb := by
  intro step hstep
  simp only [enableSteps, List.mem_cons, List.not_mem_nil, or_false] at hstep
  obtain rfl | rfl := hstep <;> rfl

lemma filter_enable_none (mk : Nat → EnableCb) (cb : EnableCb) (hmk : ∀ key, mk key ≠ cb)
    (l : List Nat) : (l.flatMap fun key => enableSteps (mk key)).filter (·.cb = cb) = [] := by
  refine filter_about_none fun step hstep => ?_
  obtain ⟨key, -, hstep⟩ := List.mem_flatMap.1 hstep
  rw [enableSteps_cb _ step hstep]
  exact hmk key

lemma filter_unlink_none (mk : Nat → EnableCb) (cb : EnableCb) (hmk : ∀ key, mk key ≠ cb)
    (l : List Nat) : (l.map fun key => EnableStep.unlink (mk key)).filter (·.cb = cb) = [] := by
  refine filter_about_none fun step hstep => ?_
  obtain ⟨key, -, rfl⟩ := List.mem_map.1 hstep
  exact hmk key

lemma resEnableSteps_mr (hmrs : mrs.Nodup) (hkey : key ∈ mrs) :
    (resEnableSteps mrs qps false timedOut).filter (·.cb = .mr key) =
      enableSteps (.mr key) ++ [.unlink (.mr key)] := by
  have hinj : Function.Injective EnableCb.mr := fun _ _ h => EnableCb.mr.inj h
  have hunlink : (mrs.map fun key => EnableStep.unlink (.mr key)).filter (·.cb = .mr key) =
      [.unlink (.mr key)] := by
    rw [List.map_eq_flatMap]
    have hcb (cb : EnableCb) : ∀ step ∈ [EnableStep.unlink cb], step.cb = cb := by
      intro step hstep
      rw [List.mem_singleton.1 hstep]
      rfl
    exact filter_about_loop hinj hcb hmrs hkey
  rw [resEnableSteps, if_neg (by decide), List.filter_append,
    List.filter_append, List.filter_append,
    filter_about_loop hinj enableSteps_cb hmrs hkey,
      filter_enable_none .qp (.mr key) (fun _ => nofun), hunlink,
    filter_unlink_none (fun _ => .listHead) (.mr key) (fun _ => nofun),
      List.append_nil, List.append_nil]

lemma resEnableSteps_qp (hqps : qps.Nodup) (hkey : key ∈ qps) :
    (resEnableSteps mrs qps false timedOut).filter (·.cb = .qp key) = enableSteps (.qp key) := by
  have hinj : Function.Injective EnableCb.qp := fun _ _ h => EnableCb.qp.inj h
  rw [resEnableSteps, if_neg (by decide), List.filter_append,
    List.filter_append, List.filter_append,
    filter_enable_none .mr (.qp key) (fun _ => nofun),
      filter_about_loop hinj enableSteps_cb hqps hkey,
    filter_unlink_none .mr (.qp key) (fun _ => nofun),
    filter_unlink_none (fun _ => .listHead) (.qp key) (fun _ => nofun),
    List.nil_append, List.append_nil, List.append_nil]

end

def Withdrawn (mrs qps : List Nat) (t : CmdLists) : Prop :=
  (∀ key ∈ mrs, .mr key ∈ t.queued → .mr key ∉ t.linked ∧ t.cmdsDone (.mr key) = true) ∧
    ∀ key ∈ qps, .qp key ∈ t.queued → .qp key ∉ t.linked ∧ t.cmdsDone (.qp key) = true

/-- All is withdrawn exactly if others answered the commands of queue pairs that were queued. -/
theorem resEnable_withdraws_iff {mrs qps : List Nat} (hmrs : mrs.Nodup) (hqps : qps.Nodup)
    {s t : CmdLists} (hwf : s.WF) (hmr : ∀ key ∈ mrs, Idle s (.mr key))
    (hqp : ∀ key ∈ qps, Idle s (.qp key)) {sched : Sched} {timedOut : EnableCb → Bool}
    (hown : ownSteps sched = resEnableSteps mrs qps false timedOut)
    (hrun : runSched s sched = some t) :
    Withdrawn mrs qps t ↔ ∀ key ∈ qps, .qp key ∈ t.queued → .qp key ∈ t.answered := by
  have hmrDone (key : Nat) (hkey : key ∈ mrs) : .mr key ∉ t.linked ∧
      t.cmdsDone (.mr key) = true := by
    have hphase : Phase s (.mr key) [.unlink (.mr key)]
        ((ownSteps sched).filter (·.cb = .mr key)) := by
      rw [hown, resEnableSteps_mr hmrs hkey]
      exact .fresh (hmr key hkey)
    have hother (id : Nat) : EnableCb.mr key ≠ .other id := nofun
    cases hphase.run hother (.inr rfl) hwf hrun with
    | withdrawn _ hlinked hdone => exact ⟨hlinked, hdone⟩
  have hqpWait (key : Nat) (hkey : key ∈ qps) : Queued t (.qp key) := by
    have hphase : Phase s (.qp key) [] ((ownSteps sched).filter (·.cb = .qp key)) := by
      rw [hown, resEnableSteps_qp hqps hkey]
      exact .fresh (hqp key hkey)
    have hother (id : Nat) : EnableCb.qp key ≠ .other id := nofun
    cases hphase.run hother (.inl rfl) hwf hrun with
    | queued hwait => exact hwait
    | withdrawn hlast => cases hlast
  constructor
  · intro h key hkey hqueued
    cases hqpWait key hkey with
    | notReady hidle => exact absurd hqueued hidle.queued
    | linked _ hlinked => exact absurd hlinked (h.2 key hkey hqueued).1
    | answered _ _ _ hans => exact hans
  · intro h
    refine ⟨fun key hkey _ => hmrDone key hkey, fun key hkey hqueued => ?_⟩
    cases hqpWait key hkey with
    | notReady hidle => exact absurd hqueued hidle.queued
    | linked _ _ hans => exact absurd (h key hkey hqueued) hans
    | answered _ hlinked hdone => exact ⟨hlinked, hdone⟩

/-- Commands are taken, the lists are empty, and the memory taken for a callback is in no list. -/
def emptyLists : CmdLists := ⟨true, [], [], fun _ => false, fun _ => false, [], []⟩

lemma emptyLists_wf : emptyLists.WF := ⟨List.nodup_nil, nofun⟩

lemma emptyLists_idle (cb : EnableCb) : Idle emptyLists cb := ⟨nofun, nofun, nofun⟩

def answeredSched : Sched :=
  [.inl (.reinit (.mr 1)), .inl (.add (.mr 1)), .inl (.reinit (.qp 5)),
    .inl (.add (.qp 5)), .inr .issue,
    .inr .issue, .inl (.unlink (.mr 1)), .inr (.answer false), .inl (.unlink .listHead)]

def loneSched : Sched := (resEnableSteps [1] [5] false fun _ => false).map .inl

theorem resEnable_withdraws_answered : ∃ t, runSched emptyLists
    answeredSched = some t ∧ Withdrawn [1]
    [5] t := by
  have hanswered : (runSched emptyLists answeredSched).map CmdLists.answered = some
    [.qp 5] := by decide
  obtain ⟨t, hrun, hans⟩ := Option.map_eq_some_iff.1 hanswered
  have hown : ownSteps answeredSched = resEnableSteps [1] [5] false fun _ => false := by decide
  refine ⟨t, hrun, (resEnable_withdraws_iff (by decide) (by decide) emptyLists_wf
    (fun _ _ => emptyLists_idle _) (fun _ _ => emptyLists_idle _) hown hrun).2 fun key hkey _ => ?_⟩
  rw [hans, List.mem_singleton.1 hkey]
  exact List.mem_singleton_self _

/-- The command of the queue pair stays in the list, and that of the region is withdrawn. -/
theorem resEnable_keeps_qp :
    (runSched emptyLists loneSched).map (fun t =>
      (t.queued, t.linked, t.cmdsDone (.mr 1), t.cmdsDone (.qp 5))) =
      some ([.mr 1, .qp 5], [.qp 5], true, false) := by
  decide

end Ntrdma
