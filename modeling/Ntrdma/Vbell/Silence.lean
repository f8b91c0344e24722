import Ntrdma.Vbell.Doorbell

/-!
# A disabled doorbell

`ntrdma_work_vbell_flush` disables a doorbell and flushes its work item twice, so that nothing is
queued afterwards. This module has the operations on a doorbell and its head that can happen
meanwhile, from a work item that is still running or from scanners, and the work item itself:
`queue_work` does nothing while the item is pending, and `flush_work` waits for every instance that
was queued when it began.

Three operations call the doorbell back. A trigger and a fire of the head test whether it is
enabled; `ntrdma_vbell_readd` tests only whether it is alive.
-/

namespace Ntrdma
open Lib

def vbellDisable (vbell : Vbell) : Vbell := { vbell with enabled := false }

/-- C `ntrdma_vbell_add_clear`, which fails with `-EINVAL` where the doorbell is dead. -/
def vbellAddClear (head : VbellHead) (vbell : Vbell) : Vbell :=
  if !vbell.alive then vbell
  else if vbell.arm then vbell
  else { vbell with seq := head.seq, arm := true }

/-- C `ntrdma_vbell_trigger`, which fails with `-EINVAL` where it does not call back. -/
def vbellTrigger (head : VbellHead) (vbell : Vbell) : Bool × Vbell :=
  if !vbell.enabled then (false, vbell) else (true, { vbell with arm := false, seq := head.seq })

def vbellHeadEnable (head : VbellHead) (vbell : Vbell) : Bool × VbellHead × Vbell :=
  let head := { head with enabled := true }
  let (called, vbell) := vbellHeadFireLocked head vbell
  (called, head, vbell)

def vbellHeadDisable (head : VbellHead) (vbell : Vbell) : Bool × VbellHead × Vbell :=
  let head := { head with enabled := false, seq := 0 }
  let (called, vbell) := vbellHeadFireLocked head vbell
  (called, head, vbell)

inductive VbellOp where
  | clear
  | readd
  | addClear
  | trigger
  | headFire (vbellVal : UInt32)
  | headEnable
  | headDisable
  deriving DecidableEq, Repr

/-- Whether an operation calls the doorbell back, and the head and the doorbell after it. -/
def VbellOp.run (head : VbellHead) (vbell : Vbell) : VbellOp → Bool × VbellHead × Vbell
  | .clear => (false, head, vbellClear head vbell)
  | .readd => ((vbellReadd head vbell).1, head, (vbellReadd head vbell).2)
  | .addClear => (false, head, vbellAddClear head vbell)
  | .trigger => ((vbellTrigger head vbell).1, head, (vbellTrigger head vbell).2)
  | .headFire vbellVal => vbellHeadFire head vbell vbellVal
  | .headEnable => vbellHeadEnable head vbell
  | .headDisable => vbellHeadDisable head vbell

/-! ## The work item of a doorbell -/

/-- A work item: `made` instances were queued and `finished` have ended, at most one pending and one
running. -/
structure WorkItem where
  pending : Bool
  running : Bool
  made : Nat
  finished : Nat

def WorkItem.queue (work : WorkItem) : WorkItem :=
  if work.pending then work else { work with pending := true, made := work.made + 1 }

def WorkItem.Counts (work : WorkItem) : Prop :=
  work.made = work.finished + work.pending.toNat + work.running.toNat

/-- Where `ntrdma_work_vbell_flush` is: behind the disabling, in a `flush_work`, between the two, or
at its end. -/
inductive FlushPhase where
  | disabled
  | first (target : Nat)
  | between
  | second (target : Nat)
  | flushed
  deriving DecidableEq, Repr

/-- What a flush that waits for `made` instances knows where it is: it waits for them, or they
ended. -/
def FlushPhase.Knows (made finished : Nat) : FlushPhase → Prop
  | .disabled => True
  | .first target => target = made
  | .between => made ≤ finished
  | .second target => target = made
  | .flushed => made ≤ finished

lemma FlushPhase.Knows.finish {made finished : Nat} {phase : FlushPhase}
    (h : Knows made finished phase) : Knows made (finished + 1) phase := by
  cases phase with
  | disabled => trivial
  | first => exact h
  | between => exact Nat.le_succ_of_le h
  | second => exact h
  | flushed => exact Nat.le_succ_of_le h

/-- A doorbell that is flushed. `calls` counts the callbacks since it was disabled. -/
structure BellFlush where
  head : VbellHead
  vbell : Vbell
  work : WorkItem
  phase : FlushPhase
  calls : Nat

inductive FlushAct where
  | op (op : VbellOp)
  | start
  | finish
  | flush
  deriving DecidableEq, Repr

namespace BellFlush

def begin (head : VbellHead) (vbell : Vbell) (work : WorkItem) : BellFlush :=
  ⟨head, vbellDisable vbell, work, .disabled, 0⟩

def apply (s : BellFlush) : FlushAct → Option BellFlush
  | .op op =>
    let (called, head, vbell) := op.run s.head s.vbell
    let s := { s with head, vbell }
    some (if called then { s with work := s.work.queue, calls := s.calls + 1 } else s)
  | .start =>
    if s.work.pending && !s.work.running then
      some { s with work := { s.work with pending := false, running := true } }
    else none
  | .finish =>
    if s.work.running then
      some { s with work := { s.work with running := false, finished := s.work.finished + 1 } }
    else none
  | .flush =>
    match s.phase with
    | .disabled => some { s with phase := .first s.work.made }
    | .first target => if target ≤ s.work.finished then some { s with phase := .between } else none
    | .between => some { s with phase := .second s.work.made }
    | .second target => if target ≤ s.work.finished then some { s with phase := .flushed } else none
    | .flushed => none

def Quiet (s : BellFlush) (act : FlushAct) : Prop :=
  act = .op .readd → ¬ (s.vbell.alive = true ∧ s.vbell.arm = false ∧ s.vbell.seq ≠ s.head.seq)

def AllQuiet (s : BellFlush) : List FlushAct → Prop
  | [] => True
  | act :: acts => s.Quiet act ∧ ∀ t, s.apply act = some t → t.AllQuiet acts

/-! ## What an operation does to a disabled doorbell -/

lemma run_enabled (head : VbellHead) (vbell : Vbell) (op : VbellOp) :
    (op.run head vbell).2.2.enabled = vbell.enabled := by
  cases op with
  | clear => rfl
  | readd =>
    simp only [VbellOp.run, vbellReadd]
    split
    · rfl
    split
    · rfl
    split <;> rfl
  | addClear =>
    simp only [VbellOp.run, vbellAddClear]
    split
    · rfl
    split <;> rfl
  | trigger =>
    simp only [VbellOp.run, vbellTrigger]
    split <;> rfl
  | headFire =>
    simp only [VbellOp.run, vbellHeadFire, vbellHeadFireLocked]
    split
    · rfl
    split
    · rfl
    split <;> rfl
  | headEnable =>
    simp only [VbellOp.run, vbellHeadEnable, vbellHeadFireLocked]
    split <;> rfl
  | headDisable =>
    simp only [VbellOp.run, vbellHeadDisable, vbellHeadFireLocked]
    split <;> rfl

lemma vbellReadd_called_iff (head : VbellHead) (vbell : Vbell) :
    (vbellReadd head vbell).1 = true ↔
      vbell.alive = true ∧ vbell.arm = false ∧ vbell.seq ≠ head.seq := by
  rw [vbellReadd]
  cases vbell.alive with
  | false => simp
  | true =>
    cases vbell.arm with
    | true => simp
    | false =>
      by_cases hseq : vbell.seq = head.seq
      · simp [hseq]
      · simp [hseq]

lemma run_called_iff (head : VbellHead) {vbell : Vbell} (hdisabled : vbell.enabled = false)
    (op : VbellOp) :
    (op.run head vbell).1 = true ↔
      op = .readd ∧ vbell.alive = true ∧ vbell.arm = false ∧ vbell.seq ≠ head.seq := by
  have hfire (head : VbellHead) : (vbellHeadFireLocked head vbell).1 = false := by
    rw [vbellHeadFireLocked, hdisabled, Bool.and_false, if_neg Bool.false_ne_true]
  cases op with
  | readd => simp only [VbellOp.run, vbellReadd_called_iff, true_and]
  | headFire =>
    simp only [VbellOp.run, vbellHeadFire]
    split
    · simp
    split
    · simp
    · simp [hfire]
  | headEnable => simp [VbellOp.run, vbellHeadEnable, hfire]
  | headDisable => simp [VbellOp.run, vbellHeadDisable, hfire]
  | trigger => simp [VbellOp.run, vbellTrigger, hdisabled]
  | clear => simp [VbellOp.run]
  | addClear => simp [VbellOp.run]

/-! ## What holds while the doorbell is disabled -/

section
variable {s t : BellFlush} {act : FlushAct}

def after (s : BellFlush) (op : VbellOp) : BellFlush :=
  { s with head := (op.run s.head s.vbell).2.1, vbell := (op.run s.head s.vbell).2.2 }

lemma apply_op (op : VbellOp) : s.apply (.op op) =
    some (if (op.run s.head s.vbell).1 then
      { s.after op with work := s.work.queue, calls := s.calls + 1 } else s.after op) := rfl

lemma apply_calls (hdisabled : s.vbell.enabled = false) (hstep : s.apply act = some t) :
    t.vbell.enabled = false ∧ s.calls ≤ t.calls ∧ (t.calls = s.calls ↔ s.Quiet act) := by
  have hquiet : (∀ op, act ≠ .op op) → s.Quiet act := fun hno heq => absurd heq (hno _)
  cases act with
  | op op =>
    rw [apply_op] at hstep
    have henabled : (s.after op).vbell.enabled = false :=
      (run_enabled s.head s.vbell op).trans hdisabled
    have hcalled := run_called_iff s.head hdisabled op
    split at hstep <;> rename_i hcall <;> cases hstep
    · refine ⟨henabled, Nat.le_succ _, iff_of_false (Nat.succ_ne_self _) fun hq => ?_⟩
      obtain ⟨rfl, hfound⟩ := hcalled.1 hcall
      exact hq rfl hfound
    · refine ⟨henabled, le_rfl, iff_of_true rfl fun heq hfound => hcall (hcalled.2 ⟨?_, hfound⟩)⟩
      exact FlushAct.op.inj heq
  | start =>
    obtain ⟨-, ⟨⟩⟩ := Option.ite_none_right_eq_some.mp hstep
    exact ⟨hdisabled, le_rfl, iff_of_true rfl (hquiet fun _ h => by cases h)⟩
  | finish =>
    obtain ⟨-, ⟨⟩⟩ := Option.ite_none_right_eq_some.mp hstep
    exact ⟨hdisabled, le_rfl, iff_of_true rfl (hquiet fun _ h => by cases h)⟩
  | flush =>
    have hsame : t.vbell = s.vbell ∧ t.calls = s.calls := by
      simp only [apply] at hstep
      split at hstep
      · cases hstep
        exact ⟨rfl, rfl⟩
      · obtain ⟨-, ⟨⟩⟩ := Option.ite_none_right_eq_some.mp hstep
        exact ⟨rfl, rfl⟩
      · cases hstep
        exact ⟨rfl, rfl⟩
      · obtain ⟨-, ⟨⟩⟩ := Option.ite_none_right_eq_some.mp hstep
        exact ⟨rfl, rfl⟩
      · cases hstep
    rw [hsame.1, hsame.2]
    exact ⟨hdisabled, le_rfl, iff_of_true rfl (hquiet fun _ h => by cases h)⟩

variable {acts : List FlushAct}

lemma run_calls (hdisabled : s.vbell.enabled = false) (hrun : acts.foldlM apply s = some t) :
    s.calls ≤ t.calls ∧ (t.calls = s.calls ↔ s.AllQuiet acts) := by
  induction acts generalizing s with
  | nil =>
    cases hrun
    exact ⟨le_rfl, iff_of_true rfl trivial⟩
  | cons _ _ ih =>
    rw [List.foldlM_cons] at hrun
    obtain ⟨u, hu, hrest⟩ := Option.bind_eq_some_iff.mp hrun
    obtain ⟨hdisabled', hle, hquiet⟩ := apply_calls hdisabled hu
    obtain ⟨hle', hall⟩ := ih hdisabled' hrest
    refine ⟨hle.trans hle', ?_⟩
    rw [AllQuiet, ← hquiet]
    constructor
    · intro heq
      refine ⟨by omega, fun v hv => ?_⟩
      cases hu.symm.trans hv
      exact hall.1 (by omega)
    · rintro ⟨heq, hrestQuiet⟩
      rw [hall.2 (hrestQuiet u hu), heq]

structure Settles (made : Nat) (s : BellFlush) : Prop where
  disabled : s.vbell.enabled = false
  counts : s.work.Counts
  same : s.work.made = made
  knows : FlushPhase.Knows made s.work.finished s.phase

variable {made : Nat}

lemma Settles.step (h : s.Settles made) (hquiet : s.Quiet act) (hstep : s.apply act = some t) :
    t.Settles made := by
  obtain ⟨hdisabled, hcounts, hsame, hknows⟩ := h
  have henabled := (apply_calls hdisabled hstep).1
  cases act with
  | op op =>
    rw [apply_op, if_neg] at hstep
    · cases hstep
      exact ⟨henabled, hcounts, hsame, hknows⟩
    · intro hcall
      obtain ⟨rfl, hfound⟩ := (run_called_iff s.head hdisabled op).1 hcall
      exact hquiet rfl hfound
  | start =>
    obtain ⟨hwork, ⟨⟩⟩ := Option.ite_none_right_eq_some.mp hstep
    simp only [Bool.and_eq_true, Bool.not_eq_true'] at hwork
    refine ⟨hdisabled, ?_, hsame, hknows⟩
    simp only [WorkItem.Counts, hwork.1, hwork.2, Bool.toNat_true, Bool.toNat_false] at hcounts ⊢
    omega
  | finish =>
    obtain ⟨hwork, ⟨⟩⟩ := Option.ite_none_right_eq_some.mp hstep
    refine ⟨hdisabled, ?_, hsame, hknows.finish⟩
    simp only [WorkItem.Counts, hwork, Bool.toNat_true, Bool.toNat_false] at hcounts ⊢
    omega
  | flush =>
    simp only [apply] at hstep
    split at hstep <;> rename_i hphase <;> rw [hphase] at hknows
    · cases hstep
      exact ⟨hdisabled, hcounts, hsame, hsame⟩
    · obtain ⟨hle, ⟨⟩⟩ := Option.ite_none_right_eq_some.mp hstep
      exact ⟨hdisabled, hcounts, hsame, hknows.symm.trans_le hle⟩
    · cases hstep
      exact ⟨hdisabled, hcounts, hsame, hsame⟩
    · obtain ⟨hle, ⟨⟩⟩ := Option.ite_none_right_eq_some.mp hstep
      exact ⟨hdisabled, hcounts, hsame, hknows.symm.trans_le hle⟩
    · cases hstep

lemma Settles.run (h : s.Settles made) (hquiet : s.AllQuiet acts)
    (hrun : acts.foldlM apply s = some t) : t.Settles made := by
  induction acts generalizing s with
  | nil =>
    cases hrun
    exact h
  | cons _ _ ih =>
    rw [List.foldlM_cons] at hrun
    obtain ⟨u, hu, hrest⟩ := Option.bind_eq_some_iff.mp hrun
    exact ih (h.step hquiet.1 hu) (hquiet.2 u hu) hrest

lemma settles_begin {head : VbellHead} {vbell : Vbell} {work : WorkItem} (hwork : work.Counts) :
    (begin head vbell work).Settles work.made := ⟨rfl, hwork, rfl, trivial⟩

end

/-- A disabled doorbell is not called back exactly if no readd finds it alive, not armed and behind
its head. Then nothing is queued and nothing runs after the two flushes. -/
theorem disabled_silent_iff (head : VbellHead) (vbell : Vbell) (work : WorkItem)
    (hwork : work.Counts) (acts : List FlushAct) (t : BellFlush)
    (hrun : acts.foldlM apply (begin head vbell work) = some t) :
    (t.calls = 0 ↔ (begin head vbell work).AllQuiet acts) ∧
    (t.calls = 0 → t.phase = .flushed → t.work.pending = false ∧ t.work.running = false) := by
  have hcalls := (run_calls (s := begin head vbell work) rfl hrun).2
  refine ⟨hcalls, fun hzero hphase => ?_⟩
  have hsettled := (settles_begin hwork).run (hcalls.1 hzero) hrun
  have hfinished := hsettled.knows
  rw [hphase] at hfinished
  have hle : work.made ≤ t.work.finished := hfinished
  have hcounts := hsettled.counts
  rw [WorkItem.Counts, hsettled.same] at hcounts
  have hpending : t.work.pending.toNat = 0 := by omega
  have hrunning : t.work.running.toNat = 0 := by omega
  exact ⟨Bool.toNat_eq_zero.1 hpending, Bool.toNat_eq_zero.1 hrunning⟩

def runningWork : WorkItem := ⟨false, true, 1, 0⟩

theorem finished_work_silent : ∃ t, [.op (.headFire 1), .flush, .finish, .flush,
    .flush, .flush].foldlM apply
    (begin ⟨0, true⟩ ⟨0, false, true, true⟩ runningWork) = some t ∧ t.calls = 0 ∧
      t.work.pending = false := by
  have h := disabled_silent_iff ⟨0, true⟩ ⟨0, false, true, true⟩ runningWork rfl
    [.op (.headFire 1), .flush, .finish, .flush, .flush, .flush] _ rfl
  exact ⟨_, rfl, rfl, (h.2 rfl rfl).1⟩

/-- The doorbell rings while its work item runs, which adds it again: it is called back although it
is disabled. -/
theorem disabled_called_back : ∃ t,
    [.flush, .op (.headFire 1), .op .readd, .finish, .flush, .flush,
      .start, .op .clear, .op (.headFire 2), .op .readd, .finish, .flush].foldlM apply
      (begin ⟨0, true⟩ ⟨0, false, true, true⟩ runningWork) = some t ∧
    t.calls = 2 ∧ t.phase = .flushed ∧ t.work.pending = true :=
  ⟨_, rfl, rfl, rfl, rfl⟩

end BellFlush

end Ntrdma
