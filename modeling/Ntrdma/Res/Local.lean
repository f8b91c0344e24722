import Ntrdma.Res.Kvec

/-!
# The host's own resources

Model of `ntrdma_res_add` and `ntrdma_res_del` (`ntrdma_res.c`): a region or a queue pair of the
host is on a list and in a vector of keys. Both calls store into the vector with
`ntrdma_kvec_set_key`, which works on a copy of the table and does not report that the copy could
not be allocated.

The system is the resources of one vector. A resource reserves its key when it is initialized
(`ntrdma_mr_init`, `ntrdma_qp_init`), it may then be added and deleted, and it disposes of its key
when the last reference to it is gone and it is not on the list. A call is one step: what happens
between the two halves of `ntrdma_res_add` concerns other keys.
-/

namespace Ntrdma
open Function Lib

structure ResTable where
  list : List Nat
  vec : Kvec Nat

/-- Whether the copies of the vector can be allocated in `ntrdma_res_add`, and what the calls in it
return. -/
structure ResAddEnv where
  setAlloc : Bool
  enable : Int
  submit : Int
  wait : Int
  ret : Int
  clearAlloc : Bool

def resAdd (t : ResTable) (env : ResAddEnv) (res key : Nat) : Option (Int × ResTable) :=
  match t.vec.setKey key (some res) env.setAlloc with
  | none => none
  | some vec =>
    let t := { list := t.list ++ [res], vec }
    if env.enable ≠ 0 then some (0, t)
    else if env.submit ≠ 0 then some (0, t)
    else
      let rc := if env.wait = 0 then env.ret else env.wait
      if rc ≠ 0 then
        match t.vec.setKey key none env.clearAlloc with
        | none => none
        | some vec => some (rc, { list := t.list.erase res, vec })
      else some (rc, t)

/-- C `ntrdma_res_del`. What the peer answers is reported and has no effect here. -/
def resDel (t : ResTable) (res key : Nat) (alloc : Bool) : Option ResTable :=
  match t.vec.setKey key none alloc with
  | none => none
  | some vec => some { list := t.list.erase res, vec }

def ResAddEnv.rc (env : ResAddEnv) : Int :=
  if env.enable ≠ 0 ∨ env.submit ≠ 0 then 0 else if env.wait = 0 then env.ret else env.wait

def storeLook (look : Nat → Option Nat) (key : Nat) (value : Option Nat) (alloc : Bool) :
    Nat → Option Nat :=
  if alloc then update look key value else look

def ResAddEnv.look (env : ResAddEnv) (look : Nat → Option Nat) (res key : Nat) : Nat → Option Nat :=
  if env.rc = 0 then storeLook look key (some res) env.setAlloc
  else storeLook (storeLook look key (some res) env.setAlloc) key none env.clearAlloc

/-! ## What the calls do -/

variable {look : Nat → Option Nat}

lemma storeLook_ne {k key : Nat} (hne : k ≠ key) (value : Option Nat) (alloc : Bool) :
    storeLook look key value alloc k = look k := by
  cases alloc with
  | false => rfl
  | true => exact update_of_ne hne _ _

lemma storeLook_self (look : Nat → Option Nat) (key : Nat) (value : Option Nat) (alloc : Bool) :
    storeLook look key value alloc key = if alloc then value else look key := by
  cases alloc with
  | false => rfl
  | true => exact update_self _ _ _

section
variable {vec : Kvec Nat} {key : Nat}

lemma Kvec.Wf.setKey_storeLook (h : vec.Wf) (hkey : key < vec.cap) (value : Option Nat)
    (alloc : Bool) :
    vec.setKey key value alloc = some { vec with look := storeLook vec.look key value alloc } := by
  cases alloc with
  | true => exact h.setKey_eq hkey value
  | false =>
    obtain ⟨-, hcopy⟩ | ⟨hfalse, -⟩ := h.newCopy_cases false
    · rw [Kvec.setKey, hcopy]
      rfl
    · cases hfalse

lemma Kvec.Wf.storeLook (h : vec.Wf) (hkey : key < vec.cap) (value : Option Nat) (alloc : Bool) :
    ({ vec with look := storeLook vec.look key value alloc } : Kvec Nat).Wf := by
  cases alloc with
  | true => exact h.store hkey value
  | false => exact h

lemma Kvec.Wf.disposeKey_lt (h : vec.Wf) (hge : vec.numReservedKeys ≤ key) (hlt : key < vec.cap)
    (alloc : Bool) :
    vec.disposeKey key alloc =
      some { vec with keys := if alloc then update vec.keys key false else vec.keys } := by
  cases alloc with
  | true => exact h.disposeKey_eq hge hlt
  | false =>
    obtain ⟨-, hcopy⟩ | ⟨hfalse, -⟩ := h.newCopy_cases false
    · rw [Kvec.disposeKey, if_neg (Nat.not_lt.2 hge), hcopy]
      rfl
    · cases hfalse

end

variable {t : ResTable} {key : Nat}

/-- An addition returns `rc`, leaves the entries `look`, and has the resource on the list exactly if
it returns zero. -/
lemma resAdd_eq (h : t.vec.Wf) (hkey : key < t.vec.cap) (env : ResAddEnv) (res : Nat) :
    resAdd t env res key =
      some (env.rc,
        { list := if env.rc = 0 then t.list ++ [res] else (t.list ++ [res]).erase res
          vec := { t.vec with look := env.look t.vec.look res key } }) := by
  rw [resAdd, h.setKey_storeLook hkey]
  dsimp only
  rw [(h.storeLook hkey (some res) env.setAlloc).setKey_storeLook hkey none env.clearAlloc,
    ResAddEnv.look, ResAddEnv.rc]
  by_cases henable : env.enable ≠ 0
  · rw [if_pos henable, if_pos (.inl henable), if_pos rfl, if_pos rfl]
  by_cases hsubmit : env.submit ≠ 0
  · rw [if_neg henable, if_pos hsubmit, if_pos (.inr hsubmit), if_pos rfl, if_pos rfl]
  rw [if_neg henable, if_neg hsubmit, if_neg (not_or.2 ⟨henable, hsubmit⟩)]
  by_cases hrc : (if env.wait = 0 then env.ret else env.wait) = 0
  · rw [if_neg (not_not.2 hrc), if_pos hrc, if_pos hrc]
  · rw [if_pos hrc, if_neg hrc, if_neg hrc]

lemma resDel_eq (h : t.vec.Wf) (hkey : key < t.vec.cap) (res : Nat) (alloc : Bool) :
    resDel t res key alloc =
      some { list := t.list.erase res
             vec := { t.vec with look := storeLook t.vec.look key none alloc } } := by
  rw [resDel, h.setKey_storeLook hkey]

lemma ResAddEnv.look_ne (env : ResAddEnv) {res key k : Nat} (hne : k ≠ key) :
    env.look look res key k = look k := by
  rw [ResAddEnv.look]
  split
  · rw [storeLook_ne hne]
  · rw [storeLook_ne hne, storeLook_ne hne]

lemma ResAddEnv.look_self (env : ResAddEnv) (look : Nat → Option Nat) (res key : Nat) :
    env.look look res key key =
      if env.rc ≠ 0 ∧ env.clearAlloc = true then none
      else if env.setAlloc = true then some res else look key := by
  rw [ResAddEnv.look]
  by_cases hrc : env.rc = 0
  · have hkeep : ¬ (env.rc ≠ 0 ∧ env.clearAlloc = true) := fun h => h.1 hrc
    rw [if_pos hrc, storeLook_self, if_neg hkeep]
  · rw [if_neg hrc, storeLook_self, storeLook_self]
    exact if_congr (and_iff_right hrc).symm rfl rfl

lemma Kvec.Wf.addLook {vec : Kvec Nat} (h : vec.Wf) (hkey : key < vec.cap) (env : ResAddEnv)
    (res : Nat) : ({ vec with look := env.look vec.look res key } : Kvec Nat).Wf := by
  rw [ResAddEnv.look]
  split
  · exact h.storeLook hkey _ _
  · exact (h.storeLook hkey _ _).storeLook hkey none env.clearAlloc

/-! ## The resources of a vector -/

/-- How far a resource has come: `added` once `ntrdma_res_add` returned zero, `removed` once
`ntrdma_res_del` was called. -/
inductive ResPhase where
  | unused | fresh | added | failed | removed
  deriving DecidableEq, Repr

/-- The resources of a vector with their keys; `held` are those that have not disposed of theirs. -/
structure LresSys where
  table : ResTable
  key : Nat → Nat
  phase : Nat → ResPhase
  held : Nat → Bool

inductive LresOp where
  | init (res : Nat) (alloc : Bool)
  | add (res : Nat) (env : ResAddEnv)
  | del (res : Nat) (alloc : Bool)
  | release (res : Nat) (alloc : Bool)

namespace LresSys

def start (vec : Kvec Nat) : LresSys := ⟨⟨[], vec⟩, fun _ => 0, fun _ => .unused, fun _ => false⟩

/-- The system after an operation; one that a resource is not ready for is not carried out. -/
def exec (s : LresSys) : LresOp → Option LresSys
  | .init r alloc =>
    if s.phase r = .unused then
      match s.table.vec.reserveKey alloc with
      | (.error _, vec) => some { s with table := { s.table with vec } }
      | (.ok key, vec) => some
        { table := { s.table with vec }
          key := update s.key r key
          phase := update s.phase r .fresh
          held := update s.held r true }
    else some s
  | .add r env =>
    if s.phase r = .fresh ∧ s.held r = true then
      match resAdd s.table env r (s.key r) with
      | none => none
      | some (rc, table) =>
        some { s with table, phase := update s.phase r (if rc = 0 then .added else .failed) }
    else some s
  | .del r alloc =>
    if s.phase r = .added then
      match resDel s.table r (s.key r) alloc with
      | none => none
      | some table => some { s with table, phase := update s.phase r .removed }
    else some s
  | .release r alloc =>
    if s.phase r ≠ .added ∧ s.held r = true then
      match s.table.vec.disposeKey (s.key r) alloc with
      | none => none
      | some vec => some { s with table := { s.table with vec }, held := update s.held r false }
    else some s

/-- A resource that has been removed is not found, and one that was added and not removed is. -/
structure Effective (s : LresSys) : Prop where
  removed : ∀ r, s.phase r = .removed → s.table.vec.resLook (s.key r) ≠ some r
  added : ∀ r, s.phase r = .added → s.table.vec.resLook (s.key r) = some r

/-- The copies that a call needs can be allocated. -/
def Allocates (s : LresSys) : LresOp → Prop
  | .add r env => s.phase r = .fresh → s.held r = true → env.setAlloc = true ∨ env.rc ≠ 0
  | .del r alloc => s.phase r = .added → alloc = true
  | _ => True

/-- Held keys are taken, not permanent and those of one resource each, and the entries are those of
the resources that are added, or whose addition failed. -/
structure Inv (s : LresSys) : Prop where
  wf : s.table.vec.Wf
  held : ∀ r, s.held r = true →
    s.table.vec.numReservedKeys ≤ s.key r ∧ s.key r < s.table.vec.cap ∧
      s.table.vec.keys (s.key r) = true
  distinct : ∀ r r', s.held r = true → s.held r' = true → s.key r = s.key r' → r = r'
  added_held : ∀ r, s.phase r = .added → s.held r = true
  entry : ∀ key r, s.table.vec.look key = some r →
    (s.phase r = .added ∨ s.phase r = .failed) ∧ s.key r = key
  found : ∀ r, s.phase r = .added → s.table.vec.look (s.key r) = some r

variable {s : LresSys}

lemma Inv.effective (h : s.Inv) : s.Effective := by
  refine ⟨fun r hr hfound => ?_, fun r hr => ?_⟩
  · rw [h.wf.resLook_eq] at hfound
    obtain ⟨hphase | hphase, -⟩ := h.entry _ r hfound
    · exact absurd (hr.symm.trans hphase) (by decide)
    · exact absurd (hr.symm.trans hphase) (by decide)
  · rw [h.wf.resLook_eq]
    exact h.found r hr

variable {r : Nat}

lemma Inv.init (h : s.Inv) (hr : s.phase r = .unused) (alloc : Bool) :
    ∃ t, s.exec (.init r alloc) = some t ∧ t.Inv := by
  rw [exec, if_pos hr]
  have hreserves := h.wf.reserves alloc
  have hwf := h.wf.reserveKey alloc
  generalize s.table.vec.reserveKey alloc = res at hreserves hwf
  cases hreserves with
  | failed => exact ⟨_, rfl, h⟩
  | @reserved _ key _ hkey =>
    obtain ⟨hge, hle, hfree⟩ := h.wf.key_free hkey
    have hnext := h.wf.next_lt
    have hother : ∀ r', s.held r' = true → s.key r' ≠ key := by
      rintro r' hr' rfl
      exact Bool.false_ne_true (hfree.symm.trans (h.held r' hr').2.2)
    have hphase : ∀ r', s.phase r' = .added ∨ s.phase r' = .failed → r' ≠ r := by
      rintro r' hr' rfl
      rw [hr] at hr'
      exact absurd hr' (by decide)
    have hadded : ∀ r', update s.phase r .fresh r' = .added → r' ≠ r ∧ s.phase r' = .added := by
      intro r' hr'
      by_cases heq : r' = r
      · rw [heq, update_self] at hr'
        cases hr'
      · rw [update_of_ne heq] at hr'
        exact ⟨heq, hr'⟩
    refine ⟨_, rfl, hwf, fun r' hr' => ?_, fun r1 r2 h1 h2 heq => ?_,
      fun r' hr' => ?_, fun k r' hk => ?_,
      fun r' hr' => ?_⟩ <;> dsimp only at *
    · by_cases heq : r' = r
      · rw [heq, update_self, update_self]
        exact ⟨hge, by omega, rfl⟩
      · rw [update_of_ne heq] at hr' ⊢
        rw [update_of_ne (hother r' hr')]
        obtain ⟨hge', hlt', htaken⟩ := h.held r' hr'
        exact ⟨hge', by omega, htaken⟩
    · by_cases heq1 : r1 = r <;> by_cases heq2 : r2 = r
      · exact heq1.trans heq2.symm
      · rw [heq1, update_self, update_of_ne heq2] at heq
        rw [update_of_ne heq2] at h2
        exact absurd heq.symm (hother r2 h2)
      · rw [heq2, update_self, update_of_ne heq1] at heq
        rw [update_of_ne heq1] at h1
        exact absurd heq (hother r1 h1)
      · rw [update_of_ne heq1] at heq h1
        rw [update_of_ne heq2] at heq h2
        exact h.distinct r1 r2 h1 h2 heq
    · obtain ⟨hne, hr'⟩ := hadded r' hr'
      rw [update_of_ne hne]
      exact h.added_held r' hr'
    · obtain ⟨hr', hk'⟩ := h.entry k r' hk
      rw [update_of_ne (hphase r' hr'), update_of_ne (hphase r' hr')]
      exact ⟨hr', hk'⟩
    · obtain ⟨hne, hr'⟩ := hadded r' hr'
      rw [update_of_ne hne]
      exact h.found r' hr'

lemma Inv.setEntry (h : s.Inv) (hr : s.held r = true) {list : List Nat} {look : Nat → Option Nat}
    {phase : ResPhase} (hwf : ({ s.table.vec with look } : Kvec Nat).Wf)
    (hother : ∀ k, k ≠ s.key r → look k = s.table.vec.look k)
    (hself : ∀ r', look (s.key r) = some r' →
      r' = r ∧ (phase = .added ∨ phase = .failed) ∨ r' ≠ r ∧ s.table.vec.look (s.key r) = some r')
    (hfound : phase = .added → look (s.key r) = some r) :
    ({ s with
        table := ⟨list, { s.table.vec with look }⟩
        phase := update s.phase r phase } : LresSys).Inv := by
  refine ⟨hwf, h.held, h.distinct, fun r' hr' => ?_, fun k r' hk => ?_,
    fun r' hr' => ?_⟩ <;> dsimp only at *
  · by_cases heq : r' = r
    · rw [heq]
      exact hr
    · rw [update_of_ne heq] at hr'
      exact h.added_held r' hr'
  · by_cases hkey : k = s.key r
    · rw [hkey] at hk ⊢
      obtain ⟨rfl, hphase⟩ | ⟨hne, hold⟩ := hself r' hk
      · rw [update_self]
        exact ⟨hphase, rfl⟩
      · rw [update_of_ne hne]
        exact h.entry _ r' hold
    · rw [hother k hkey] at hk
      obtain ⟨hphase, rfl⟩ := h.entry k r' hk
      have hne : r' ≠ r := fun heq => hkey (heq ▸ rfl)
      rw [update_of_ne hne]
      exact ⟨hphase, rfl⟩
  · by_cases heq : r' = r
    · rw [heq, update_self] at hr'
      rw [heq]
      exact hfound hr'
    · rw [update_of_ne heq] at hr'
      rw [hother _ fun hkey => heq (h.distinct r' r (h.added_held r' hr') hr hkey)]
      exact h.found r' hr'

lemma exec_add (h : s.Inv) (hr : s.phase r = .fresh ∧ s.held r = true) (env : ResAddEnv) :
    s.exec (.add r env) = some
      { s with
        table :=
          ⟨if env.rc = 0 then s.table.list ++ [r] else (s.table.list ++ [r]).erase r,
            { s.table.vec with look := env.look s.table.vec.look r (s.key r) }⟩
        phase := update s.phase r (if env.rc = 0 then .added else .failed) } := by
  rw [exec, if_pos hr, resAdd_eq h.wf (h.held r hr.2).2.1]

lemma exec_del (h : s.Inv) (hr : s.phase r = .added) (alloc : Bool) :
    s.exec (.del r alloc) = some { s with
        table :=
          ⟨s.table.list.erase r,
            { s.table.vec with look := storeLook s.table.vec.look (s.key r) none alloc }⟩
        phase := update s.phase r .removed } := by
  rw [exec, if_pos hr, resDel_eq h.wf (h.held r (h.added_held r hr)).2.1]

lemma Inv.fresh_entry (h : s.Inv) {r key : Nat} (hr : s.phase r = .fresh) :
    s.table.vec.look key ≠ some r := by
  intro hfound
  obtain ⟨hphase, -⟩ := h.entry key r hfound
  rw [hr] at hphase
  exact absurd hphase (by decide)

variable {env : ResAddEnv}

lemma Inv.add (h : s.Inv) (hr : s.phase r = .fresh ∧ s.held r = true)
    (halloc : env.setAlloc = true ∨ env.rc ≠ 0) : ∃ t, s.exec (.add r env) = some t ∧ t.Inv := by
  have hlt := (h.held r hr.2).2.1
  refine ⟨_, exec_add h hr env, h.setEntry hr.2 (h.wf.addLook hlt env r)
    (fun k hk => env.look_ne hk) ?_ ?_⟩
  · intro r' hr'
    rw [env.look_self] at hr'
    split at hr'
    · cases hr'
    split at hr'
    · cases hr'
      refine .inl ⟨rfl, ?_⟩
      by_cases hrc : env.rc = 0
      · exact .inl (if_pos hrc)
      · exact .inr (if_neg hrc)
    · exact .inr ⟨fun heq => h.fresh_entry hr.1 (heq ▸ hr'), hr'⟩
  · intro hadded
    have hrc : env.rc = 0 := by
      by_contra hrc
      rw [if_neg hrc] at hadded
      cases hadded
    rw [env.look_self, if_neg fun hh => hh.1 hrc, if_pos (halloc.resolve_right (not_not.2 hrc))]

lemma Inv.add_breaks {s t : LresSys} (h : s.Inv) (hr : s.phase r = .fresh ∧ s.held r = true)
    (halloc : env.setAlloc = false) (hrc : env.rc = 0) (hadd : s.exec (.add r env) = some t) :
    ¬ t.Effective := by
  rw [exec_add h hr env] at hadd
  cases hadd
  intro heff
  have hadded : update s.phase r (if env.rc = 0 then .added else .failed) r = .added := by
    rw [update_self, if_pos hrc]
  have hfound := heff.added r hadded
  rw [(h.wf.addLook (h.held r hr.2).2.1 env r).resLook_eq] at hfound
  dsimp only at hfound
  rw [env.look_self, if_neg fun hh => hh.1 hrc, if_neg (Bool.eq_false_iff.1 halloc)] at hfound
  exact h.fresh_entry hr.1 hfound

lemma Inv.del (h : s.Inv) (hr : s.phase r = .added) :
    ∃ t, s.exec (.del r true) = some t ∧ t.Inv := by
  have hheld := h.added_held r hr
  have hlt := (h.held r hheld).2.1
  refine ⟨_, exec_del h hr true, h.setEntry hheld (h.wf.storeLook hlt none true)
    (fun k hk => storeLook_ne hk none true) (fun r' hr' => ?_) (fun hadded => ?_)⟩
  · rw [storeLook_self] at hr'
    cases hr'
  · cases hadded

lemma Inv.del_breaks {s t : LresSys} (h : s.Inv) (hr : s.phase r = .added)
    (hdel : s.exec (.del r false) = some t) : ¬ t.Effective := by
  rw [exec_del h hr false] at hdel
  cases hdel
  intro heff
  refine heff.removed r (update_self _ _ _) ?_
  rw [(h.wf.storeLook (h.held r (h.added_held r hr)).2.1 none false).resLook_eq]
  exact h.found r hr

lemma Inv.release (h : s.Inv) (hr : s.phase r ≠ .added ∧ s.held r = true) (alloc : Bool) :
    ∃ t, s.exec (.release r alloc) = some t ∧ t.Inv := by
  obtain ⟨hge, hlt, -⟩ := h.held r hr.2
  rw [exec, if_pos hr, h.wf.disposeKey_lt hge hlt]
  have hheld : ∀ r', update s.held r false r' = true → r' ≠ r ∧ s.held r' = true := by
    intro r' hr'
    by_cases heq : r' = r
    · rw [heq, update_self] at hr'
      cases hr'
    · rw [update_of_ne heq] at hr'
      exact ⟨heq, hr'⟩
  refine ⟨_, rfl, ?_, fun r' hr' => ?_, fun r1 r2 h1 h2 => ?_,
    fun r' hr' => ?_, h.entry, h.found⟩ <;>
    dsimp only at *
  · cases alloc with
    | false => exact h.wf
    | true => exact h.wf.clear hge
  · obtain ⟨hne, hr'⟩ := hheld r' hr'
    obtain ⟨hge', hlt', htaken⟩ := h.held r' hr'
    refine ⟨hge', hlt', ?_⟩
    split
    · rw [update_of_ne fun heq => hne (h.distinct r' r hr' hr.2 heq)]
      exact htaken
    · exact htaken
  · exact h.distinct r1 r2 (hheld r1 h1).2 (hheld r2 h2).2
  · have hne : r' ≠ r := fun heq => hr.1 (heq ▸ hr')
    rw [update_of_ne hne]
    exact h.added_held r' hr'

/-! ## Histories -/

variable {op : LresOp}

lemma Inv.exec (h : s.Inv) (halloc : s.Allocates op) : ∃ t, s.exec op = some t ∧ t.Inv := by
  cases op with
  | init r alloc =>
    by_cases hr : s.phase r = .unused
    · exact h.init hr alloc
    · exact ⟨s, if_neg hr, h⟩
  | add r =>
    by_cases hr : s.phase r = .fresh ∧ s.held r = true
    · exact h.add hr (halloc hr.1 hr.2)
    · exact ⟨s, if_neg hr, h⟩
  | del r =>
    by_cases hr : s.phase r = .added
    · rw [halloc hr]
      exact h.del hr
    · exact ⟨s, if_neg hr, h⟩
  | release r alloc =>
    by_cases hr : s.phase r ≠ .added ∧ s.held r = true
    · exact h.release hr alloc
    · exact ⟨s, if_neg hr, h⟩

lemma Inv.exec_breaks {s t : LresSys} (h : s.Inv) (halloc : ¬ s.Allocates op)
    (hexec : s.exec op = some t) : ¬ t.Effective := by
  cases op with
  | init => exact absurd trivial halloc
  | add =>
    simp only [Allocates, Classical.not_imp, not_or, not_not, Bool.not_eq_true] at halloc
    obtain ⟨hfresh, hheld, hset, hrc⟩ := halloc
    exact h.add_breaks ⟨hfresh, hheld⟩ hset hrc hexec
  | del =>
    simp only [Allocates, Classical.not_imp, Bool.not_eq_true] at halloc
    obtain ⟨hr, rfl⟩ := halloc
    exact h.del_breaks hr hexec
  | release => exact absurd trivial halloc

variable {cap numReservedKeys : Nat} {alloc : Bool} {vec : Kvec Nat}

lemma inv_start (hinit : kvecInit cap numReservedKeys alloc = .ok vec) : (start vec).Inv := by
  obtain ⟨-, -, hvec⟩ := kvecInit_ok hinit
  refine ⟨kvecInit_wf hinit, fun _ hr => absurd hr Bool.false_ne_true,
    fun _ _ hr => absurd hr Bool.false_ne_true, fun _ hr => ?_, fun key r hk => ?_, fun _ hr => ?_⟩
  · cases hr
  · rw [start, hvec] at hk
    cases hk
  · cases hr

/-- In a history from the initialization on, removed resources are never found and added ones
always, exactly if the copies that the calls need can be allocated. -/
lemma effective_iff (hinit : kvecInit cap numReservedKeys alloc = .ok vec) (ops : List LresOp) :
    Always exec Effective (start vec) ops ↔ Each exec Allocates (start vec) ops :=
  always_iff_each (fun _ h => h.effective) (fun _ _ h halloc => h.exec halloc)
    (fun _ _ _ h halloc hexec => h.exec_breaks halloc hexec) (inv_start hinit) ops

end LresSys

end Ntrdma
