import Ntrdma.Lib.RefTrace
import Ntrdma.Lib.Run
import Ntrdma.Recv.Frame

/-!
# The shadows of posted receives

Who frees the shadow and the exported buffer of a receive entry: model of the allocations in
`ntrdma_ib_recv_to_wqe` and of `ntrdma_recv_wqe_cleanup`, with the pointers `rcv_sg_list[i].shadow`
as they stay behind in a slot of the receive ring. A shadow is known by the number of its
allocation, and a log says what was allocated and freed.

Clean-up frees the entries below `sg_count`. A post that fails sets `sg_count` to the entry it
failed at, so that a shadow whose exported buffer could not be allocated is not freed, neither then
nor later (`shadows_freed_iff`). Contents of shadows and slots are in `Ntrdma.Recv.Post` and
`Ntrdma.Recv.Sync`; `ibRecvToSlot_sim` and `SlotMem.cleanup_sim` connect the two.
-/

namespace Ntrdma
open Function Lib

inductive ShadowRes where
  | shadow (id : Nat)
  | buf (id : Nat)
  deriving DecidableEq, Repr

/-- The pointers to shadows in a slot of the receive ring: C `wqe->sg_count` and
`wqe->rcv_sg_list[i].shadow`. -/
structure ShadowSlot where
  sgCount : Nat
  shadow : Nat → Option Nat

structure SlotMem where
  slot : ShadowSlot
  next : Nat
  log : List (RefEvent ShadowRes)

/-! ## The functions -/

def ShadowSlot.first (slot : ShadowSlot) (n : Nat) : List Nat :=
    (List.range n).filterMap slot.shadow

def ShadowSlot.owned (slot : ShadowSlot) : List Nat := slot.first slot.sgCount

def ShadowSlot.Clear (slot : ShadowSlot) : Prop := ∀ i, slot.shadow i = none

namespace SlotMem

def setCount (m : SlotMem) (n : Nat) : SlotMem := { m with slot := { m.slot with sgCount := n } }

def setShadow (m : SlotMem) (i : Nat) (shadow : Option Nat) : SlotMem :=
  { m with slot := { m.slot with shadow := update m.slot.shadow i shadow } }

/-- The allocation of a shadow for an entry (C `ntrdma_zalloc_sge_shadow`). -/
def newShadow (m : SlotMem) (i : Nat) : SlotMem :=
  { m.setShadow i (some m.next) with next := m.next + 1, log := m.log ++ [.get (.shadow m.next)] }

/-- The allocation of a shadow and of its buffer (C `ntc_export_buf_alloc`). -/
def newShadowBuf (m : SlotMem) (i : Nat) : SlotMem :=
  { m.setShadow i (some m.next) with
    next := m.next + 1
    log := m.log ++ [.get (.shadow m.next), .get (.buf m.next)] }

def cleanup (m : SlotMem) : SlotMem where
  slot := ⟨0, fun i => if i < m.slot.sgCount then none else m.slot.shadow i⟩
  next := m.next
  log := m.log ++ m.slot.owned.flatMap fun id => [.put (.buf id), .put (.shadow id)]

/-- The exit `err` of `ntrdma_ib_recv_to_wqe` at an entry. -/
def fail (m : SlotMem) (i : Nat) (e : Errno) : Except Errno Unit × SlotMem :=
  (.error e, (m.setCount i).cleanup)

end SlotMem

/-- The loop in `ntrdma_ib_recv_to_wqe`, from an entry on. -/
def recvToSlotLoop (dev : Dev) :
    Nat → (Nat → ShadowAlloc) → List IbSge → SlotMem → Except Errno Unit × SlotMem
  | _, _, [], m => (.ok (), m)
  | i, alloc, sge :: rest, m =>
    if rcvDirect dev sge then recvToSlotLoop dev (i + 1)
      (fun j => alloc (j + 1)) rest (m.setShadow i none)
    else
      match alloc 0 with
      | .noShadow => (m.setShadow i none).fail i .enomem
      | .noBuf e => (m.newShadow i).fail i e
      | .ok _ _ => recvToSlotLoop dev (i + 1) (fun j => alloc (j + 1)) rest (m.newShadowBuf i)

/-- C `ntrdma_ib_recv_to_wqe`, as to the shadows. -/
def ibRecvToSlot (dev : Dev) (sgCap : UInt32) (alloc : Nat → ShadowAlloc) (m : SlotMem)
    (wr : RecvWr) : Except Errno Unit × SlotMem :=
  if sgCap.toNat < wr.sgList.length then (.error .einval, m)
  else recvToSlotLoop dev 0 alloc wr.sgList (m.setCount wr.sgList.length)

def failsAtBuf (dev : Dev) : (Nat → ShadowAlloc) → List IbSge → Bool
  | _, [] => false
  | alloc, sge :: rest =>
    if rcvDirect dev sge then failsAtBuf dev (fun j => alloc (j + 1)) rest
    else
      match alloc 0 with
      | .noShadow => false
      | .noBuf _ => true
      | .ok _ _ => failsAtBuf dev (fun j => alloc (j + 1)) rest

/-! ## What is held -/

def heldOf (ids : List Nat) : Multiset ShadowRes :=
    (ids.flatMap fun id => [.buf id, .shadow id] : List ShadowRes)

lemma heldOf_cons (id : Nat) (ids : List Nat) :
    heldOf (id :: ids) = .buf id ::ₘ .shadow id ::ₘ heldOf ids := rfl

lemma heldOf_append (ids ids' : List Nat) : heldOf (ids ++ ids') = heldOf ids + heldOf ids' := by
  rw [heldOf, List.flatMap_append, ← Multiset.coe_add]
  rfl

lemma heldOf_eq_zero {ids : List Nat} : heldOf ids = 0 ↔ ids = [] := by
  cases ids with
  | nil => exact ⟨fun _ => rfl, fun _ => rfl⟩
  | cons =>
    rw [heldOf_cons]
    exact ⟨fun h => absurd h Multiset.cons_ne_zero, nofun⟩

def anyRes (_ : ShadowRes) : Prop := True

lemma cleanup_replay (ids : List Nat) (others : Multiset ShadowRes) :
    Replay anyRes (heldOf ids + others)
      (ids.flatMap fun id => [.put (.buf id), .put (.shadow id)]) others := by
  induction ids with
  | nil =>
    rw [show heldOf [] = 0 from rfl, Multiset.zero_add]
    exact .nil
  | cons _ _ ih =>
    rw [heldOf_cons, Multiset.cons_add, Multiset.cons_add]
    exact .put (.put ih)

namespace ShadowSlot
variable (slot : ShadowSlot)

lemma first_succ (n : Nat) : slot.first (n + 1) = slot.first n ++ (slot.shadow n).toList := by
  rw [first, List.range_succ, List.filterMap_append]
  cases h : slot.shadow n with
  | none => rw [List.filterMap_cons_none h]; rfl
  | some => rw [List.filterMap_cons_some h]; rfl

lemma first_congr {slot slot' : ShadowSlot} {n : Nat}
    (h : ∀ i < n, slot'.shadow i = slot.shadow i) : slot'.first n = slot.first n := by
  exact List.filterMap_congr fun i hi => h i (List.mem_range.1 hi)

end ShadowSlot

namespace SlotMem
variable {m : SlotMem} {i : Nat}

lemma setShadow_first (m : SlotMem) (i : Nat) (shadow : Option Nat) :
    (m.setShadow i shadow).slot.first i = m.slot.first i :=
  ShadowSlot.first_congr fun _ hj => update_of_ne (Nat.ne_of_lt hj) ..

lemma owned_of_count (h : m.slot.sgCount = 0) : heldOf m.slot.owned = 0 := by
  rw [ShadowSlot.owned, h]
  rfl

lemma setShadow_above (h : ∀ j, i ≤ j → m.slot.shadow j = none) (shadow : Option Nat) (j : Nat)
    (hj : i + 1 ≤ j) : (m.setShadow i shadow).slot.shadow j = none := by
  rw [← h j (by omega)]
  exact update_of_ne (Nat.ne_of_gt hj) ..

lemma setShadow_first_succ (m : SlotMem) (i : Nat) (shadow : Option Nat) :
    (m.setShadow i shadow).slot.first (i + 1) = m.slot.first i ++ shadow.toList := by
  rw [ShadowSlot.first_succ, setShadow_first, setShadow]
  dsimp only
  rw [update_self]

end SlotMem

/-! ## Numbers of allocations -/

/-- Numbers from `next` on were not given out, and nothing was allocated twice. -/
structure Fresh (next : Nat) (log : List (RefEvent ShadowRes)) : Prop where
  shadow : ∀ id, next ≤ id → .get (.shadow id) ∉ log
  buf : ∀ id, next ≤ id → .get (.buf id) ∉ log
  once : ∀ r, log.count (.get r) ≤ 1

namespace Fresh
variable {next : Nat} {log : List (RefEvent ShadowRes)}

lemma nil (next : Nat) : Fresh next [] := ⟨fun _ _ => nofun, fun _ _ =>
    nofun, fun _ => Nat.zero_le _⟩

lemma mono {next' : Nat} (h : Fresh next log) (hle : next ≤ next') : Fresh next' log :=
  ⟨fun id hid => h.shadow id (Nat.le_trans hle hid), fun id hid =>
    h.buf id (Nat.le_trans hle hid), h.once⟩

lemma get {r : ShadowRes} (h : Fresh next log) (hnew : .get r ∉ log)
    (hr : ∀ id, next ≤ id → r ≠ .shadow id ∧ r ≠ .buf id) : Fresh next (log ++ [.get r]) := by
  have hmem {r' : ShadowRes} (hold : .get r' ∉ log) (hne : r ≠ r') : .get r' ∉ log ++ [.get r] := by
    rintro hmem
    obtain hmem | hmem := List.mem_append.1 hmem
    · exact hold hmem
    · exact hne (RefEvent.get.inj (List.mem_singleton.1 hmem)).symm
  refine ⟨fun id hid => hmem (h.shadow id hid) (hr id hid).1,
    fun id hid => hmem (h.buf id hid) (hr id hid).2, fun r' => ?_⟩
  by_cases heq : r = r'
  · subst heq
    rw [List.count_append, List.count_eq_zero.2 hnew, List.count_singleton_self]
  · have hother : .get r' ∉ [RefEvent.get r] := fun hmem =>
      heq (RefEvent.get.inj (List.mem_singleton.1 hmem)).symm
    rw [List.count_append, List.count_eq_zero.2 hother]
    exact h.once r'

lemma newShadow (h : Fresh next log) : Fresh (next + 1) (log ++ [.get (.shadow next)]) := by
  refine (h.mono (Nat.le_succ next)).get (h.shadow next (Nat.le_refl next)) fun id hid =>
    ⟨fun heq => ?_, nofun⟩
  have := ShadowRes.shadow.inj heq
  omega

lemma newShadowBuf (h : Fresh next log) :
    Fresh (next + 1) (log ++ [.get (.shadow next), .get (.buf next)]) := by
  have hnew : .get (.buf next) ∉ log ++ [.get (.shadow next)] := by
    intro hmem
    obtain hmem | hmem := List.mem_append.1 hmem
    · exact h.buf next (Nat.le_refl next) hmem
    · cases List.mem_singleton.1 hmem
  have hget := h.newShadow.get hnew fun id hid => ⟨nofun, fun heq => by
    have := ShadowRes.buf.inj heq
    omega⟩
  rwa [List.append_assoc] at hget

lemma append {evs : List (RefEvent ShadowRes)} (h : Fresh next log) (hevs : ∀ r, .get r ∉ evs) :
    Fresh next (log ++ evs) := by
  have hmem {r : ShadowRes} (hold : .get r ∉ log) : .get r ∉ log ++ evs := fun hmem =>
    (List.mem_append.1 hmem).elim hold (hevs r)
  refine ⟨fun id hid => hmem (h.shadow id hid), fun id hid => hmem (h.buf id hid), fun r => ?_⟩
  rw [List.count_append, List.count_eq_zero.2 (hevs r)]
  exact h.once r

end Fresh

/-! ## A call -/

/-- The loop ends with the shadows in the slot, with everything freed, or with a shadow that nobody
holds. -/
inductive SlotOutcome (others : Multiset ShadowRes) (count : Nat) (leaks : Bool) :
    Except Errno Unit × SlotMem → Prop where
  | posted {m : SlotMem} : m.slot.sgCount = count → leaks = false →
    Replay anyRes 0 m.log (heldOf m.slot.owned + others) →
      SlotOutcome others count leaks (.ok (), m)
  | freed {m : SlotMem} {e : Errno} : m.slot.sgCount = 0 → leaks = false →
    Replay anyRes 0 m.log others →
    SlotOutcome others count leaks (.error e, m)
  | leaked {m : SlotMem} {e : Errno} (id : Nat) : m.slot.sgCount = 0 → leaks = true →
    Replay anyRes 0 m.log (.shadow id ::ₘ others) → SlotOutcome others count leaks (.error e, m)

section
variable {dev : Dev} {m : SlotMem} {others : Multiset ShadowRes}

lemma SlotMem.cleanup_fresh (h : Fresh m.next m.log) : Fresh m.cleanup.next m.cleanup.log := by
  refine h.append fun r hmem => ?_
  obtain ⟨id, -, hid⟩ := List.mem_flatMap.1 hmem
  cases hid with
  | tail _ hid => cases List.mem_singleton.1 hid

lemma SlotMem.cleanup_held (h : Replay anyRes 0 m.log (heldOf m.slot.owned + others)) :
    Replay anyRes 0 m.cleanup.log others :=
  h.append (cleanup_replay _ others)

lemma recvToSlotLoop_outcome (i : Nat) (alloc : Nat → ShadowAlloc) (sgList : List IbSge)
    (hcount : m.slot.sgCount = i + sgList.length)
    (hheld : Replay anyRes 0 m.log (heldOf (m.slot.first i) + others)) :
    SlotOutcome others (i + sgList.length) (failsAtBuf dev alloc sgList)
      (recvToSlotLoop dev i alloc sgList m) := by
  induction sgList generalizing i alloc m with
  | nil =>
    refine .posted hcount rfl ?_
    rw [ShadowSlot.owned, hcount]
    exact hheld
  | cons sge rest ih =>
    have hlen : i + (sge :: rest).length = i + 1 + rest.length := by
      rw [List.length_cons]
      omega
    rw [recvToSlotLoop, failsAtBuf, hlen]
    split
    · refine ih (i + 1) _ (hcount.trans hlen) ?_
      rw [SlotMem.setShadow_first_succ, Option.toList_none, List.append_nil]
      exact hheld
    · split
      · refine .freed rfl rfl (SlotMem.cleanup_held ?_)
        rw [← SlotMem.setShadow_first m i none] at hheld
        exact hheld
      · refine .leaked m.next rfl rfl (SlotMem.cleanup_held ?_)
        rw [← SlotMem.setShadow_first m i (some m.next)] at hheld
        rw [Multiset.add_cons]
        exact hheld.append (.get trivial .nil)
      · refine ih (i + 1) _ (hcount.trans hlen) ?_
        have hfirst : (m.newShadowBuf i).slot.first (i + 1) = m.slot.first i ++ [m.next] :=
          SlotMem.setShadow_first_succ m i (some m.next)
        have hgot : heldOf (m.slot.first i ++ [m.next]) + others =
            .buf m.next ::ₘ .shadow m.next ::ₘ (heldOf (m.slot.first i) + others) := by
          rw [heldOf_append, heldOf_cons, show heldOf [] = 0 from rfl,
            Multiset.add_cons, Multiset.add_cons,
            Multiset.add_zero, Multiset.cons_add, Multiset.cons_add]
        rw [hfirst, hgot]
        exact hheld.append (.get trivial (.get trivial .nil))

lemma recvToSlotLoop_fresh (dev : Dev) (i : Nat) (alloc : Nat → ShadowAlloc) (sgList : List IbSge)
    (h : Fresh m.next m.log) :
    Fresh (recvToSlotLoop dev i alloc sgList m).2.next
      (recvToSlotLoop dev i alloc sgList m).2.log := by
  induction sgList generalizing i alloc m with
  | nil => exact h
  | cons _ _ ih =>
    rw [recvToSlotLoop]
    split
    · exact ih _ _ h
    · split
      · exact SlotMem.cleanup_fresh h
      · exact SlotMem.cleanup_fresh h.newShadow
      · exact ih _ _ h.newShadowBuf

lemma recvToSlotLoop_clear (i : Nat) (alloc : Nat → ShadowAlloc) (sgList : List IbSge)
    (hclear : ∀ j, i ≤ j → m.slot.shadow j = none) {e : Errno}
    (he : (recvToSlotLoop dev i alloc sgList m).1 = .error e) :
    (recvToSlotLoop dev i alloc sgList m).2.slot.Clear ↔ failsAtBuf dev alloc sgList = false := by
  induction sgList generalizing i alloc m with
  | nil => cases he
  | cons sge _ ih =>
    rw [recvToSlotLoop] at he ⊢
    rw [failsAtBuf]
    by_cases hdirect : rcvDirect dev sge = true
    · rw [if_pos hdirect] at he ⊢
      rw [if_pos hdirect]
      exact ih (i + 1) _ (SlotMem.setShadow_above hclear none) he
    · rw [if_neg hdirect] at he ⊢
      rw [if_neg hdirect]
      cases halloc : alloc 0 with
      | noShadow =>
        refine ⟨fun _ => rfl, fun _ j => ?_⟩
        by_cases hj : j < i
        · exact if_pos hj
        · refine (if_neg hj).trans ?_
          by_cases heq : j = i
          · rw [heq]
            exact update_self ..
          · exact SlotMem.setShadow_above hclear none j (by omega)
      | noBuf e' =>
        refine ⟨fun hall => ?_, nofun⟩
        have hself : ((m.newShadow i).fail i e').2.slot.shadow i = some m.next :=
          (if_neg (Nat.lt_irrefl i)).trans (update_self ..)
        rw [hall i] at hself
        cases hself
      | ok =>
        rw [halloc] at he
        exact ih (i + 1) _ (SlotMem.setShadow_above hclear (some m.next)) he

end

/-! ## The entries of the ring -/

def ShadowSlot.Shows (slot : ShadowSlot) (rcvSgList : List RcvSge) : Prop :=
  slot.sgCount = rcvSgList.length ∧ ∀ i sge, rcvSgList[i]? = some sge →
    ((slot.shadow i).isSome ↔ ∃ shadow desc, sge = .shadow shadow desc)

/-- The loop on the slot has the result of the loop on the list, and a pointer for each shadow of
the list. -/
inductive SlotSim (m : SlotMem) (i : Nat) : Except Errno (List RcvSge) →
    Except Errno Unit × SlotMem → Prop where
  | error {e : Errno} {m' : SlotMem} : m'.slot.sgCount = 0 → SlotSim m i (.error e) (.error e, m')
  | ok {rcvSgList : List RcvSge} {m' : SlotMem} : m'.slot.sgCount = m.slot.sgCount →
    (∀ j < i, m'.slot.shadow j = m.slot.shadow j) →
    (∀ j sge, rcvSgList[j]? = some sge →
      ((m'.slot.shadow (i + j)).isSome ↔ ∃ shadow desc, sge = .shadow shadow desc)) →
    SlotSim m i (.ok rcvSgList) (.ok (), m')

lemma SlotSim.cons {m m1 : SlotMem} {i : Nat} {shadow : Option Nat} {rcvSge : RcvSge}
    {res : Except Errno (List RcvSge)} {r : Except Errno Unit × SlotMem}
    (h : SlotSim m1 (i + 1) res r) (hslot : m1.slot = (m.setShadow i shadow).slot)
    (hsge : shadow.isSome ↔ ∃ shadow desc, rcvSge = .shadow shadow desc) :
    SlotSim m i (res.map (rcvSge :: ·)) r := by
  cases h with
  | error hcount => exact .error hcount
  | ok hcount hbelow hshows =>
    rw [hslot] at hcount hbelow
    refine .ok hcount (fun j hj => ?_) fun j sge hj => ?_
    · rw [hbelow j (by omega)]
      exact update_of_ne (Nat.ne_of_lt hj) ..
    · cases j with
      | zero =>
        cases hj
        rw [Nat.add_zero, hbelow i (by omega)]
        have hself : (m.setShadow i shadow).slot.shadow i = shadow := update_self ..
        rw [hself]
        exact hsge
      | succ j =>
        rw [← Nat.succ_add_eq_add_succ]
        exact hshows j sge hj

lemma ibRecvToSgl_cons (dev : Dev) (alloc : Nat → ShadowAlloc) (sge : IbSge) (rest : List IbSge) :
    ibRecvToSgl dev alloc (sge :: rest) =
      match ibRecvToSge dev (alloc 0) sge with
      | .error e => .error e
      | .ok rcvSge => (ibRecvToSgl dev (fun i => alloc (i + 1)) rest).map (rcvSge :: ·) := by
  rw [ibRecvToSgl]
  cases ibRecvToSge dev (alloc 0) sge with
  | error => rfl
  | ok => cases ibRecvToSgl dev (fun i => alloc (i + 1)) rest <;> rfl

lemma recvToSlotLoop_sim (dev : Dev) (i : Nat) (alloc : Nat → ShadowAlloc) (sgList : List IbSge)
    (m : SlotMem) : SlotSim m i (ibRecvToSgl dev alloc sgList)
      (recvToSlotLoop dev i alloc sgList m) := by
  induction sgList generalizing i alloc m with
  | nil => exact .ok rfl (fun _ _ => rfl) nofun
  | cons sge _ ih =>
    rw [ibRecvToSgl_cons, recvToSlotLoop, ibRecvToSge.eq_def]
    by_cases hdirect : rcvDirect dev sge = true
    · rw [if_pos hdirect, if_pos hdirect]
      exact (ih ..).cons rfl ⟨nofun, nofun⟩
    · rw [if_neg hdirect, if_neg hdirect]
      cases alloc 0 with
      | noShadow => exact .error rfl
      | noBuf => exact .error rfl
      | ok => exact (ih ..).cons rfl ⟨fun _ => ⟨_, _, rfl⟩, fun _ => rfl⟩

lemma ibRecvToSlot_sim (dev : Dev) (sgCap : UInt32) (alloc : Nat → ShadowAlloc) (wr : RecvWr)
    {m : SlotMem} {wqe : RecvWqe} (h : m.slot.Shows wqe.rcvSgList) :
    (ibRecvToSlot dev sgCap alloc m wr).1 = (ibRecvToWqe dev sgCap alloc wqe wr).1 ∧
      (ibRecvToSlot dev sgCap alloc m wr).2.slot.Shows
        (ibRecvToWqe dev sgCap alloc wqe wr).2.rcvSgList := by
  rw [ibRecvToSlot, ibRecvToWqe]
  split
  · exact ⟨rfl, h⟩
  · have hsim := recvToSlotLoop_sim dev 0 alloc wr.sgList (m.setCount wr.sgList.length)
    generalize recvToSlotLoop dev 0 alloc wr.sgList (m.setCount wr.sgList.length) = r at hsim ⊢
    cases hsgl : ibRecvToSgl dev alloc wr.sgList with
    | error =>
      rw [hsgl] at hsim
      cases hsim with
      | error hcount =>
        refine ⟨rfl, hcount, fun i sge hi => ?_⟩
        cases hi
    | ok =>
      rw [hsgl] at hsim
      cases hsim with
      | ok hcount _ hshows =>
        refine ⟨rfl, hcount.trans (ibRecvToSgl_ok hsgl).length_eq, fun i sge hi => ?_⟩
        rw [← hshows i sge hi, Nat.zero_add]

lemma SlotMem.cleanup_sim (m : SlotMem) (wqe : RecvWqe) :
    m.cleanup.slot.Shows (recvWqeCleanup wqe).rcvSgList := ⟨rfl, nofun⟩

/-! ## The receives of a queue pair -/

structure ShadowSys (cap : Nat) where
  slots : Fin cap → ShadowSlot
  next : Nat
  log : List (RefEvent ShadowRes)

/-- A post (C `ntrdma_ib_recv_to_wqe`), or a completion or flush (C `ntrdma_recv_done`,
`ntrdma_recv_fail`). -/
inductive ShadowOp (cap : Nat) where
  | post (pos : Fin cap) (dev : Dev) (sgCap : UInt32) (alloc : Nat → ShadowAlloc) (wr : RecvWr)
  | complete (pos : Fin cap)

namespace ShadowSys
variable {cap : Nat}

def init : ShadowSys cap := ⟨fun _ => ⟨0, fun _ => none⟩, 0, []⟩

def mem (s : ShadowSys cap) (pos : Fin cap) : SlotMem := ⟨s.slots pos, s.next, s.log⟩

def setMem (s : ShadowSys cap) (pos : Fin cap) (m : SlotMem) : ShadowSys cap :=
  ⟨update s.slots pos m.slot, m.next, m.log⟩

def complete (s : ShadowSys cap) (pos : Fin cap) : ShadowSys cap := s.setMem pos (s.mem pos).cleanup

def apply (s : ShadowSys cap) : ShadowOp cap → ShadowSys cap
  | .post pos dev sgCap alloc wr => s.setMem pos (ibRecvToSlot dev sgCap alloc (s.mem pos) wr).2
  | .complete pos => s.complete pos

def exec (s : ShadowSys cap) (op : ShadowOp cap) : Option (ShadowSys cap) := some (s.apply op)

/-- The queue pair is torn down (C `ntrdma_qp_deinit`): the loop over all slots. -/
def teardown (s : ShadowSys cap) : ShadowSys cap := (List.finRange cap).foldl complete s

def held (s : ShadowSys cap) : Multiset ShadowRes := ∑ pos, heldOf (s.slots pos).owned

/-- What is held by the slots and, in `leak`, by nobody. -/
structure Holds (s : ShadowSys cap) (leak : Multiset ShadowRes) : Prop where
  held : Replay anyRes 0 s.log (s.held + leak)
  fresh : Fresh s.next s.log

/-- A post finds its slot without shadows and does not fail at an exported buffer, or is refused for
its length. -/
def Fine (s : ShadowSys cap) : ShadowOp cap → Prop
  | .post pos dev sgCap alloc wr =>
    sgCap.toNat < wr.sgList.length ∨ (s.slots pos).owned = [] ∧
      failsAtBuf dev alloc wr.sgList = false
  | .complete _ => True

def heldElse (s : ShadowSys cap) (pos : Fin cap) : Multiset ShadowRes :=
  ∑ q ∈ Finset.univ.erase pos, heldOf (s.slots q).owned

lemma held_eq (s : ShadowSys cap) (pos : Fin cap) :
    s.held = heldOf (s.slots pos).owned + s.heldElse pos :=
  (Finset.add_sum_erase _ _ (Finset.mem_univ pos)).symm

lemma held_setMem (s : ShadowSys cap) (pos : Fin cap) (m : SlotMem) :
    (s.setMem pos m).held = heldOf m.slot.owned + s.heldElse pos := by
  rw [held_eq _ pos, setMem]
  dsimp only
  rw [update_self, heldElse, heldElse]
  refine congrArg _ (Finset.sum_congr rfl fun q hq => ?_)
  dsimp only
  rw [update_of_ne (Finset.ne_of_mem_erase hq)]

section
variable {s : ShadowSys cap} {leak : Multiset ShadowRes}

lemma init_holds : (init : ShadowSys cap).Holds 0 := by
  refine ⟨?_, .nil 0⟩
  have hheld : (init : ShadowSys cap).held = 0 := Finset.sum_eq_zero fun _ _ => rfl
  rw [hheld]
  exact .nil

lemma Holds.setMem (pos : Fin cap) {m : SlotMem} (hfresh : Fresh m.next m.log)
    (hheld : Replay anyRes 0 m.log (heldOf m.slot.owned + (s.heldElse pos + leak))) :
    (s.setMem pos m).Holds leak := by
  refine ⟨?_, hfresh⟩
  rw [held_setMem, Multiset.add_assoc]
  exact hheld

lemma Holds.mem (h : s.Holds leak) (pos : Fin cap) :
    Replay anyRes 0 (s.mem pos).log (heldOf (s.mem pos).slot.owned + (s.heldElse pos + leak)) := by
  have hheld := h.held
  rw [s.held_eq pos, Multiset.add_assoc] at hheld
  exact hheld

lemma Holds.complete (h : s.Holds leak) (pos : Fin cap) : (s.complete pos).Holds leak := by
  refine Holds.setMem pos (SlotMem.cleanup_fresh h.fresh) ?_
  have hnone : heldOf (s.mem pos).cleanup.slot.owned = 0 := rfl
  rw [hnone, Multiset.zero_add]
  exact SlotMem.cleanup_held (h.mem pos)

lemma Holds.post (h : s.Holds 0) (pos : Fin cap) (dev : Dev) (sgCap : UInt32)
    (alloc : Nat → ShadowAlloc) (wr : RecvWr) :
    ∃ leak, (s.apply (.post pos dev sgCap alloc wr)).Holds leak ∧
      (leak = 0 ↔ s.Fine (.post pos dev sgCap alloc wr)) := by
  have hmem := h.mem pos
  rw [apply, ibRecvToSlot]
  split
  next hlong => exact ⟨0, .setMem pos h.fresh hmem, fun _ => .inl hlong, fun _ => rfl⟩
  next hlong =>
    rw [Multiset.add_zero, Multiset.add_comm] at hmem
    -- No entry is behind the loop yet, and what the slot held is nobody's.
    have hstart : Replay anyRes 0 ((s.mem pos).setCount wr.sgList.length).log
        (heldOf (((s.mem pos).setCount wr.sgList.length).slot.first 0) +
          (s.heldElse pos + heldOf (s.slots pos).owned)) := by
      rw [show heldOf (((s.mem pos).setCount wr.sgList.length).slot.first 0) = 0 from rfl,
        Multiset.zero_add]
      exact hmem
    have hfresh := recvToSlotLoop_fresh dev 0 alloc wr.sgList
      (show Fresh ((s.mem pos).setCount wr.sgList.length).next _ from h.fresh)
    have hout : SlotOutcome _ _ (failsAtBuf dev alloc wr.sgList)
        (recvToSlotLoop dev 0 alloc wr.sgList ((s.mem pos).setCount wr.sgList.length)) :=
      recvToSlotLoop_outcome 0 alloc wr.sgList (Nat.zero_add _).symm hstart
    generalize recvToSlotLoop dev 0 alloc wr.sgList
      ((s.mem pos).setCount wr.sgList.length) = r at hout hfresh ⊢
    have hfine : s.Fine (.post pos dev sgCap alloc wr) ↔
        (s.slots pos).owned = [] ∧ failsAtBuf dev alloc wr.sgList = false := or_iff_right hlong
    rw [hfine]
    cases hout with
    | posted _ hleaks hheld =>
      refine ⟨heldOf (s.slots pos).owned, .setMem pos hfresh hheld, ?_⟩
      rw [heldOf_eq_zero, and_iff_left hleaks]
    | freed hcount hleaks hheld =>
      refine ⟨heldOf (s.slots pos).owned, .setMem pos hfresh ?_, ?_⟩
      · rw [SlotMem.owned_of_count hcount, Multiset.zero_add]
        exact hheld
      · rw [heldOf_eq_zero, and_iff_left hleaks]
    | leaked id hcount hleaks hheld =>
      refine ⟨.shadow id ::ₘ heldOf (s.slots pos).owned, .setMem pos hfresh ?_, ?_⟩
      · rw [SlotMem.owned_of_count hcount, Multiset.zero_add, Multiset.add_cons]
        exact hheld
      · rw [hleaks]
        exact ⟨fun hzero => absurd hzero Multiset.cons_ne_zero, fun hfine =>
          absurd hfine.2 (by decide)⟩

lemma Holds.apply (h : s.Holds 0) (op : ShadowOp cap) :
    ∃ leak, (s.apply op).Holds leak ∧ (leak = 0 ↔ s.Fine op) := by
  cases op with
  | post pos dev sgCap alloc wr => exact h.post pos dev sgCap alloc wr
  | complete pos => exact ⟨0, h.complete pos, fun _ => trivial, fun _ => rfl⟩

/-! ## Teardown -/

lemma complete_owned (s : ShadowSys cap) (pos q : Fin cap) (h : (s.slots q).owned = []) :
    ((s.complete pos).slots q).owned = [] := by
  rw [complete, ShadowSys.setMem]
  dsimp only
  by_cases heq : q = pos
  · rw [heq, update_self]
    rfl
  · rw [update_of_ne heq]
    exact h

lemma foldl_complete (l : List (Fin cap)) (h : s.Holds leak) :
    (l.foldl complete s).Holds leak ∧
      ∀ q, q ∈ l ∨ (s.slots q).owned = [] → ((l.foldl complete s).slots q).owned = [] := by
  induction l generalizing s with
  | nil => exact ⟨h, fun q hq => hq.resolve_left (List.not_mem_nil)⟩
  | cons pos _ ih =>
    obtain ⟨hholds, howned⟩ := ih (h.complete pos)
    refine ⟨hholds, fun q hq => howned q ?_⟩
    by_cases heq : q = pos
    · refine .inr ?_
      rw [heq, complete, ShadowSys.setMem]
      dsimp only
      rw [update_self]
      rfl
    · obtain hq | hq := hq
      · exact .inl ((List.mem_cons.1 hq).resolve_left heq)
      · exact .inr (s.complete_owned pos q hq)

lemma Holds.teardown_iff (h : s.Holds leak) : GivenBackOnce s.teardown.log ↔ leak = 0 := by
  obtain ⟨hholds, howned⟩ : s.teardown.Holds leak ∧ _ := foldl_complete (List.finRange cap) h
  have hheld : s.teardown.held = 0 := Finset.sum_eq_zero fun q _ => by
    rw [show (s.teardown.slots q).owned = [] from howned q (.inl (List.mem_finRange q))]
    rfl
  have hreplay := hholds.held
  rw [hheld, Multiset.zero_add] at hreplay
  exact hreplay.givenBackOnce_iff hholds.fresh.once

end

end ShadowSys

lemma ibRecvToSlot_error {dev : Dev} {sgCap : UInt32} {alloc : Nat → ShadowAlloc} {wr : RecvWr}
    {slot : ShadowSlot} {next : Nat} {e : Errno} (hclear : slot.Clear)
    (he : (ibRecvToSlot dev sgCap alloc ⟨slot, next, []⟩ wr).1 = .error e) :
    GivenBackOnce (ibRecvToSlot dev sgCap alloc ⟨slot, next, []⟩ wr).2.log ∧
        (ibRecvToSlot dev sgCap alloc ⟨slot, next, []⟩ wr).2.slot.Clear ↔
      sgCap.toNat < wr.sgList.length ∨ failsAtBuf dev alloc wr.sgList = false := by
  rw [ibRecvToSlot] at he ⊢
  split at he
  next hlong =>
    rw [if_pos hlong]
    exact ⟨fun _ => .inl hlong, fun _ => ⟨fun r => ⟨Nat.zero_le _, rfl⟩, hclear⟩⟩
  next hlong =>
    rw [if_neg hlong, or_iff_right hlong]
    have hslot := recvToSlotLoop_clear 0 alloc wr.sgList (fun j _ => hclear j) he
    have hfresh := recvToSlotLoop_fresh dev 0 alloc wr.sgList
      (show Fresh (SlotMem.setCount ⟨slot, next, []⟩ wr.sgList.length).next _ from .nil next)
    have hout : SlotOutcome 0 _ (failsAtBuf dev alloc wr.sgList)
        (recvToSlotLoop dev 0 alloc wr.sgList
          (SlotMem.setCount ⟨slot, next, []⟩ wr.sgList.length)) :=
      recvToSlotLoop_outcome 0 alloc wr.sgList (Nat.zero_add _).symm .nil
    generalize recvToSlotLoop dev 0 alloc wr.sgList
      (SlotMem.setCount ⟨slot, next, []⟩ wr.sgList.length) = r at *
    rw [hslot, and_iff_right_iff_imp]
    cases hout with
    | posted => cases he
    | freed _ _ hheld => exact fun _ => (hheld.givenBackOnce_iff hfresh.once).2 rfl
    | leaked _ _ hleaks =>
      rw [hleaks]
      nofun

/-- A call that fails frees everything once, unless it fails at an exported buffer; so does
teardown. -/
theorem shadows_freed_iff (dev : Dev) (sgCap : UInt32) (alloc : Nat → ShadowAlloc) (wr : RecvWr)
    (slot : ShadowSlot) (next : Nat) {cap : Nat} (ops : List (ShadowOp cap)) :
    (∀ e, slot.Clear → (ibRecvToSlot dev sgCap alloc ⟨slot, next, []⟩ wr).1 = .error e →
      (GivenBackOnce (ibRecvToSlot dev sgCap alloc ⟨slot, next, []⟩ wr).2.log ∧
          (ibRecvToSlot dev sgCap alloc ⟨slot, next, []⟩ wr).2.slot.Clear ↔
        (sgCap.toNat < wr.sgList.length ∨ failsAtBuf dev alloc wr.sgList = false))) ∧
      (Always ShadowSys.exec (fun s => GivenBackOnce s.teardown.log) .init ops ↔
        Each ShadowSys.exec ShadowSys.Fine .init ops) := by
  refine ⟨fun e hclear he => ibRecvToSlot_error hclear he, ?_⟩
  refine always_iff_each (I := fun s => s.Holds 0)
    (fun s h => h.teardown_iff.2 rfl) (fun s op h hfine => ?_)
    (fun s op t h hfine ht => ?_) ShadowSys.init_holds ops
  · obtain ⟨leak, hleak, hzero⟩ := h.apply op
    rw [hzero.2 hfine] at hleak
    exact ⟨_, rfl, hleak⟩
  · obtain ⟨leak, hleak, hzero⟩ := h.apply op
    rw [← Option.some.inj ht, hleak.teardown_iff, hzero]
    exact hfine

def twoBufs : RecvWr := ⟨7, [⟨0x1000, 4, reservedDmaLkey⟩, ⟨0x2000, 4, reservedDmaLkey⟩]⟩

/-- Two posts, a completion, a post without memory for its second shadow, one more, and a flush of
both. -/
def shadowRun : List (ShadowOp 2) :=
  let alloc (i : Nat) : ShadowAlloc := .ok (0x40 + i.toUInt64) 0x8000000000000040
  [.post 0 smallDev 2 alloc twoBufs, .post 1 smallDev 2 alloc twoBufs, .complete 0,
    .post 0 smallDev 2 (fun i => if i = 0 then alloc 0 else .noShadow) twoBufs,
      .post 0 smallDev 2 alloc twoBufs,
    .complete 1, .complete 0]

theorem shadows_freed_iff_noShadow :
    (GivenBackOnce (ibRecvToSlot smallDev 2 (fun i =>
      if i = 0 then .ok 0x40 0x8000000000000040 else .noShadow)
          ⟨⟨0, fun _ => none⟩, 0, []⟩ twoBufs).2.log ∧
        (ibRecvToSlot smallDev 2 (fun i => if i = 0 then .ok 0x40 0x8000000000000040 else .noShadow)
          ⟨⟨0, fun _ => none⟩, 0, []⟩ twoBufs).2.slot.Clear) ∧
      Always ShadowSys.exec (fun s => GivenBackOnce s.teardown.log) .init shadowRun := by
  have h := shadows_freed_iff smallDev 2 (fun i =>
    if i = 0 then .ok 0x40 0x8000000000000040 else .noShadow)
    twoBufs ⟨0, fun _ => none⟩ 0 shadowRun
  refine ⟨(h.1 .enomem (fun _ => rfl) (by decide)).2 (.inr (by decide)), h.2.2 ?_⟩
  refine ⟨.inr ⟨by decide, by decide⟩, ?_⟩
  rintro _ ⟨⟩
  refine ⟨.inr ⟨by decide, by decide⟩, ?_⟩
  rintro _ ⟨⟩
  refine ⟨trivial, ?_⟩
  rintro _ ⟨⟩
  refine ⟨.inr ⟨by decide, by decide⟩, ?_⟩
  rintro _ ⟨⟩
  refine ⟨.inr ⟨by decide, by decide⟩, ?_⟩
  rintro _ ⟨⟩
  exact ⟨trivial, fun _ _ => ⟨trivial, fun _ _ => trivial⟩⟩

/-- The exported buffer of the first entry cannot be allocated: its shadow stays, and teardown does
not find it. -/
theorem shadow_leaked :
    (ibRecvToSlot smallDev 2 (fun _ => .noBuf .enomem) ⟨⟨0, fun _ => none⟩, 0, []⟩ twoBufs).1 =
        .error .enomem ∧
      (ibRecvToSlot smallDev 2 (fun _ => .noBuf .enomem)
        ⟨⟨0, fun _ => none⟩, 0, []⟩ twoBufs).2.log =
        [.get (.shadow 0)] ∧
      (ibRecvToSlot smallDev 2 (fun _ => .noBuf .enomem) ⟨⟨0, fun _ => none⟩, 0,
        []⟩ twoBufs).2.slot.shadow 0 =
        some 0 ∧
      ¬ GivenBackOnce
        ((ShadowSys.init : ShadowSys 1).apply
          (.post 0 smallDev 2 (fun _ => .noBuf .enomem) twoBufs)).teardown.log :=
  ⟨by decide, by decide, by decide, fun h => absurd (h (.shadow 0)).2 (by decide)⟩

end Ntrdma
