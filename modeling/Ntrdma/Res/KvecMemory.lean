import Mathlib.Algebra.BigOperators.Group.Multiset.Basic
import Ntrdma.Res.Kvec

/-!
# The memory of a vector with key reservation

The allocations of `struct ntrdma_kvec`: each copy of the table is a structure, a bitmap and a
lookup array, and a copy that was replaced is given to `call_rcu` with `remove_rcu_kvec`, which
frees the structure and the lookup array. The bitmap of a replaced table stays allocated
(`kvec_memory_iff`).

A copy is known by its number. The vectors are those of `Ntrdma.Res.Kvec`.
-/

namespace Ntrdma
open Lib

inductive KvecPart where
  | rkvec
  | keys
  | look
  deriving DecidableEq, Repr

/-- The allocation of `ntrdma_kvec_new_copy` that fails. -/
inductive KvecAlloc where
  | ok
  | noRkvec
  | noKeys
  | noLook
  deriving DecidableEq, Repr

abbrev KvecHeap := Multiset (Nat × KvecPart)

def kvecParts (id : Nat) : KvecHeap := (id, .look) ::ₘ (id, .rkvec) ::ₘ (id, .keys) ::ₘ 0

/-- The memory after the allocations of `ntrdma_kvec_new_copy`, which on a failure frees those
before. -/
def kvecAllocate (live : KvecHeap) (id : Nat) : KvecAlloc → KvecHeap
  | .ok => kvecParts id + live
  | .noRkvec => live
  | .noKeys => ((id, .rkvec) ::ₘ live).erase (id, .rkvec)
  | .noLook => (((id, .keys) ::ₘ (id, .rkvec) ::ₘ live).erase (id, .keys)).erase (id, .rkvec)

def removeRcuKvec (live : KvecHeap) (id : Nat) : KvecHeap :=
    (live.erase (id, .look)).erase (id, .rkvec)

/-- A vector with the number of its table, that of the next copy, the tables whose callback has not
run, and the memory. -/
structure KvecMem (α : Type) where
  vec : Kvec α
  rkvec : Nat
  next : Nat
  rcu : List Nat
  live : KvecHeap

/-- The operations, with the allocation that fails, and the callback of a table. -/
inductive KvecMemOp (α : Type) where
  | reserve (alloc : KvecAlloc)
  | set (key : Nat) (value : Option α) (alloc : KvecAlloc)
  | dispose (key : Nat) (alloc : KvecAlloc)
  | callback (id : Nat)

namespace KvecMem
variable {α : Type} (s : KvecMem α)

def newCopy (cap : Nat) (alloc : KvecAlloc) : KvecHeap :=
  if cap = 0 then s.live else if cap ≥ maxKvecCap then s.live else kvecAllocate s.live s.next alloc

/-- C `rcu_assign_pointer(vec->rkvec, new_rkvec)` and `call_rcu(&old_rkvec->rcu,
remove_rcu_kvec)`. -/
def replace (live : KvecHeap) (vec : Kvec α) : KvecMem α :=
    ⟨vec, s.next, s.next + 1, s.rkvec :: s.rcu, live⟩

def change (alloc : KvecAlloc) (changed : Option (Kvec α)) : Option (KvecMem α) :=
  let live := s.newCopy s.vec.cap alloc
  match s.vec.newCopy s.vec.cap (alloc == .ok) with
  | .error _ => some { s with live }
  | .ok _ => changed.map (s.replace live)

def exec : KvecMemOp α → Option (KvecMem α)
  | .reserve alloc =>
    let key := nextZero s.vec.keys s.vec.cap s.vec.nextKey
    let live := s.newCopy (if key ≥ s.vec.cap then key <<< 1 else s.vec.cap) alloc
    match s.vec.reserveKey (alloc == .ok) with
    | (.error _, _) => some { s with live }
    | (.ok _, vec) => some (s.replace live vec)
  | .set key value alloc => s.change alloc (s.vec.setKey key value (alloc == .ok))
  | .dispose key alloc =>
    if key < s.vec.numReservedKeys then some s else s.change alloc
      (s.vec.disposeKey key (alloc == .ok))
  | .callback id =>
    some
      (if id ∈ s.rcu then { s with rcu := s.rcu.erase id, live := removeRcuKvec s.live id } else s)

/-- The memory when all callbacks have run (C `rcu_barrier`). -/
def barrier : KvecHeap := s.rcu.foldl removeRcuKvec s.live

def init (vec : Kvec α) : KvecMem α := ⟨vec, 0, 1, [], kvecParts 0⟩

/-- The operation does not replace the table: an allocation fails, the table cannot grow, or the key
is permanent. -/
def Keeps : KvecMemOp α → Prop
  | .reserve alloc => alloc ≠ .ok ∨
    nextZero s.vec.keys s.vec.cap s.vec.nextKey = s.vec.cap ∧ maxKvecCap ≤ 2 * s.vec.cap
  | .set _ _ alloc => alloc ≠ .ok
  | .dispose key alloc => key < s.vec.numReservedKeys ∨ alloc ≠ .ok
  | .callback _ => True

structure Fresh : Prop where
  wf : s.vec.Wf
  rcu : s.rcu = []
  live : s.live = kvecParts s.rkvec

end KvecMem

section
variable {α : Type} {s t : KvecMem α}

lemma kvecAllocate_failed {alloc : KvecAlloc} (h : alloc ≠ .ok) (live : KvecHeap) (id : Nat) :
    kvecAllocate live id alloc = live := by
  cases alloc with
  | ok => exact absurd rfl h
  | noRkvec => rfl
  | noKeys => exact Multiset.erase_cons_head ..
  | noLook => rw [kvecAllocate, Multiset.erase_cons_head, Multiset.erase_cons_head]

lemma KvecMem.newCopy_failed {cap : Nat} {alloc : KvecAlloc} (h : alloc ≠ .ok ∨ maxKvecCap ≤ cap) :
    s.newCopy cap alloc = s.live := by
  rw [newCopy]
  split
  · rfl
  · split
    · rfl
    next hmax => exact kvecAllocate_failed (h.resolve_right hmax) ..

namespace KvecMem.Fresh

lemma init {cap numReservedKeys : Nat} {vec : Kvec α}
    (h : kvecInit cap numReservedKeys true = .ok vec) : (KvecMem.init vec).Fresh :=
  ⟨kvecInit_wf h, rfl, rfl⟩

lemma barrier (h : s.Fresh) : s.barrier = kvecParts s.rkvec := by
  rw [KvecMem.barrier, h.rcu, h.live]
  rfl

lemma cap_ne_zero (h : s.Fresh) : s.vec.cap ≠ 0 := Nat.ne_of_gt (Nat.zero_lt_of_lt h.wf.next_lt)

lemma failed (h : s.Fresh) {cap : Nat} {alloc : KvecAlloc}
    (halloc : alloc ≠ .ok ∨ maxKvecCap ≤ cap) :
    ({ s with live := s.newCopy cap alloc } : KvecMem α).Fresh := by
  rw [newCopy_failed halloc]
  exact h

lemma replace (h : s.Fresh) {cap : Nat} (hpos : cap ≠ 0) (hmax : ¬ cap ≥ maxKvecCap)
    (vec : Kvec α) :
    (s.replace (s.newCopy cap .ok) vec).barrier ≠ kvecParts
      (s.replace (s.newCopy cap .ok) vec).rkvec := by
  have hfreed : (s.replace (s.newCopy cap .ok) vec).barrier =
      kvecParts s.next + {(s.rkvec, .keys)} := by
    rw [KvecMem.barrier, KvecMem.replace, newCopy, if_neg hpos, if_neg hmax,
      kvecAllocate, h.rcu, h.live]
    dsimp only [List.foldl]
    rw [removeRcuKvec, kvecParts.eq_1 s.rkvec, Multiset.add_cons, Multiset.erase_cons_head,
      Multiset.add_cons, Multiset.erase_cons_head]
    rfl
  rw [hfreed]
  exact fun heq => Multiset.singleton_ne_zero _ (add_eq_left.1 heq)

lemma change (h : s.Fresh) (alloc : KvecAlloc) (changed : Option (Kvec α)) :
    (alloc ≠ .ok → ∃ t, s.change alloc changed = some t ∧ t.Fresh) ∧
      (alloc = .ok → ∀ t, s.change alloc changed = some t → t.barrier ≠ kvecParts t.rkvec) := by
  rw [KvecMem.change]
  obtain ⟨halloc, hcopy⟩ | ⟨halloc, hcopy⟩ := h.wf.newCopy_cases (alloc == .ok) <;> rw [hcopy]
  · exact ⟨fun hne => ⟨_, rfl, h.failed (.inl hne)⟩, fun heq => absurd heq (ne_of_beq_false halloc)⟩
  · refine ⟨fun hne => absurd (eq_of_beq halloc) hne, ?_⟩
    rintro rfl t ht
    obtain ⟨vec, -, rfl⟩ := Option.map_eq_some_iff.1 ht
    exact h.replace h.cap_ne_zero (Nat.not_le.2 h.wf.lt_max) vec

lemma reserve (h : s.Fresh) (alloc : KvecAlloc) :
    (s.Keeps (.reserve alloc) → ∃ t, s.exec (.reserve alloc) = some t ∧ t.Fresh) ∧
      (¬ s.Keeps (.reserve alloc) → ∀ t, s.exec (.reserve alloc) = some t →
        t.barrier ≠ kvecParts t.rkvec) := by
  have hres := h.wf.reserves (alloc == .ok)
  rw [KvecMem.exec, KvecMem.Keeps]
  generalize s.vec.reserveKey (alloc == .ok) = res at hres
  cases hres with
  | failed hfail =>
    have hkeep := hfail.imp_left ne_of_beq_false
    refine ⟨fun _ => ⟨_, rfl, h.failed (hkeep.imp_right fun hfull => ?_)⟩,
      fun hnot => absurd hkeep hnot⟩
    rw [hfull.1, if_pos (Nat.le_refl _), Nat.shiftLeft_eq, Nat.mul_comm]
    exact hfull.2
  | @reserved cap key halloc hkey =>
    have hpos := h.cap_ne_zero
    have hmax := h.wf.lt_max
    cases eq_of_beq halloc
    rw [hkey]
    have hnew : (if key ≥ s.vec.cap then key <<< 1 else s.vec.cap) = cap := by
      rw [Nat.shiftLeft_eq]
      split <;> omega
    rw [hnew]
    refine ⟨fun hkeep => absurd rfl (hkeep.resolve_right fun hfull => by omega), ?_⟩
    rintro - t ht
    cases ht
    exact h.replace (by omega) (by omega) _

lemma step (h : s.Fresh) (op : KvecMemOp α) :
    (s.Keeps op → ∃ t, s.exec op = some t ∧ t.Fresh) ∧
      (¬ s.Keeps op → ∀ t, s.exec op = some t → t.barrier ≠ kvecParts t.rkvec) := by
  cases op with
  | reserve alloc => exact h.reserve alloc
  | set _ _ alloc =>
    rw [KvecMem.Keeps, not_not]
    exact h.change alloc _
  | dispose _ alloc =>
    rw [KvecMem.Keeps, KvecMem.exec]
    split
    next hkey => exact ⟨fun _ => ⟨s, rfl, h⟩, fun hkeep => absurd (.inl hkey) hkeep⟩
    next hkey =>
      rw [or_iff_right hkey, not_not]
      exact h.change alloc _
  | callback =>
    refine ⟨fun _ => ⟨s, ?_, h⟩, fun hkeep => absurd trivial hkeep⟩
    rw [KvecMem.exec, h.rcu]
    rfl

end KvecMem.Fresh

end

/-- The memory is that of the current table throughout exactly if no operation replaces it. -/
theorem kvec_memory_iff {α : Type} {cap numReservedKeys : Nat} {vec : Kvec α}
    (hinit : kvecInit cap numReservedKeys true = .ok vec) (ops : List (KvecMemOp α)) :
    Always KvecMem.exec (fun s => s.barrier = kvecParts s.rkvec) (.init vec) ops ↔
      Each KvecMem.exec KvecMem.Keeps (.init vec) ops :=
  always_iff_each (fun _ h => h.barrier) (fun _ op h => (h.step op).1)
    (fun _ op t h hkeep ht => (h.step op).2 hkeep t ht) (KvecMem.Fresh.init hinit) ops

theorem kvec_memory_iff_noKeys :
    Always KvecMem.exec (fun s => s.barrier = kvecParts s.rkvec) (.init twoKeys)
      [.reserve .noKeys, .dispose 0 .ok] :=
  (kvec_memory_iff (show kvecInit 2 1 true = .ok twoKeys from rfl)
    [.reserve .noKeys, .dispose 0 .ok]).2
    ⟨.inl (by decide), by rintro _ ⟨⟩; exact ⟨.inl (by decide), fun _ _ => trivial⟩⟩

/-- A reservation leaves the bitmap of the table before. -/
theorem kvec_loses_bitmap :
    ((KvecMem.init twoKeys).exec (.reserve .ok)).map (fun s => (s.rkvec, s.barrier)) =
      some (1, kvecParts 1 + {(0, .keys)}) := by
  decide

end Ntrdma
