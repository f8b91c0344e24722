import Ntrdma.Lib.Bitmap
import Ntrdma.Lib.Run
import Ntrdma.Ntc.Dma

/-!
# Vectors with key reservation

Model of `struct ntrdma_kvec` (`ntrdma_util.c`, `ntrdma_util.h`) and of the lookup
`ntrdma_res_look`: a table of resources by key, together with a bitmap of the keys in use and a
cursor at which the search for the next key starts. Every operation works on a copy of the table,
which then replaces it, so that readers see the table before or after it; the table doubles when the
search runs out of keys.

The indices are `u32` in C; they stay below `2 * MAX_KVEC_CAP`, so no operation wraps. The three
allocations of a copy succeed or fail together (`alloc`). A key outside of the memory of the bitmap
or of the table is an access out of bounds: the operation has no result.
-/

namespace Ntrdma
open Function Lib

def maxKvecCap : Nat := 0x800000

def bitsToLongs (bits : Nat) : Nat := (bits + 63) / 64

@[ext] structure Kvec (α : Type) where
  cap : Nat
  numReservedKeys : Nat
  nextKey : Nat
  keys : Nat → Bool
  look : Nat → Option α

section
variable {α : Type}

def kvecInit (cap numReservedKeys : Nat) (alloc : Bool) : Except Errno (Kvec α) :=
  if cap = 0 then .error .einval
  else if cap ≤ numReservedKeys then .error .einval
  else if cap ≥ maxKvecCap then .error .enomem
  else if !alloc then .error .enomem
  else .ok
    { cap
      numReservedKeys
      nextKey := numReservedKeys
      keys := fun i => i < numReservedKeys
      look := fun _ => none }

/-- C `ntrdma_kvec_new_copy`: what the new memory has beyond the copied words and entries is
zero. -/
def Kvec.newCopy (vec : Kvec α) (cap : Nat) (alloc : Bool) : Except Errno (Kvec α) :=
  if cap = 0 then .error .einval
  else if cap ≥ maxKvecCap then .error .enomem
  else if !alloc then .error .enomem
  else .ok
    { vec with
      cap
      keys := fun i => i < 64 * bitsToLongs vec.cap && vec.keys i
      look := fun key => if key < vec.cap then vec.look key else none }

def Kvec.reserveKey (vec : Kvec α) (alloc : Bool) : Except Errno Nat × Kvec α :=
  let key := nextZero vec.keys vec.cap vec.nextKey
  let cap := if key ≥ vec.cap then key <<< 1 else vec.cap
  match vec.newCopy cap alloc with
  | .error e => (.error e, vec)
  | .ok new =>
    (.ok key,
      { new with
        keys := update new.keys key true
        nextKey := if key + 1 = new.cap then new.numReservedKeys else key + 1 })

def Kvec.disposeKey (vec : Kvec α) (key : Nat) (alloc : Bool) : Option (Kvec α) :=
  if key < vec.numReservedKeys then some vec
  else
    match vec.newCopy vec.cap alloc with
    | .error _ => some vec
    | .ok new =>
      if key < 64 * bitsToLongs new.cap then
        some { new with keys := update new.keys key false }
      else none

def Kvec.setKey (vec : Kvec α) (key : Nat) (value : Option α) (alloc : Bool) : Option (Kvec α) :=
  match vec.newCopy vec.cap alloc with
  | .error _ => some vec
  | .ok new => if key < new.cap then some { new with look := update new.look key value } else none

def Kvec.resLook (vec : Kvec α) (key : Nat) : Option α :=
    if key < vec.cap then vec.look key else none

/-! ## What the operations keep -/

/-- The cursor lies in the capacity, the permanent keys are set, and nothing is beyond it. -/
structure Kvec.Wf (vec : Kvec α) : Prop where
  lt_max : vec.cap < maxKvecCap
  reserved_le : vec.numReservedKeys ≤ vec.nextKey
  next_lt : vec.nextKey < vec.cap
  permanent : ∀ i, i < vec.numReservedKeys → vec.keys i = true
  keys_clear : ∀ i, vec.cap ≤ i → vec.keys i = false
  look_none : ∀ key, vec.cap ≤ key → vec.look key = none

variable {cap numReservedKeys : Nat} {alloc : Bool} {vec : Kvec α}

lemma kvecInit_ok (h : kvecInit cap numReservedKeys alloc = .ok vec) :
    numReservedKeys < cap ∧ cap < maxKvecCap ∧
      vec = ⟨cap, numReservedKeys, numReservedKeys, fun i =>
        i < numReservedKeys, fun _ => none⟩ := by
  simp only [kvecInit] at h
  split at h
  · cases h
  split at h
  · cases h
  split at h
  · cases h
  split at h
  · cases h
  cases h
  exact ⟨by omega, by omega, rfl⟩

lemma kvecInit_wf (h : kvecInit cap numReservedKeys alloc = .ok vec) : vec.Wf := by
  obtain ⟨hlt, hmax, rfl⟩ := kvecInit_ok h
  refine ⟨hmax, le_rfl, hlt, fun i hi => decide_eq_true hi, fun i hi => decide_eq_false ?_,
    fun _ _ => rfl⟩
  dsimp only at hi
  omega

section
variable {vec : Kvec α} (h : vec.Wf)

include h

lemma Kvec.Wf.newCopy_eq {cap : Nat} (hcap : vec.cap ≤ cap) (alloc : Bool) :
    vec.newCopy cap alloc =
      if cap ≥ maxKvecCap ∨ alloc = false then .error .enomem else .ok { vec with cap } := by
  have hpos := h.next_lt
  rw [newCopy, if_neg (by omega)]
  by_cases hmax : cap ≥ maxKvecCap
  · rw [if_pos hmax, if_pos (.inl hmax)]
  rw [if_neg hmax]
  cases alloc with
  | false => exact (if_pos (.inr rfl)).symm
  | true =>
    rw [if_neg (by decide), if_neg (by simpa using hmax)]
    congr 2
    · funext i
      rcases Nat.lt_or_ge i vec.cap with hi | hi
      · rw [decide_eq_true (by rw [bitsToLongs]; omega), Bool.true_and]
      · rw [h.keys_clear i hi, Bool.and_false]
    · funext key
      split
      · rfl
      · exact (h.look_none key (by omega)).symm

lemma Kvec.Wf.newCopy_same : vec.newCopy vec.cap true = .ok vec := by
  have hmax := h.lt_max
  rw [h.newCopy_eq le_rfl, if_neg (by simp only [Bool.true_eq_false, or_false]; omega)]

end

/-- A reservation does nothing, or hands out the first free key from the cursor on, in a table that
doubled if that is its end. -/
inductive Kvec.Reserves (vec : Kvec α) (alloc : Bool) : Except Errno Nat × Kvec α → Prop
  | failed : (alloc = false ∨ nextZero vec.keys vec.cap vec.nextKey = vec.cap ∧
    maxKvecCap ≤ 2 * vec.cap) →
    Reserves vec alloc (.error .enomem, vec)
  | reserved {cap key} : alloc = true → nextZero vec.keys vec.cap vec.nextKey = key →
    (key < vec.cap ∧ cap = vec.cap ∨ key = vec.cap ∧ cap = 2 * vec.cap ∧ cap < maxKvecCap) →
    Reserves vec alloc (.ok key,
      { vec with
        cap
        keys := update vec.keys key true
        nextKey := if key + 1 = cap then vec.numReservedKeys else key + 1 })

lemma Kvec.Wf.reserves (h : vec.Wf) (alloc : Bool) : vec.Reserves alloc (vec.reserveKey alloc) := by
  have hle : nextZero vec.keys vec.cap vec.nextKey ≤ vec.cap := nextZero_le
  simp only [reserveKey, Nat.shiftLeft_eq]
  by_cases hgrow : nextZero vec.keys vec.cap vec.nextKey ≥ vec.cap
  · rw [if_pos hgrow, h.newCopy_eq (by omega)]
    by_cases hfail : nextZero vec.keys vec.cap vec.nextKey * 2 ^ 1 ≥ maxKvecCap ∨ alloc = false
    · rw [if_pos hfail]
      exact .failed (hfail.symm.imp_right fun hmax => ⟨by omega, by omega⟩)
    · rw [if_neg hfail]
      rw [not_or, Bool.not_eq_false] at hfail
      exact .reserved hfail.2 rfl (.inr ⟨by omega, by dsimp only; omega, by dsimp only; omega⟩)
  · have hmax := h.lt_max
    rw [if_neg hgrow, h.newCopy_eq le_rfl]
    cases alloc with
    | false =>
      rw [if_pos (.inr rfl)]
      exact .failed (.inl rfl)
    | true =>
      rw [if_neg (by simp only [Bool.true_eq_false, or_false]; omega)]
      exact .reserved rfl rfl (.inl ⟨by omega, rfl⟩)

variable {key : Nat}

lemma Kvec.Wf.key_free (h : vec.Wf) (hkey : nextZero vec.keys vec.cap vec.nextKey = key) :
    vec.numReservedKeys ≤ key ∧ key ≤ vec.cap ∧ vec.keys key = false := by
  have hle : key ≤ vec.cap := hkey ▸ nextZero_le
  have hge : vec.nextKey ≤ key := hkey ▸ le_nextZero h.next_lt.le
  refine ⟨h.reserved_le.trans hge, hle, ?_⟩
  rcases Nat.eq_or_lt_of_le hle with heq | hlt
  · exact h.keys_clear key heq.ge
  · rw [← hkey] at hlt ⊢
    exact nextZero_clear hlt

lemma Kvec.Wf.take (h : vec.Wf) {cap key : Nat} (hkey : nextZero vec.keys vec.cap vec.nextKey = key)
    (hcap : key < vec.cap ∧ cap = vec.cap ∨ key = vec.cap ∧ cap = 2 * vec.cap ∧ cap < maxKvecCap) :
    ({ vec with
        cap
        keys := update vec.keys key true
        nextKey := if key + 1 = cap then vec.numReservedKeys else key + 1 } : Kvec α).Wf := by
  obtain ⟨hres, -, -⟩ := h.key_free hkey
  have hnext := h.next_lt
  have hmax := h.lt_max
  have hle := h.reserved_le
  refine ⟨by dsimp only; omega, ?_, ?_, ?_, ?_, ?_⟩ <;> dsimp only
  · split <;> omega
  · split <;> omega
  · intro i hi
    rw [update_of_ne (by omega)]
    exact h.permanent i hi
  · intro i hi
    rw [update_of_ne (by omega)]
    exact h.keys_clear i (by omega)
  · intro k hk
    exact h.look_none k (by omega)

lemma Kvec.Wf.reserveKey (h : vec.Wf) (alloc : Bool) : (vec.reserveKey alloc).2.Wf := by
  have hres := h.reserves alloc
  generalize vec.reserveKey alloc = res at hres
  cases hres with
  | failed => exact h
  | reserved _ hkey hcap => exact h.take hkey hcap

lemma Kvec.Wf.newCopy_cases (h : vec.Wf) (alloc : Bool) :
    alloc = false ∧ vec.newCopy vec.cap alloc = .error .enomem ∨
      alloc = true ∧ vec.newCopy vec.cap alloc = .ok vec := by
  cases alloc with
  | false => exact .inl ⟨rfl, by rw [h.newCopy_eq le_rfl, if_pos (.inr rfl)]⟩
  | true => exact .inr ⟨rfl, h.newCopy_same⟩

lemma Kvec.Wf.disposeKey_some {vec vec' : Kvec α} (h : vec.Wf)
    (hdispose : vec.disposeKey key alloc = some vec') :
    (key < vec.numReservedKeys ∨ alloc = false) ∧ vec' = vec ∨
      vec.numReservedKeys ≤ key ∧ alloc = true ∧
        vec' = { vec with keys := update vec.keys key false } := by
  rw [Kvec.disposeKey] at hdispose
  split at hdispose
  next hkey => exact .inl ⟨.inl hkey, (Option.some.inj hdispose).symm⟩
  rename_i hkey
  obtain ⟨halloc, hcopy⟩ | ⟨halloc, hcopy⟩ := h.newCopy_cases alloc <;> rw [hcopy] at hdispose
  · exact .inl ⟨.inr halloc, (Option.some.inj hdispose).symm⟩
  · dsimp only at hdispose
    split at hdispose
    · exact .inr ⟨by omega, halloc, (Option.some.inj hdispose).symm⟩
    · cases hdispose

variable {value : Option α}

lemma Kvec.Wf.setKey_some {vec vec' : Kvec α} (h : vec.Wf)
    (hset : vec.setKey key value alloc = some vec') :
    alloc = false ∧ vec' = vec ∨
      key < vec.cap ∧ alloc = true ∧ vec' = { vec with look := update vec.look key value } := by
  rw [Kvec.setKey] at hset
  obtain ⟨halloc, hcopy⟩ | ⟨halloc, hcopy⟩ := h.newCopy_cases alloc <;> rw [hcopy] at hset
  · exact .inl ⟨halloc, (Option.some.inj hset).symm⟩
  · dsimp only at hset
    split at hset
    next hkey => exact .inr ⟨hkey, halloc, (Option.some.inj hset).symm⟩
    · cases hset

lemma Kvec.Wf.disposeKey_eq (h : vec.Wf) (hge : vec.numReservedKeys ≤ key) (hlt : key < vec.cap) :
    vec.disposeKey key true = some { vec with keys := update vec.keys key false } := by
  rw [Kvec.disposeKey, if_neg (by omega), h.newCopy_same]
  exact if_pos (by rw [bitsToLongs]; omega)

lemma Kvec.Wf.setKey_eq (h : vec.Wf) (hlt : key < vec.cap) (value : Option α) :
    vec.setKey key value true = some { vec with look := update vec.look key value } := by
  rw [Kvec.setKey, h.newCopy_same]
  exact if_pos hlt

lemma Kvec.Wf.clear (h : vec.Wf) (hkey : vec.numReservedKeys ≤ key) :
    ({ vec with keys := update vec.keys key false } : Kvec α).Wf := by
  refine ⟨h.lt_max, h.reserved_le, h.next_lt, ?_, ?_, h.look_none⟩ <;> dsimp only
  · intro i hi
    rw [update_of_ne (by omega)]
    exact h.permanent i hi
  · intro i hi
    rw [update_apply]
    split
    · rfl
    · exact h.keys_clear i hi

lemma Kvec.Wf.store (h : vec.Wf) (hkey : key < vec.cap) (value : Option α) :
    ({ vec with look := update vec.look key value } : Kvec α).Wf := by
  refine ⟨h.lt_max, h.reserved_le, h.next_lt, h.permanent, h.keys_clear, ?_⟩
  intro k hk
  dsimp only at hk ⊢
  rw [update_of_ne (by omega)]
  exact h.look_none k hk

lemma Kvec.Wf.disposeKey {vec vec' : Kvec α} (h : vec.Wf)
    (hdispose : vec.disposeKey key alloc = some vec') : vec'.Wf := by
  obtain ⟨-, rfl⟩ | ⟨hkey, -, rfl⟩ := h.disposeKey_some hdispose
  · exact h
  · exact h.clear hkey

lemma Kvec.Wf.setKey {vec vec' : Kvec α} (h : vec.Wf)
    (hset : vec.setKey key value alloc = some vec') : vec'.Wf := by
  obtain ⟨-, rfl⟩ | ⟨hkey, -, rfl⟩ := h.setKey_some hset
  · exact h
  · exact h.store hkey value

lemma Kvec.Wf.disposeKey_cap {vec vec' : Kvec α} (h : vec.Wf)
    (hdispose : vec.disposeKey key alloc = some vec') : vec'.cap = vec.cap := by
  obtain ⟨-, rfl⟩ | ⟨-, -, rfl⟩ := h.disposeKey_some hdispose <;> rfl

lemma Kvec.Wf.setKey_cap {vec vec' : Kvec α} (h : vec.Wf)
    (hset : vec.setKey key value alloc = some vec') : vec'.cap = vec.cap := by
  obtain ⟨-, rfl⟩ | ⟨-, -, rfl⟩ := h.setKey_some hset <;> rfl

lemma Kvec.Wf.resLook_eq (h : vec.Wf) (key : Nat) : vec.resLook key = vec.look key := by
  rw [resLook]
  split
  · rfl
  · exact (h.look_none key (by omega)).symm

/-! ## Histories of a vector -/

/-- A vector and the keys that were handed out and not disposed of since. -/
structure KvecSys (α : Type) where
  vec : Kvec α
  held : Finset Nat

/-- The operations on a vector, whose allocations succeed. -/
inductive KvecOp (α : Type)
  | reserve
  | set (key : Nat) (value : Option α)
  | dispose (key : Nat)

def KvecSys.apply (s : KvecSys α) : KvecOp α → Option (KvecSys α)
  | .reserve =>
    match s.vec.reserveKey true with
    | (.error _, vec) => some { s with vec }
    | (.ok key, vec) => some ⟨vec, insert key s.held⟩
  | .set key value => (s.vec.setKey key value true).map fun vec => { s with vec }
  | .dispose key => (s.vec.disposeKey key true).map fun vec => ⟨vec, s.held.erase key⟩

def KvecSys.Step (s : KvecSys α) (op : KvecOp α) (t : KvecSys α) : Prop := s.apply op = some t

structure KvecSys.Inv (s : KvecSys α) (numReservedKeys : Nat) : Prop where
  wf : s.vec.Wf
  reserved : s.vec.numReservedKeys = numReservedKeys
  held_le : ∀ key ∈ s.held, numReservedKeys ≤ key
  keys_iff : ∀ key, s.vec.keys key = true ↔ key < numReservedKeys ∨ key ∈ s.held

/-- A failed reservation changes nothing, a successful one hands out a key, and the others change
one entry or one bit. -/
inductive KvecSys.Moves (s : KvecSys α) : KvecOp α → KvecSys α → Prop
  | failed : nextZero s.vec.keys s.vec.cap s.vec.nextKey = s.vec.cap → maxKvecCap ≤ 2 * s.vec.cap →
    Moves s .reserve s
  | reserve {cap key : Nat} : nextZero s.vec.keys s.vec.cap s.vec.nextKey = key →
    (key < s.vec.cap ∧ cap = s.vec.cap ∨ key = s.vec.cap ∧ cap = 2 * s.vec.cap ∧ cap < maxKvecCap) →
    Moves s .reserve
      ⟨{ s.vec with
          cap
          keys := update s.vec.keys key true
          nextKey := if key + 1 = cap then s.vec.numReservedKeys else key + 1 },
        insert key s.held⟩
  | set {key : Nat} {value : Option α} : key < s.vec.cap →
    Moves s (.set key value) { s with vec := { s.vec with look := update s.vec.look key value } }
  | permanent {key : Nat} : key < s.vec.numReservedKeys →
    Moves s (.dispose key) ⟨s.vec, s.held.erase key⟩
  | dispose {key : Nat} : s.vec.numReservedKeys ≤ key →
    Moves s (.dispose key)
      ⟨{ s.vec with keys := update s.vec.keys key false }, s.held.erase key⟩

variable {s t : KvecSys α} {op : KvecOp α}

lemma KvecSys.moves_of_step (hwf : s.vec.Wf) (h : s.Step op t) : s.Moves op t := by
  cases op with
  | reserve =>
    have hres := hwf.reserves true
    simp only [Step, apply] at h
    generalize s.vec.reserveKey true = res at hres h
    cases hres with
    | failed hfail =>
      cases h
      obtain hfalse | ⟨hnone, hmax⟩ := hfail
      · cases hfalse
      · exact .failed hnone hmax
    | reserved _ hkey hcap =>
      cases h
      exact .reserve hkey hcap
  | set =>
    obtain ⟨vec, hset, rfl⟩ := Option.map_eq_some_iff.mp h
    obtain ⟨hfalse, -⟩ | ⟨hkey, -, rfl⟩ := hwf.setKey_some hset
    · cases hfalse
    · exact .set hkey
  | dispose =>
    obtain ⟨vec, hdispose, rfl⟩ := Option.map_eq_some_iff.mp h
    obtain ⟨hpermanent | hfalse, rfl⟩ | ⟨hkey, -, rfl⟩ := hwf.disposeKey_some hdispose
    · exact .permanent hpermanent
    · cases hfalse
    · exact .dispose hkey

lemma KvecSys.Inv.step {numReservedKeys : Nat} (h : s.Inv numReservedKeys) (hstep : s.Step op t) :
    t.Inv numReservedKeys := by
  obtain ⟨hwf, hres, hheld, hkeys⟩ := h
  cases moves_of_step hwf hstep with
  | failed => exact ⟨hwf, hres, hheld, hkeys⟩
  | @reserve _ _ hkey hcap =>
    obtain ⟨hge, -, -⟩ := hwf.key_free hkey
    refine ⟨hwf.take hkey hcap, hres, fun k hk => ?_, fun k => ?_⟩
    · rcases Finset.mem_insert.mp hk with rfl | hk
      · omega
      · exact hheld k hk
    · dsimp only
      rw [update_apply, Finset.mem_insert]
      split
      next heq => simp only [heq, true_or, or_true]
      next hne =>
        rw [hkeys k]
        simp only [hne, false_or]
  | set hkey => exact ⟨hwf.store hkey _, hres, hheld, hkeys⟩
  | @permanent key =>
    have hout : key ∉ s.held := fun hin => absurd (hheld key hin) (by omega)
    rw [Finset.erase_eq_of_notMem hout]
    exact ⟨hwf, hres, hheld, hkeys⟩
  | @dispose _ hkey =>
    refine ⟨hwf.clear hkey, hres, fun k hk => hheld k (Finset.mem_of_mem_erase hk), fun k => ?_⟩
    dsimp only
    rw [update_apply, Finset.mem_erase]
    split
    next heq =>
      subst heq
      simp only [Bool.false_eq_true, ne_eq, not_true_eq_false, false_and, or_false, false_iff]
      omega
    next hne =>
      rw [hkeys k]
      simp only [ne_eq, hne, not_false_eq_true, true_and]

lemma KvecSys.inv_of_reaches {s : KvecSys α} (hinit : kvecInit cap numReservedKeys alloc = .ok vec)
    (hrun : Reaches Step ⟨vec, ∅⟩ s) : s.Inv numReservedKeys := by
  refine hrun.invariant (I := fun s => s.Inv numReservedKeys) ?_ fun _ _ _ h hstep => h.step hstep
  obtain ⟨-, -, rfl⟩ := kvecInit_ok hinit
  refine ⟨kvecInit_wf hinit, rfl, fun _ h => absurd h (Finset.notMem_empty _), fun key => ?_⟩
  simp only [decide_eq_true_eq, Finset.notMem_empty, or_false]

lemma KvecSys.Inv.look_step {numReservedKeys : Nat} (h : s.Inv numReservedKeys)
    (hstep : s.Step op t) (key : Nat) :
    t.vec.resLook key = s.vec.resLook key ∨ ∃ value, op = .set key value ∧
      t.vec.resLook key = value := by
  rw [(h.step hstep).wf.resLook_eq, h.wf.resLook_eq]
  cases moves_of_step h.wf hstep with
  | failed => exact .inl rfl
  | reserve => exact .inl rfl
  | @set key' value =>
    by_cases heq : key = key'
    · subst heq
      exact .inr ⟨value, rfl, update_self _ _ _⟩
    · exact .inl (update_of_ne heq _ _)
  | permanent => exact .inl rfl
  | dispose => exact .inl rfl

lemma KvecSys.Inv.look_run {numReservedKeys key : Nat} {ops : List (KvecOp α)}
    (h : s.Inv numReservedKeys) (hrun : ops.foldlM apply s = some t)
    (hset : ∀ value, .set key value ∉ ops) : t.vec.resLook key = s.vec.resLook key := by
  induction ops generalizing s with
  | nil =>
    cases hrun
    rfl
  | cons _ _ ih =>
    rw [List.foldlM_cons] at hrun
    obtain ⟨u, hu, hrest⟩ := Option.bind_eq_some_iff.mp hrun
    rw [ih (h.step hu) hrest fun value hin => hset value (List.mem_cons_of_mem _ hin)]
    obtain hsame | ⟨value, hop, -⟩ := h.look_step hu key
    · exact hsame
    · exact absurd (hop ▸ List.mem_cons_self) (hset value)

/-- A reserved key is not permanent, not held and below the new capacity, and entries are kept
however often the table doubles. -/
theorem kvec_keys_unique {cap numReservedKeys : Nat} {vec : Kvec α} {s : KvecSys α}
    (hinit : kvecInit cap numReservedKeys true = .ok vec) (hrun : Reaches KvecSys.Step ⟨vec, ∅⟩ s) :
    (∀ key vec', s.vec.reserveKey true = (.ok key, vec') →
      numReservedKeys ≤ key ∧ key < vec'.cap ∧ key ∉ s.held ∧ s.vec.keys key = false) ∧
    (∀ i, i < numReservedKeys → s.vec.keys i = true) ∧
    (∀ op t key, s.Step op t →
      t.vec.resLook key = s.vec.resLook key ∨ ∃ value, op = .set key value ∧
        t.vec.resLook key = value) ∧
    (∀ (ops : List (KvecOp α)) t key, ops.foldlM KvecSys.apply s = some t →
      (∀ value, .set key value ∉ ops) →
      t.vec.resLook key = s.vec.resLook key) := by
  have hinv := KvecSys.inv_of_reaches hinit hrun
  refine ⟨fun key vec' hres => ?_, fun i hi => hinv.wf.permanent i (hinv.reserved ▸ hi),
    fun op t key hstep => hinv.look_step hstep key,
      fun ops t key hops hset => hinv.look_run hops hset⟩
  have hreserves := hinv.wf.reserves true
  rw [hres] at hreserves
  cases hreserves with
  | reserved _ hkey =>
    obtain ⟨hge, hle, hclear⟩ := hinv.wf.key_free hkey
    have hnext := hinv.wf.next_lt
    refine ⟨hinv.reserved ▸ hge, by dsimp only; omega, fun hheld => ?_, hclear⟩
    rw [(hinv.keys_iff key).2 (.inr hheld)] at hclear
    cases hclear

end

def twoKeys : Kvec Nat := ⟨2, 1, 1, fun i => i < 1, fun _ => none⟩

/-- After one key is reserved and set, the next reservation doubles the table, and the first entry
is still found. -/
theorem twoKeys_grow : kvecInit 2 1 true = .ok twoKeys ∧
    ∃ s : KvecSys Nat, Reaches KvecSys.Step ⟨twoKeys, ∅⟩ s ∧ s.vec.resLook 1 = some 7 ∧
      (∃ vec', s.vec.reserveKey true = (.ok 2, vec') ∧ vec'.cap = 4) ∧ 2 ∉ s.held ∧
      (∀ t, s.Step .reserve t → t.vec.resLook 1 = s.vec.resLook 1) := by
  refine ⟨rfl, _, Reaches.of_foldlM (l := [.reserve, .set 1 (some 7)]) rfl, rfl, ⟨_, rfl, rfl⟩, ?_⟩
  have h := @kvec_keys_unique Nat 2 1 twoKeys _ rfl
    (Reaches.of_foldlM (l := [.reserve, .set 1 (some 7)]) rfl)
  refine ⟨(h.1 2 _ rfl).2.2.1, fun t hstep => ?_⟩
  obtain hsame | ⟨_, hop, -⟩ := h.2.2.1 .reserve t 1 hstep
  · exact hsame
  · cases hop

end Ntrdma
