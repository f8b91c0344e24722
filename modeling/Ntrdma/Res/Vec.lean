import Ntrdma.Ntc.Dma

/-!
# Vectors of remote resources

Model of `struct ntrdma_vec` (`ntrdma_util.c`, `ntrdma_util.h`), the table of the resources of the
peer by the keys that the peer chose, and of the lookup `ntrdma_rres_look`. A store works on a copy
of the table, which is made larger if the key lies beyond it.

An array is a list, and the functions that go beyond the end of one have no result. The two
allocations of a copy succeed or fail together (`alloc`). The capacity of a copy is computed in 32
bits, by `roundup_pow_of_two(key + 1)`: the key with all bits set wraps to a table of one entry,
into which the old table is copied as a whole (`vecSet_handles_iff`).
-/

namespace Ntrdma

/-! ## Arrays -/

section
variable {β : Type}

/-- The first `n` entries of `src` are copied over those of `dst`. -/
def memcpy (dst src : List β) (n : Nat) : Option (List β) :=
  if n ≤ dst.length ∧ n ≤ src.length then some (src.take n ++ dst.drop n) else none

def storeAt (dst : List β) (i : Nat) (x : β) : Option (List β) :=
  if i < dst.length then some (dst.set i x) else none

end

/-! ## The table -/

def maxVecCap : UInt32 := 0x800000

def flsLong (n : UInt64) : Nat := if n = 0 then 0 else n.toNat.log2 + 1

/-- C `roundup_pow_of_two` of an `unsigned long`. The hardware takes the count of a shift modulo
64. -/
def roundupPowOfTwo (n : UInt64) : UInt64 := 1 <<< UInt64.ofNat (flsLong (n - 1))

structure Vec (α : Type) where
  cap : UInt32
  look : List (Option α)

section
variable {α : Type}

def vecInit (cap : UInt32) (alloc : Bool) : Except Errno (Vec α) :=
  if cap = 0 then .error .einval
  else if cap ≥ maxVecCap then .error .enomem
  else if !alloc then .error .enomem
  else .ok ⟨cap, List.replicate cap.toNat none⟩

def Vec.copyAssign (vec : Vec α) (cap key : UInt32) (val : Option α) (alloc : Bool) :
    Option (Except Errno Unit × Vec α) :=
  if cap = 0 then some (.error .einval, vec)
  else if cap ≥ maxVecCap then some (.error .enomem, vec)
  else if !alloc then some (.error .enomem, vec)
  else
    match memcpy (List.replicate cap.toNat none) vec.look vec.cap.toNat with
    | none => none
    | some look =>
      match storeAt look key.toNat val with
      | none => none
      | some look => some (.ok (), ⟨cap, look⟩)

def Vec.set (vec : Vec α) (key : UInt32) (value : Option α) (alloc : Bool) :
    Option (Except Errno Unit × Vec α) :=
  let newCap := if key ≥ vec.cap then (roundupPowOfTwo (key + 1).toUInt64).toUInt32 else vec.cap
  vec.copyAssign newCap key value alloc

def Vec.rresLook (vec : Vec α) (key : UInt32) : Option α :=
  if key < vec.cap then vec.look.getD key.toNat none else none

def Vec.Wf (vec : Vec α) : Prop := vec.look.length = vec.cap.toNat

/-! ## The capacity of a copy -/

lemma lt_two_pow_flsLong (n : UInt64) : n.toNat < 2 ^ flsLong n := by
  rw [flsLong]
  split
  next h =>
    rw [h]
    decide
  · exact Nat.lt_log2_self

lemma flsLong_le {n : UInt64} {k : Nat} (h : n.toNat < 2 ^ k) : flsLong n ≤ k := by
  rw [flsLong]
  split
  · exact Nat.zero_le k
  next hne =>
    have hpos : n.toNat ≠ 0 := fun h0 => hne (UInt64.toNat_inj.1 h0)
    exact (Nat.log2_lt hpos).2 h

variable {key : UInt32}

lemma roundup_key (h : key ≠ 0xFFFFFFFF) : (roundupPowOfTwo (key + 1).toUInt64).toUInt32 = 0 ∨
      key < (roundupPowOfTwo (key + 1).toUInt64).toUInt32 := by
  have hlt := key.toNat_lt
  have hmax : key.toNat ≠ 0xFFFFFFFF := fun heq => h (UInt32.toNat_inj.1 heq)
  have hsucc : (key + 1).toUInt64 - 1 = key.toUInt64 := by
    rw [← UInt64.toNat_inj, UInt64.toNat_sub, UInt32.toNat_toUInt64,
      UInt32.toNat_toUInt64, UInt32.toNat_add]
    simp only [UInt32.toNat_one, UInt64.toNat_one]
    omega
  have hfls : flsLong key.toUInt64 ≤ 32 := flsLong_le (by rw [UInt32.toNat_toUInt64]; omega)
  have hgt := lt_two_pow_flsLong key.toUInt64
  rw [UInt32.toNat_toUInt64] at hgt
  rw [roundupPowOfTwo, hsucc]
  generalize flsLong key.toUInt64 = bits at hfls hgt
  have hcap : (1 <<< UInt64.ofNat bits : UInt64).toUInt32.toNat = 2 ^ bits % 2 ^ 32 := by
    rw [UInt64.toNat_toUInt32, UInt64.toNat_shiftLeft, UInt64.toNat_ofNat', UInt64.toNat_one,
      Nat.mod_eq_of_lt (show bits < 2 ^ 64 by omega), Nat.mod_eq_of_lt (show bits < 64 by omega),
      Nat.shiftLeft_eq, Nat.one_mul, Nat.mod_mod_of_dvd _ (by decide)]
  rcases Nat.eq_or_lt_of_le hfls with rfl | hbits
  · exact .inl (UInt32.toNat_inj.1 hcap)
  · right
    rw [UInt32.lt_iff_toNat_lt, hcap, Nat.mod_eq_of_lt (Nat.pow_lt_pow_right (by decide) hbits)]
    exact hgt

lemma roundup_ones :
    (roundupPowOfTwo ((0xFFFFFFFF : UInt32) + 1).toUInt64).toUInt32 = 1 := by decide

/-! ## What a store does -/

variable {vec : Vec α}

lemma Vec.Wf.rresLook_eq (h : vec.Wf) (key : UInt32) :
    vec.rresLook key = vec.look.getD key.toNat none := by
  rw [rresLook]
  split
  · rfl
  next hge =>
    rw [UInt32.lt_iff_toNat_lt, ← h] at hge
    rw [List.getD_eq_getElem?_getD, List.getElem?_eq_none (by omega), Option.getD_none]

variable {cap : UInt32} {alloc : Bool}

lemma vecInit_ok (h : vecInit cap alloc = .ok vec) :
    vec.Wf ∧ vec.cap = cap ∧ cap < maxVecCap ∧ ∀ key, vec.rresLook key = none := by
  simp only [vecInit] at h
  split at h
  · cases h
  split at h
  · cases h
  split at h
  · cases h
  rename_i hmax _
  cases h
  have hwf : (⟨cap, List.replicate cap.toNat none⟩ : Vec α).Wf := List.length_replicate
  refine ⟨hwf, rfl, UInt32.not_le.1 hmax, fun key => ?_⟩
  rw [hwf.rresLook_eq, List.getD_eq_getElem?_getD, List.getElem?_replicate]
  split <;> rfl

lemma getD_append_replicate (l : List (Option α)) (n i : Nat) :
    (l ++ List.replicate n none).getD i none = l.getD i none := by
  simp only [List.getD_eq_getElem?_getD]
  rcases Nat.lt_or_ge i l.length with hlt | hge
  · rw [List.getElem?_append_left hlt]
  · rw [List.getElem?_append_right hge, List.getElem?_eq_none hge, List.getElem?_replicate]
    split <;> rfl

lemma Vec.Wf.copyAssign_fits (h : vec.Wf) {cap key : UInt32} (hcap : vec.cap ≤ cap)
    (hkey : key < cap) (hmax : cap < maxVecCap) (val : Option α) :
    ∃ vec', vec.copyAssign cap key val true = some (.ok (), vec') ∧ vec'.cap = cap ∧ vec'.Wf ∧
      ∀ k, vec'.rresLook k = if k = key then val else vec.rresLook k := by
  have hpos : cap ≠ 0 := fun h0 => absurd (h0 ▸ hkey) (UInt32.not_lt.2 (UInt32.zero_le))
  rw [UInt32.le_iff_toNat_le] at hcap
  rw [UInt32.lt_iff_toNat_lt] at hkey
  have hlen : vec.look.length = vec.cap.toNat := h
  have hcopy : memcpy (List.replicate cap.toNat none) vec.look vec.cap.toNat =
      some (vec.look ++ List.replicate (cap.toNat - vec.cap.toNat) none) := by
    rw [memcpy, if_pos ⟨by rw [List.length_replicate]; exact hcap, hlen.ge⟩,
      List.take_of_length_le hlen.le,
      List.drop_replicate]
  have hcopied :
      (vec.look ++ List.replicate (cap.toNat - vec.cap.toNat) none).length = cap.toNat := by
    rw [List.length_append, List.length_replicate]
    omega
  generalize hlook : vec.look ++ List.replicate (cap.toNat - vec.cap.toNat)
    none = look at hcopy hcopied
  have hwf : (⟨cap, look.set key.toNat val⟩ : Vec α).Wf := (List.length_set ..).trans hcopied
  refine ⟨_, ?_, rfl, hwf, fun k => ?_⟩
  · rw [copyAssign, if_neg hpos, if_neg (UInt32.not_le.2 hmax), if_neg (by decide), hcopy]
    dsimp only
    rw [storeAt, if_pos (by omega)]
  · rw [hwf.rresLook_eq, h.rresLook_eq, ← getD_append_replicate vec.look
      (cap.toNat - vec.cap.toNat), hlook]
    simp only [List.getD_eq_getElem?_getD]
    by_cases heq : k = key
    · rw [if_pos heq, heq, List.getElem?_set_self (by omega), Option.getD_some]
    · rw [if_neg heq, List.getElem?_set_ne fun hk => heq (UInt32.toNat_inj.1 hk.symm)]

lemma Vec.copyAssign_failed (h : cap = 0 ∨ maxVecCap ≤ cap ∨ alloc = false) (key : UInt32)
    (val : Option α) : ∃ e, vec.copyAssign cap key val alloc = some (.error e, vec) := by
  rw [copyAssign]
  by_cases hzero : cap = 0
  · exact ⟨_, if_pos hzero⟩
  rw [if_neg hzero]
  by_cases hmax : maxVecCap ≤ cap
  · exact ⟨_, if_pos hmax⟩
  rw [if_neg hmax]
  obtain h | h | rfl := h
  · exact absurd h hzero
  · exact absurd h hmax
  · exact ⟨_, if_pos rfl⟩

lemma Vec.copyAssign_ones (vec : Vec α) (val : Option α) :
    vec.copyAssign 1 0xFFFFFFFF val true = none := by
  rw [copyAssign, if_neg (by decide), if_neg (by decide), if_neg (by decide), memcpy]
  split
  · rfl
  next look hcopy =>
    obtain ⟨hle, hlook⟩ := Option.ite_none_right_eq_some.1 hcopy
    cases hlook
    rw [storeAt, if_neg]
    rw [List.length_append, List.length_take, List.length_drop]
    simp only [List.length_replicate, UInt32.toNat_one, UInt32.reduceToNat] at hle ⊢
    omega

/-- A store fails and changes nothing, or stores the entry in a table with room for it, or goes
outside of the new table. -/
inductive Vec.Sets (vec : Vec α) (key : UInt32) (value : Option α) (alloc : Bool) :
    Option (Except Errno Unit × Vec α) → Prop
  | failed {e} : (alloc = false ∨ key ≠ 0xFFFFFFFF ∧ (vec.cap ≤ key ∨ maxVecCap ≤ vec.cap)) →
    Sets vec key value alloc (some (.error e, vec))
  | stored {vec'} : alloc = true → key ≠ 0xFFFFFFFF → vec'.Wf →
    vec.cap ≤ vec'.cap → key < vec'.cap →
    vec'.cap < maxVecCap → (∀ k, vec'.rresLook k = if k = key then value else vec.rresLook k) →
    Sets vec key value alloc (some (.ok (), vec'))
  | outside : alloc = true → key = 0xFFFFFFFF → Sets vec key value alloc none

lemma Vec.Wf.copyAssign_sets (h : vec.Wf) {cap key : UInt32} (hkey : key ≠ 0xFFFFFFFF)
    (hroom : cap = 0 ∨ vec.cap ≤ cap ∧ key < cap) (hcap : vec.cap ≤ key ∨ cap = vec.cap ∧ cap ≠ 0)
    (value : Option α) (alloc : Bool) : vec.Sets key value alloc
      (vec.copyAssign cap key value alloc) := by
  by_cases hfail : cap = 0 ∨ maxVecCap ≤ cap ∨ alloc = false
  · obtain ⟨e, he⟩ := vec.copyAssign_failed hfail key value
    rw [he]
    obtain hge | ⟨rfl, hpos⟩ := hcap
    · exact .failed (.inr ⟨hkey, .inl hge⟩)
    · obtain hzero | hmax | halloc := hfail
      · exact absurd hzero hpos
      · exact .failed (.inr ⟨hkey, .inr hmax⟩)
      · exact .failed (.inl halloc)
  · rw [not_or, not_or, Bool.not_eq_false] at hfail
    obtain ⟨hzero, hmax, rfl⟩ := hfail
    obtain hzero' | ⟨hle, hlt⟩ := hroom
    · exact absurd hzero' hzero
    obtain ⟨vec', hset, rfl, hwf, hlook⟩ := h.copyAssign_fits hle hlt (UInt32.not_le.1 hmax) value
    rw [hset]
    exact .stored rfl hkey hwf hle hlt (UInt32.not_le.1 hmax) hlook

lemma Vec.Wf.sets (h : vec.Wf) (key : UInt32) (value : Option α) (alloc : Bool) :
    vec.Sets key value alloc (vec.set key value alloc) := by
  have hones : (0xFFFFFFFF : UInt32) ≥ vec.cap :=
    UInt32.le_iff_toNat_le.2 (Nat.le_of_lt_succ vec.cap.toNat_lt)
  simp only [set]
  by_cases hkey : key = 0xFFFFFFFF
  · subst hkey
    rw [if_pos hones, roundup_ones]
    cases alloc with
    | false =>
      obtain ⟨e, he⟩ := vec.copyAssign_failed (.inr (.inr rfl)) 0xFFFFFFFF value
      rw [he]
      exact .failed (.inl rfl)
    | true =>
      rw [vec.copyAssign_ones]
      exact .outside rfl rfl
  split
  next hge =>
    refine h.copyAssign_sets hkey ((roundup_key hkey).imp_right fun hlt =>
      ⟨?_, hlt⟩) (.inl hge) value alloc
    exact UInt32.le_of_lt (UInt32.lt_of_le_of_lt hge hlt)
  next hlt =>
    rw [UInt32.not_le] at hlt
    refine h.copyAssign_sets hkey (.inr ⟨UInt32.le_refl _, hlt⟩)
      (.inr ⟨rfl, fun h0 => ?_⟩) value alloc
    exact absurd (h0 ▸ hlt) (UInt32.not_lt.2 (UInt32.zero_le))

lemma Vec.Wf.set_present (h : vec.Wf) (hkey : key < vec.cap) (hmax : vec.cap < maxVecCap)
    (value : Option α) :
    ∃ vec', vec.set key value true = some (.ok (), vec') ∧ vec'.Wf ∧
      vec.cap ≤ vec'.cap ∧ vec'.cap < maxVecCap ∧
      ∀ k, vec'.rresLook k = if k = key then value else vec.rresLook k := by
  have hsets := h.sets key value true
  generalize vec.set key value true = res at hsets
  cases hsets with
  | failed hfail =>
    obtain hfalse | ⟨-, hge | hge⟩ := hfail
    · cases hfalse
    · exact absurd hkey (UInt32.not_lt.2 hge)
    · exact absurd hmax (UInt32.not_lt.2 hge)
  | stored _ _ hwf hle _ hmax' hlook => exact ⟨_, rfl, hwf, hle, hmax', hlook⟩
  | outside _ hones =>
    subst hones
    exact absurd hkey
      (UInt32.not_lt.2 (UInt32.le_iff_toNat_le.2 (Nat.le_of_lt_succ vec.cap.toNat_lt)))

/-! ## Every key is handled -/

/-- A store stays inside both arrays, and reports an error and leaves the table, or has the entry
and all others as they were. -/
def Vec.Handles (vec : Vec α) (key : UInt32) (value : Option α) (alloc : Bool) : Prop :=
  ∃ rc vec', vec.set key value alloc = some (rc, vec') ∧
    ((∃ e, rc = .error e) ∧ vec' = vec ∨
      rc = .ok () ∧ vec'.Wf ∧ key < vec'.cap ∧ vec'.rresLook key = value ∧
        ∀ k, k ≠ key → vec'.rresLook k = vec.rresLook k)

/-- A store is handled exactly if the key has not all bits set, or no copy is allocated. -/
theorem vecSet_handles_iff {vec : Vec α} (h : vec.Wf) (key : UInt32) (value : Option α)
    (alloc : Bool) : vec.Handles key value alloc ↔ key ≠ 0xFFFFFFFF ∨ alloc = false := by
  have hsets := h.sets key value alloc
  rw [Vec.Handles]
  generalize vec.set key value alloc = res at hsets
  cases hsets with
  | @failed e hfail =>
    exact iff_of_true ⟨_, _, rfl, .inl ⟨⟨e, rfl⟩, rfl⟩⟩ (hfail.symm.imp_left And.left)
  | stored _ hkey hwf _ hlt _ hlook =>
    refine iff_of_true ⟨_, _, rfl, .inr ⟨rfl, hwf, hlt, ?_, fun k hk => ?_⟩⟩ (.inl hkey)
    · rw [hlook, if_pos rfl]
    · rw [hlook, if_neg hk]
  | outside halloc hkey =>
    refine iff_of_false ?_ ?_
    · rintro ⟨_, _, hres, -⟩
      cases hres
    · rintro (hne | hfalse)
      · exact hne hkey
      · exact Bool.false_ne_true (hfalse.symm.trans halloc)

end

/-- A key in the table is stored, one behind it makes the table larger, and one that is far behind
it is refused. -/
theorem vecSet_handles_keys :
    ∃ vec : Vec Nat, vecInit 512 true = .ok vec ∧ vec.Handles 511 (some 1) true ∧
      vec.Handles 512 (some 1) true ∧ vec.Handles 0xFFFFFFFE (some 1) true := by
  obtain ⟨vec, hvec⟩ : ∃ vec : Vec Nat, vecInit 512 true = .ok vec := ⟨_, rfl⟩
  have hwf := (vecInit_ok hvec).1
  exact ⟨vec, hvec, (vecSet_handles_iff hwf 511 (some 1) true).2 (.inl (by decide)),
    (vecSet_handles_iff hwf 512 (some 1) true).2 (.inl (by decide)),
    (vecSet_handles_iff hwf 0xFFFFFFFE (some 1) true).2 (.inl (by decide))⟩

/-- With the key that has all bits set, the 512 entries are copied into an array of one. -/
theorem vecSet_outside :
    ∃ vec : Vec Nat, vecInit 512 true = .ok vec ∧ vec.Wf ∧ vec.set 0xFFFFFFFF (some 1) true = none ∧
      ¬ vec.Handles 0xFFFFFFFF (some 1) true := by
  obtain ⟨vec, hvec⟩ : ∃ vec : Vec Nat, vecInit 512 true = .ok vec := ⟨_, rfl⟩
  obtain ⟨hwf, hcap, -⟩ := vecInit_ok hvec
  have hset : vec.set 0xFFFFFFFF (some 1) true = none := by
    rw [Vec.set, hcap, if_pos (by decide), roundup_ones, Vec.copyAssign_ones]
  refine ⟨vec, hvec, hwf, hset, ?_⟩
  rintro ⟨_, _, hres, -⟩
  rw [hset] at hres
  cases hres

end Ntrdma
