import Mathlib.Tactic

/-!
# Searching a bitmap

The first clear bit of a bitmap from a position on, as the search loops of allocators find it. A
caller needs three facts: where the result lies, that every bit before it is set, and that the bit
itself is clear unless the search ran out of the bitmap. They determine the result (`nextZero_eq`).
Loops over the set bits of a word clear the lowest one in each round (`getLsbD_and_sub_one`).
-/

namespace Ntrdma.Lib

/-- The first clear bit among `n` bits from `i` on, or the position behind them. -/
def scanZero (bits : Nat → Bool) : Nat → Nat → Nat
  | 0, i => i
  | n + 1, i => if bits i then scanZero bits n (i + 1) else i

/-- The first clear bit below `size` from `start` on, or `size` if there is none. -/
def nextZero (bits : Nat → Bool) (size start : Nat) : Nat :=
  if size ≤ start then size else scanZero bits (size - start) start

section
variable {bits : Nat → Bool} {size start n i : Nat}

lemma scanZero_bounds (bits : Nat → Bool) (n i : Nat) : i ≤ scanZero bits n i ∧
    scanZero bits n i ≤ i + n := by
  induction n generalizing i with
  | zero => exact ⟨le_rfl, le_rfl⟩
  | succ _ ih =>
    rw [scanZero]
    split
    · have := ih (i + 1)
      omega
    · omega

variable {k : Nat}

lemma scanZero_set (hle : i ≤ k) (hlt : k < scanZero bits n i) : bits k = true := by
  induction n generalizing i with
  | zero =>
    rw [scanZero] at hlt
    omega
  | succ _ ih =>
    rw [scanZero] at hlt
    split at hlt
    next hset =>
      rcases Nat.eq_or_lt_of_le hle with rfl | hgt
      · exact hset
      · exact ih hgt hlt
    · omega

lemma scanZero_clear (hlt : scanZero bits n i < i + n) : bits (scanZero bits n i) = false := by
  induction n generalizing i with
  | zero =>
    rw [scanZero] at hlt
    omega
  | succ _ ih =>
    rw [scanZero] at hlt ⊢
    split at hlt
    next hset =>
      rw [if_pos hset]
      exact ih (by omega)
    next hset =>
      rw [if_neg hset]
      exact Bool.not_eq_true _ ▸ hset

lemma nextZero_le : nextZero bits size start ≤ size := by
  rw [nextZero]
  split
  · exact le_rfl
  · have := (scanZero_bounds bits (size - start) start).2
    omega

lemma le_nextZero (h : start ≤ size) : start ≤ nextZero bits size start := by
  rw [nextZero]
  split
  · exact h
  · exact (scanZero_bounds _ _ _).1

lemma nextZero_set (hle : start ≤ k) (hlt : k < nextZero bits size start) : bits k = true := by
  rw [nextZero] at hlt
  split at hlt
  · omega
  · exact scanZero_set hle hlt

lemma nextZero_clear (hlt : nextZero bits size start < size) :
    bits (nextZero bits size start) = false := by
  rw [nextZero] at hlt ⊢
  split at hlt
  · omega
  next h =>
    rw [if_neg h]
    exact scanZero_clear (by omega)

lemma nextZero_eq (hstart : start ≤ k) (hk : k ≤ size)
    (hset : ∀ i, start ≤ i → i < k → bits i = true) (hclear : k = size ∨ bits k = false) :
    nextZero bits size start = k := by
  have hle : start ≤ nextZero bits size start := le_nextZero (hstart.trans hk)
  rcases Nat.lt_trichotomy (nextZero bits size start) k with hlt | heq | hgt
  · have hbit := nextZero_clear (lt_of_lt_of_le hlt hk)
    rw [hset _ hle hlt] at hbit
    cases hbit
  · exact heq
  · have hsize : nextZero bits size start ≤ size := nextZero_le
    have hbit := nextZero_set hstart hgt
    rcases hclear with rfl | hclear
    · omega
    · rw [hclear] at hbit
      cases hbit

lemma nextZero_eq_size_iff (h : start ≤ size) :
    nextZero bits size start = size ↔ ∀ i, start ≤ i → i < size → bits i = true := by
  constructor
  · intro heq i hle hlt
    exact nextZero_set hle (heq ▸ hlt)
  · intro hset
    exact nextZero_eq h le_rfl hset (.inl rfl)

end

/-! ## The lowest set bit -/

lemma ctz_eq_iff {w n : Nat} {x : BitVec w} (hx : x ≠ 0#w) (hlow : ∀ j < n, x.getLsbD j = false) :
    x.ctz.toNat = n ↔ x.getLsbD n = true := by
  have hset := BitVec.getLsbD_true_ctz_of_ne_zero hx
  constructor
  · rintro rfl
    exact hset
  · intro hn
    refine Nat.le_antisymm (Nat.not_lt.1 fun hlt => ?_) (Nat.not_lt.1 fun hlt => ?_)
    · rw [BitVec.getLsbD_false_of_lt_ctz hlt] at hn
      cases hn
    · rw [hlow _ hlt] at hset
      cases hset

/-- The step of a loop over the set bits: `x & (x - 1)` is `x` without its lowest bit. -/
lemma getLsbD_and_sub_one {w : Nat} {x : BitVec w} (h : x ≠ 0#w) (i : Nat) :
    (x &&& (x - 1#w)).getLsbD i = (x.getLsbD i && decide (i ≠ x.ctz.toNat)) := by
  have hset := BitVec.getLsbD_true_ctz_of_ne_zero h
  have hlow (j : Nat) : j < x.ctz.toNat → x.getLsbD j = false := BitVec.getLsbD_false_of_lt_ctz
  generalize x.ctz.toNat = k at hset hlow
  obtain ⟨q, hq⟩ : 2 ^ k ∣ x.toNat := by
    refine Nat.dvd_of_mod_eq_zero (Nat.eq_of_testBit_eq fun j => ?_)
    rw [Nat.testBit_mod_two_pow, Nat.zero_testBit, BitVec.testBit_toNat]
    by_cases hj : j < k
    · rw [hlow j hj, Bool.and_false]
    · rw [decide_eq_false hj, Bool.false_and]
  have hbits (j : Nat) : x.getLsbD (k + j) = q.testBit j := by
    rw [← BitVec.testBit_toNat, hq, Nat.testBit_two_pow_mul, Nat.add_sub_cancel_left,
      decide_eq_true (Nat.le_add_right k j), Bool.true_and]
  obtain ⟨r, rfl⟩ : ∃ r, q = 2 * r + 1 := by
    have hodd := hbits 0
    rw [Nat.add_zero, hset, Nat.testBit_zero] at hodd
    exact ⟨q / 2, by have := of_decide_eq_true hodd.symm; omega⟩
  have hpow := Nat.two_pow_pos k
  have hsub : (x - 1#w).toNat = 2 ^ k * (2 * r) + (2 ^ k - 1) := by
    have hlt := x.isLt
    rw [hq, Nat.mul_add] at hlt
    have hone : (1#w).toNat = 1 := Nat.mod_eq_of_lt (by omega)
    rw [BitVec.toNat_sub_of_le (by rw [BitVec.le_def, hone, hq, Nat.mul_add]; omega),
      hone, hq, Nat.mul_add]
    omega
  rw [BitVec.getLsbD_and, ← BitVec.testBit_toNat (x - 1#w), hsub,
    Nat.testBit_two_pow_mul_add _ (Nat.sub_lt hpow Nat.one_pos)]
  obtain hi | hi := Nat.lt_or_ge i k
  · rw [hlow i hi, Bool.false_and, Bool.false_and]
  · obtain ⟨j, rfl⟩ := Nat.exists_eq_add_of_le hi
    rw [if_neg (Nat.not_lt.2 hi), Nat.add_sub_cancel_left, hbits]
    cases j with
    | zero => simp
    | succ =>
      rw [Nat.testBit_succ, Nat.testBit_succ,
        show (2 * r + 1) / 2 = 2 * r / 2 by omega, Bool.and_self]
      simp

/-- A word whose bits are set from `n` on up to `i` still has those behind `n` when its lowest bit
is cleared, and no other word does. -/
lemma clear_lowest_forall_iff {w n i : Nat} {x : BitVec w} (hx : x ≠ 0#w)
    (hlow : ∀ j < n, x.getLsbD j = false) (hlt : n < i) :
    (∀ j, n + 1 ≤ j → j ≤ i → (x &&& (x - 1#w)).getLsbD j = true) ↔
      ∀ j, n ≤ j → j ≤ i → x.getLsbD j = true := by
  have hbits := getLsbD_and_sub_one hx
  have hctz := ctz_eq_iff hx hlow
  constructor
  · intro hall j hge hle
    obtain rfl | hgt := Nat.eq_or_lt_of_le hge
    · -- the lowest bit is not `n + 1`, which is still set
      have hnext := hall (n + 1) le_rfl hlt
      rw [hbits, Bool.and_eq_true, decide_eq_true_eq] at hnext
      refine hctz.1 (Nat.le_antisymm (Nat.not_lt.1 fun hgt => ?_) (Nat.not_lt.1 fun hlt => ?_))
      · have hfalse := BitVec.getLsbD_false_of_lt_ctz (Nat.lt_of_le_of_ne hgt hnext.2)
        rw [hnext.1] at hfalse
        cases hfalse
      · have hset := BitVec.getLsbD_true_ctz_of_ne_zero hx
        rw [hlow _ hlt] at hset
        cases hset
    · have hset := hall j hgt hle
      rw [hbits, Bool.and_eq_true] at hset
      exact hset.1
  · intro hall j hge hle
    have hn := hctz.2 (hall n le_rfl hlt.le)
    rw [hbits, hall j (Nat.le_of_succ_le hge) hle, Bool.true_and, hn]
    exact decide_eq_true (Nat.ne_of_gt hge)

end Ntrdma.Lib
