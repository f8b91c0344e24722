import Mathlib.Data.Nat.Bitwise

/-!
# Arithmetic of words

Subtraction that does not wrap around, and rounding down to a multiple of a power of two by clearing
the lowest bits.
-/

namespace Ntrdma.Lib

lemma toNat_sub32 {a b : UInt32} (h : b.toNat ≤ a.toNat) : (a - b).toNat = a.toNat - b.toNat :=
  UInt32.toNat_sub_of_le _ _ (UInt32.le_iff_toNat_le.2 h)

lemma toNat_sub64 {a b : UInt64} (h : b.toNat ≤ a.toNat) : (a - b).toNat = a.toNat - b.toNat :=
  UInt64.toNat_sub_of_le _ _ (UInt64.le_iff_toNat_le.2 h)

variable {w : Nat} (x : BitVec w) (k : Nat)

lemma and_not_low_eq_shift : x &&& ~~~BitVec.ofNat w (2 ^ k - 1) = (x >>> k) <<< k := by
  refine BitVec.eq_of_getLsbD_eq fun i hi => ?_
  rw [BitVec.getLsbD_and, BitVec.getLsbD_not, BitVec.getLsbD_ofNat, Nat.testBit_two_pow_sub_one,
    BitVec.getLsbD_shiftLeft, BitVec.getLsbD_ushiftRight]
  by_cases hlow : i < k
  · simp only [hi, hlow, decide_true, Bool.and_self, Bool.not_true, Bool.and_false, Bool.false_and]
  · simp only [hi, hlow, decide_true, decide_false, Bool.and_false, Bool.not_false, Bool.and_self,
      Bool.and_true, Bool.true_and, show k + (i - k) = i by omega]

lemma toNat_and_not_low : (x &&& ~~~BitVec.ofNat w (2 ^ k - 1)).toNat =
    x.toNat / 2 ^ k * 2 ^ k := by
  rw [and_not_low_eq_shift, BitVec.toNat_shiftLeft, BitVec.toNat_ushiftRight, Nat.shiftLeft_eq,
    Nat.shiftRight_eq_div_pow]
  exact Nat.mod_eq_of_lt (Nat.lt_of_le_of_lt (Nat.div_mul_le_self _ _) x.isLt)

end Ntrdma.Lib
