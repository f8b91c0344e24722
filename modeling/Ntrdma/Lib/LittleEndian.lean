import Mathlib.Tactic

/-!
# Little-endian byte strings

Fixed-width numbers as the bytes they occupy in memory, least significant byte first.
-/

namespace Ntrdma.Lib

def leBytes : Nat → Nat → List UInt8
  | 0, _ => []
  | w + 1, v => UInt8.ofNat (v % 256) :: leBytes w (v / 256)

def leNat : List UInt8 → Nat
  | [] => 0
  | b :: l => b.toNat + 256 * leNat l

@[simp] lemma length_leBytes (w v : Nat) : (leBytes w v).length = w := by
  induction w generalizing v with
  | zero => rfl
  | succ _ ih => simp [leBytes, ih]

lemma leNat_leBytes (w v : Nat) (h : v < 256 ^ w) : leNat (leBytes w v) = v := by
  induction w generalizing v with
  | zero => simp at h; simp [leBytes, leNat, h]
  | succ w ih =>
    have hdiv : v / 256 < 256 ^ w := by
      apply Nat.div_lt_of_lt_mul
      rw [pow_succ] at h
      omega
    simp only [leBytes, leNat, ih _ hdiv, UInt8.toNat_ofNat']
    omega

lemma leNat_lt (l : List UInt8) : leNat l < 256 ^ l.length := by
  induction l with
  | nil => simp [leNat]
  | cons b =>
    have hb := b.toNat_lt
    rw [leNat, List.length_cons, pow_succ]
    omega

lemma leBytes_leNat (l : List UInt8) : leBytes l.length (leNat l) = l := by
  induction l with
  | nil => rfl
  | cons b _ ih =>
    have hb := b.toNat_lt
    rw [List.length_cons, leBytes, leNat, Nat.add_mul_mod_self_left,
      Nat.add_mul_div_left _ _ (by omega),
      Nat.mod_eq_of_lt (by omega), Nat.div_eq_of_lt (by omega), Nat.zero_add, ih, UInt8.ofNat_toNat]

end Ntrdma.Lib
