import Mathlib.Tactic

/-!
# Counters kept modulo a ring

Arithmetic of an unbounded counter `n` of which only `n % m` is stored. The two facts everything
else rests on are `mod_add_cases` (advancing the counter by less than one revolution wraps the
stored value at most once) and `slot_ne` (two counters less than one revolution apart use different
slots).
-/

namespace Ntrdma.Lib

/-- Advancing by at most one revolution wraps the stored value at most once. -/
lemma mod_add_cases {m : Nat} (n d : Nat) (hd : d < m) :
    (n % m + d < m ∧ (n + d) % m = n % m + d) ∨
      (m ≤ n % m + d ∧ (n + d) % m = n % m + d - m) := by
  have hm : 0 < m := by omega
  have hn := Nat.mod_lt n hm
  have hmod : (n + d) % m = (n % m + d) % m := by simp [Nat.add_mod]
  rcases Nat.lt_or_ge (n % m + d) m with h | h
  · exact .inl ⟨h, by rw [hmod, Nat.mod_eq_of_lt h]⟩
  · refine .inr ⟨h, ?_⟩
    rw [hmod, Nat.mod_eq_sub_mod h, Nat.mod_eq_of_lt (by omega)]

/-- The slot of a counter, computed from the value stored modulo two revolutions. -/
lemma slot_cases {c : Nat} (n : Nat) (hc : 0 < c) :
    (n % (2 * c) < c ∧ n % c = n % (2 * c)) ∨
      (c ≤ n % (2 * c) ∧ n % (2 * c) < 2 * c ∧ n % c = n % (2 * c) - c) := by
  have h2 := Nat.mod_lt n (show 0 < 2 * c by omega)
  have hmod : n % c = n % (2 * c) % c := (Nat.mod_mod_of_dvd n (Dvd.intro_left 2 rfl)).symm
  rcases Nat.lt_or_ge (n % (2 * c)) c with h | h
  · exact .inl ⟨h, by rw [hmod, Nat.mod_eq_of_lt h]⟩
  · refine .inr ⟨h, h2, ?_⟩
    rw [hmod, Nat.mod_eq_sub_mod h, Nat.mod_eq_of_lt (by omega)]

lemma slot_end {c : Nat} (n : Nat) (hc : 0 < c) : (n + (c - n % c)) % c = 0 := by
  have hdiv := Nat.div_add_mod n c
  have hlt := Nat.mod_lt n hc
  have hmul : c * (n / c + 1) = c * (n / c) + c := Nat.mul_succ _ _
  rw [show n + (c - n % c) = c * (n / c + 1) by omega, Nat.mul_mod_right]

/-- Two runs of slots, each up to the end of the revolution at most, cover a window. -/
lemma two_runs {c w k : Nat} (n : Nat) (hc : 0 < c) (hw : w ≤ c) (hk : k = min w (c - n % c)) :
    k + min (w - k) (c - (n + k) % c) = w := by
  rcases Nat.lt_or_ge (c - n % c) w with h | h
  · rw [show k = c - n % c by omega, slot_end n hc]
    omega
  · omega

lemma slot_ne {c a b : Nat} (hab : a < b) (hb : b < a + c) : a % c ≠ b % c := by
  intro h
  have hdvd : c ∣ b - a := (Nat.modEq_iff_dvd' hab.le).1 h
  have := Nat.le_of_dvd (by omega) hdvd
  omega

lemma slot_inj {c a b lo : Nat} (ha : lo ≤ a) (ha' : a < lo + c) (hb : lo ≤ b) (hb' : b < lo + c)
    (h : a % c = b % c) : a = b := by
  rcases Nat.lt_trichotomy a b with hlt | heq | hgt
  · exact absurd h (slot_ne hlt (by omega))
  · exact heq
  · exact absurd h.symm (slot_ne hgt (by omega))

lemma slot_surj {c s : Nat} (lo : Nat) (hs : s < c) : ∃ m, lo ≤ m ∧ m < lo + c ∧ s = m % c := by
  have hlo := Nat.mod_lt lo (show 0 < c by omega)
  rcases Nat.lt_or_ge s (lo % c) with h | h
  · have hmod := mod_add_cases (m := c) lo (c + s - lo % c) (by omega)
    exact ⟨lo + (c + s - lo % c), by omega, by omega, by omega⟩
  · have hmod := mod_add_cases (m := c) lo (s - lo % c) (by omega)
    exact ⟨lo + (s - lo % c), by omega, by omega, by omega⟩

/-! ## Contents of a ring -/

section
variable {α : Type} {c n : Nat} {slots : Nat → α} {l m : List α}

/-- The entries from counter `n` on are those of the list, in order. -/
def Holds (c : Nat) (slots : Nat → α) (n : Nat) (l : List α) : Prop :=
  ∀ k a, l[k]? = some a → slots ((n + k) % c) = a

@[simp] lemma Holds.nil : Holds c slots n [] := nofun

lemma holds_cons {a : α} : Holds c slots n (a :: l) ↔ slots (n % c) = a ∧
    Holds c slots (n + 1) l := by
  constructor
  · intro h
    refine ⟨h 0 a rfl, fun k b hb => ?_⟩
    rw [Nat.add_assoc, Nat.add_comm 1 k]
    exact h (k + 1) b hb
  · rintro ⟨h0, h⟩ k b hb
    cases k with
    | zero =>
      cases hb
      exact h0
    | succ k =>
      rw [Nat.add_comm k 1, ← Nat.add_assoc]
      exact h k b hb

lemma Holds.getElem? {i : Nat} {a : α} (h : Holds c slots n l) (ha : l[i]? = some a) :
    slots ((n + i) % c) = a := h i a ha

end

end Ntrdma.Lib
