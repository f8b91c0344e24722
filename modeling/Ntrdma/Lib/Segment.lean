import Mathlib.Tactic
import Ntrdma.Lib.Align

/-!
# Address space made of segments

A buffer given as a list of segments, each a start address and a size, and what it means to look at
it as one flat run of bytes. `bytes` lists the addresses of a segment list in order, `window` is the
stretch of `n` bytes from offset `off` on (a byte beyond the end is `none`), and `skip` is the walk
that turns an offset into the list into an offset into its first segment. The rules for a copy that
proceeds segment by segment are `window_skip`, `window_cons` and `window_nil`. `Together` says that
two positions are not separated by the end of a segment.
-/

namespace Ntrdma.Lib

/-- The `n` consecutive addresses from `a` on. -/
def span (a : UInt64) (n : Nat) : List UInt64 := (List.range n).map fun j => a + UInt64.ofNat j

@[simp] lemma length_span (a : UInt64) (n : Nat) : (span a n).length = n := by simp [span]

@[simp] lemma span_zero (a : UInt64) : span a 0 = [] := rfl

variable {a : UInt64}

lemma span_getElem? {n j : Nat} (h : j < n) : (span a n)[j]? = some (a + UInt64.ofNat j) := by
  simp [span, h]

lemma span_add (a : UInt64) (m n : Nat) : span a (m + n) = span a m ++ span (a + .ofNat m) n := by
  simp only [span, List.range_add, List.map_append, List.map_map]
  congr 1
  apply List.map_congr_left
  intro j _
  simp only [Function.comp_apply, UInt64.ofNat_add, UInt64.add_assoc]

variable {n k : Nat}

lemma span_take (h : k ≤ n) : (span a n).take k = span a k := by
  rw [show n = k + (n - k) by omega, span_add, List.take_left' (length_span a k)]

lemma span_drop (h : k ≤ n) : (span a n).drop k = span (a + .ofNat k) (n - k) := by
  conv_lhs => rw [show n = k + (n - k) by omega, span_add]
  rw [List.drop_left' (length_span a k)]

section
variable {α : Type} (size addr : α → UInt64)

/-- The addresses of a segment list, in order. -/
def bytes (l : List α) : List UInt64 := l.flatMap fun b => span (addr b) (size b).toNat

/-- Walk over the segments that end at or before `off`; the result is an offset into the first
segment that is left. -/
def skip (off : UInt64) : List α → UInt64 × List α
  | [] => (off, [])
  | b :: l => if size b ≤ off then skip (off - size b) l else (off, b :: l)

/-- The `n` bytes from offset `off` on. -/
def window (l : List α) (off n : Nat) : List (Option UInt64) :=
  (List.range n).map fun j => (bytes size addr l)[off + j]?

variable {size addr}

lemma length_bytes (l : List α) : (bytes size addr l).length =
    (l.map fun b => (size b).toNat).sum := by
  simp [bytes, List.length_flatMap]

@[simp] lemma length_window (l : List α) (off n : Nat) : (window size addr l off n).length = n := by
  simp [window]

@[simp] lemma window_zero (l : List α) (off : Nat) : window size addr l off 0 = [] := rfl

lemma window_add (l : List α) (off m n : Nat) :
    window size addr l off (m + n) = window size addr l off m ++
      window size addr l (off + m) n := by
  simp only [window, List.range_add, List.map_append, List.map_map]
  congr 1
  apply List.map_congr_left
  intro j _
  simp [Nat.add_assoc]

lemma window_nil (off n : Nat) : window size addr ([] : List α) off n = List.replicate n none := by
  simp [window, bytes]

lemma none_mem_window_iff {l : List α} {off n : Nat} :
    none ∈ window size addr l off n ↔ 0 < n ∧ (l.map fun b => (size b).toNat).sum < off + n := by
  simp only [window, List.mem_map, List.mem_range, List.getElem?_eq_none_iff, length_bytes]
  constructor
  · rintro ⟨j, hj, hle⟩
    omega
  · rintro ⟨hpos, hlt⟩
    exact ⟨n - 1, by omega, by omega⟩

lemma window_skip (l : List α) (off : UInt64) (n : Nat) :
    window size addr (skip size off l).2 (skip size off l).1.toNat n =
      window size addr l off.toNat n := by
  induction l generalizing off with
  | nil => rfl
  | cons _ _ ih =>
    simp only [skip]
    split
    next h =>
      rw [ih, UInt64.toNat_sub_of_le _ _ h]
      rw [UInt64.le_iff_toNat_le] at h
      apply List.map_congr_left
      intro j _
      simp only [bytes, List.flatMap_cons]
      rw [List.getElem?_append_right (by rw [length_span]; omega), length_span]
      congr 1
      omega
    · rfl

variable {l : List α} {off : UInt64} {b : α} {t : List α}

lemma skip_lt (h : (skip size off l).2 = b :: t) : (skip size off l).1 < size b := by
  induction l generalizing off with
  | nil => cases h
  | cons _ _ ih =>
    simp only [skip] at h ⊢
    split
    next hle =>
      rw [if_pos hle] at h
      exact ih h
    next hle =>
      rw [if_neg hle] at h
      cases h
      exact UInt64.not_le.1 hle

variable {n : Nat}

lemma skip_holds (h : off.toNat + n ≤ (l.map fun b => (size b).toNat).sum) :
    (skip size off l).1.toNat + n ≤ ((skip size off l).2.map fun b => (size b).toNat).sum := by
  induction l generalizing off with
  | nil => exact h
  | cons _ _ ih =>
    simp only [skip]
    split
    next hle =>
      apply ih
      simp only [List.map_cons, List.sum_cons] at h
      rw [UInt64.toNat_sub_of_le _ _ hle]
      rw [UInt64.le_iff_toNat_le] at hle
      omega
    · exact h

lemma skip_suffix (l : List α) (off : UInt64) : (skip size off l).2 <:+ l := by
  induction l generalizing off with
  | nil => exact List.suffix_rfl
  | cons b l ih =>
    simp only [skip]
    split
    · exact (ih _).trans (List.suffix_cons b l)
    · exact List.suffix_rfl

/-- The walk ends on the first byte of a segment if and only if the offset is the size of some of
the first segments. -/
lemma skip_eq_zero_iff (l : List α) (off : UInt64) :
    (skip size off l).1 = 0 ↔ ∃ pre, pre <+: l ∧
      off.toNat = (pre.map fun b => (size b).toNat).sum := by
  induction l generalizing off with
  | nil =>
    simp only [skip, List.prefix_nil, exists_eq_left, List.map_nil, List.sum_nil]
    exact UInt64.toNat_inj.symm
  | cons b _ ih =>
    simp only [skip, List.prefix_cons_iff]
    split
    next h =>
      rw [ih, UInt64.toNat_sub_of_le _ _ h]
      rw [UInt64.le_iff_toNat_le] at h
      constructor
      · rintro ⟨pre, hpre, hsum⟩
        refine ⟨b :: pre, .inr ⟨pre, rfl, hpre⟩, ?_⟩
        simp only [List.map_cons, List.sum_cons]
        omega
      · rintro ⟨_, rfl | ⟨pre, rfl, hpre⟩, hsum⟩
        · refine ⟨[], List.nil_prefix, ?_⟩
          simp only [List.map_nil, List.sum_nil] at hsum ⊢
          omega
        · refine ⟨pre, hpre, ?_⟩
          simp only [List.map_cons, List.sum_cons] at hsum
          omega
    next h =>
      rw [UInt64.le_iff_toNat_le] at h
      constructor
      · rintro rfl
        exact ⟨[], .inl rfl, rfl⟩
      · rintro ⟨_, rfl | ⟨pre, rfl, hpre⟩, hsum⟩
        · exact UInt64.toNat_inj.1 hsum
        · simp only [List.map_cons, List.sum_cons] at hsum
          omega

lemma window_cons {off n : Nat} (h : off + n ≤ (size b).toNat) :
    window size addr (b :: t) off n = (span (addr b + .ofNat off) n).map some := by
  simp only [window, span, List.map_map]
  apply List.map_congr_left
  intro j hj
  rw [List.mem_range] at hj
  simp only [bytes, List.flatMap_cons]
  rw [List.getElem?_append_left (by rw [length_span]; omega), span_getElem? (by omega)]
  simp only [Function.comp_apply, UInt64.ofNat_add, UInt64.add_assoc]

lemma window_drop {off n k : Nat} (h : k ≤ n) :
    (window size addr l off n).drop k = window size addr l (off + k) (n - k) := by
  conv_lhs => rw [show n = k + (n - k) by omega, window_add]
  rw [List.drop_left' (length_window l off k)]

lemma window_zero_left (h : n ≤ (l.map fun b => (size b).toNat).sum) :
    window size addr l 0 n = ((bytes size addr l).take n).map some := by
  apply List.ext_getElem?
  intro i
  have hlen := @length_bytes α size addr l
  simp only [window, Nat.zero_add, List.getElem?_map, List.getElem?_take]
  by_cases hi : i < n
  · rw [if_pos hi, List.getElem?_range hi, List.getElem?_eq_getElem (by omega)]
    simp
  · simp [hi]

lemma window_split {off n rem : Nat} (h : off + n ≤ (size b).toNat) (hn : n ≤ rem) :
    window size addr (b :: t) off rem = (span (addr b + .ofNat off) n).map some ++
      window size addr (b :: t) (off + n) (rem - n) := by
  rw [← window_cons h, ← window_add, Nat.add_sub_cancel' hn]

lemma window_advance {off len rem : UInt64} (h : off.toNat + len.toNat ≤ (size b).toNat)
    (hlen : len.toNat ≤ rem.toNat) :
    window size addr (b :: t) off.toNat rem.toNat = (span (addr b + off) len.toNat).map some ++
      window size addr (b :: t) (off + len).toNat (rem - len).toNat := by
  have hlt := (size b).toNat_lt
  rw [window_split h hlen, UInt64.ofNat_toNat, UInt64.toNat_add, Nat.mod_eq_of_lt (by omega),
    toNat_sub64 hlen]

lemma bytes_cons (b : α) (l : List α) :
    bytes size addr (b :: l) = span (addr b) (size b).toNat ++ bytes size addr l :=
  List.flatMap_cons

/-! ## Positions in one segment -/

/-- Two positions, the first one not after the second, are in the same segment. -/
def Together (size : α → UInt64) : List α → Nat → Nat → Prop
  | [], _, _ => False
  | b :: l, i, j => j < (size b).toNat ∨
    (size b).toNat ≤ i ∧ Together size l (i - (size b).toNat) (j - (size b).toNat)

lemma Together.congr {β : Type} {size' : β → UInt64} {l' : List β} (h : l.map size = l'.map size')
    {i j : Nat} (ht : Together size l i j) : Together size' l' i j := by
  induction l generalizing l' i j with
  | nil => exact ht.elim
  | cons _ _ ih =>
    cases l' with
    | nil => cases h
    | cons =>
      rw [List.map_cons, List.map_cons, List.cons.injEq] at h
      rw [Together, h.1] at ht
      exact ht.imp id fun hrest => ⟨hrest.1, ih h.2 hrest.2⟩

end

end Ntrdma.Lib
