import Ntrdma.Lib.Segment

/-!
# Copying two byte runs in lockstep

The specification of a copy that goes byte by byte through a source and a destination, each a list
of locations in which `none` stands for a byte that does not exist. `lockstep` is the list of moves
such a copy makes, or `none` if it meets a byte that does not exist. What comes after the first such
byte does not matter (`cut`, `lockstep_cut`), and a copy may be done in runs of bytes
(`lockstep_append`). `lockstepPrefix` is the list of moves up to such a byte, the same for each way
to do it in runs.
-/

namespace Ntrdma.Lib

/-- The list up to and with its first `none`. -/
def cut {α : Type} : List (Option α) → List (Option α)
  | [] => []
  | none :: _ => [none]
  | some a :: l => some a :: cut l

/-- The moves of a copy of all of the first list to the second one. -/
def lockstep {α β : Type} : List (Option α) → List (Option β) → Option (List (α × β))
  | [], _ => some []
  | some s :: l, some r :: m => (lockstep l m).map ((s, r) :: ·)
  | _ :: _, _ => none

/-- The moves of a copy up to the first byte that does not exist. -/
def lockstepPrefix {α β : Type} : List (Option α) → List (Option β) → List (α × β)
  | some s :: l, some r :: m => (s, r) :: lockstepPrefix l m
  | _, _ => []

section
variable {α β : Type} {l t t' : List (Option α)} {m : List (Option β)}

@[simp] lemma cut_nil : cut ([] : List (Option α)) = [] := rfl

@[simp] lemma cut_none_cons : cut (none :: l) = [none] := rfl

@[simp] lemma cut_some_cons {a : α} : cut (some a :: l) = some a :: cut l := rfl

lemma cut_map_some_append (xs : List α) : cut (xs.map some ++ l) = xs.map some ++ cut l := by
  induction xs with
  | nil => rfl
  | cons _ _ ih => simp [ih]

lemma length_cut_le (l : List (Option α)) : (cut l).length ≤ l.length := by
  induction l with
  | nil => simp
  | cons a _ ih =>
    cases a with
    | none => simp
    | some => simpa using ih

/-- What comes after the first byte that does not exist does not matter. -/
lemma lockstep_cut (l : List (Option α)) (m : List (Option β)) :
    lockstep (cut l) (cut m) = lockstep l m := by
  induction l generalizing m with
  | nil => rfl
  | cons a _ ih =>
    cases a with
    | none => cases m <;> rfl
    | some =>
      cases m with
      | nil => rfl
      | cons b =>
        cases b with
        | none => rfl
        | some => simp only [cut_some_cons, lockstep, ih]

variable {xs : List α} {ys : List β}

lemma lockstep_append (h : xs.length = ys.length) :
    lockstep (xs.map some ++ l) (ys.map some ++ m) = (lockstep l m).map (xs.zip ys ++ ·) := by
  induction xs generalizing ys with
  | nil =>
    obtain rfl := List.length_eq_zero_iff.1 h.symm
    simp
  | cons _ _ ih =>
    cases ys with
    | nil => cases h
    | cons =>
      simp only [List.map_cons, List.cons_append, lockstep, ih (Nat.succ.inj h), Option.map_map]
      rfl

lemma lockstep_none_left (h : cut l = [none]) : lockstep l m = none := by
  rw [← lockstep_cut, h]
  rfl

lemma lockstep_none_right (hl : l ≠ []) (h : m = [] ∨ cut m = [none]) : lockstep l m = none := by
  obtain ⟨a, l, rfl⟩ := List.exists_cons_of_ne_nil hl
  rw [← lockstep_cut]
  obtain rfl | h := h
  · cases a <;> rfl
  · rw [h]
    cases a <;> rfl

lemma lockstepPrefix_cut (l : List (Option α)) (m : List (Option β)) :
    lockstepPrefix (cut l) (cut m) = lockstepPrefix l m := by
  induction l generalizing m with
  | nil => rfl
  | cons a _ ih =>
    cases a with
    | none => rfl
    | some =>
      cases m with
      | nil => rfl
      | cons b =>
        cases b with
        | none => rfl
        | some => simp only [cut_some_cons, lockstepPrefix, ih]

lemma lockstepPrefix_append (h : xs.length = ys.length) :
    lockstepPrefix (xs.map some ++ l) (ys.map some ++ m) = xs.zip ys ++ lockstepPrefix l m := by
  induction xs generalizing ys with
  | nil =>
    obtain rfl := List.length_eq_zero_iff.1 h.symm
    rfl
  | cons _ _ ih =>
    cases ys with
    | nil => cases h
    | cons =>
      simp only [List.map_cons, List.cons_append, lockstepPrefix,
        ih (Nat.succ.inj h), List.zip_cons_cons]

lemma lockstepPrefix_of_lockstep {moves : List (α × β)} (h : lockstep l m = some moves) :
    lockstepPrefix l m = moves := by
  induction l generalizing m moves with
  | nil =>
    cases h
    rfl
  | cons a _ ih =>
    cases a with
    | none => cases h
    | some =>
      cases m with
      | nil => cases h
      | cons b =>
        cases b with
        | none => cases h
        | some =>
          obtain ⟨moves, hmoves, rfl⟩ := Option.map_eq_some_iff.1 h
          rw [lockstepPrefix, ih hmoves]

lemma lockstepPrefix_none_left (h : cut l = [none]) : lockstepPrefix l m = [] := by
  rw [← lockstepPrefix_cut, h]
  rfl

lemma lockstepPrefix_none_right (h : m = [] ∨ cut m = [none]) : lockstepPrefix l m = [] := by
  rw [← lockstepPrefix_cut]
  obtain rfl | h := h
  · cases l with
    | nil => rfl
    | cons a => cases a <;> rfl
  · rw [h]
    cases l with
    | nil => rfl
    | cons a => cases a <;> rfl

lemma lockstepPrefix_map_left {γ : Type} (f : α → γ) (l : List (Option α)) (m : List (Option β)) :
    lockstepPrefix (l.map (Option.map f)) m = (lockstepPrefix l m).map (Prod.map f id) := by
  induction l generalizing m with
  | nil => rfl
  | cons a _ ih =>
    cases a with
    | none => rfl
    | some =>
      cases m with
      | nil => rfl
      | cons b =>
        cases b with
        | none => rfl
        | some => simp only [List.map_cons, Option.map_some, lockstepPrefix, ih, Prod.map, id]

lemma lockstep_isSome : (lockstep l m).isSome ↔
    (∀ b ∈ l, b.isSome) ∧ l.length ≤ m.length ∧ ∀ b ∈ m.take l.length, b.isSome := by
  induction l generalizing m with
  | nil => simp [lockstep]
  | cons a _ ih =>
    cases a with
    | none => simp [lockstep]
    | some =>
      cases m with
      | nil => simp [lockstep]
      | cons b =>
        cases b with
        | none => simp [lockstep]
        | some => simp [lockstep, ih]

lemma lockstep_take (l : List (Option α)) (m : List (Option β)) :
    lockstep l (m.take l.length) = lockstep l m := by
  induction l generalizing m with
  | nil => rfl
  | cons a _ ih =>
    cases m with
    | nil => rfl
    | cons b =>
      cases a <;> cases b <;> simp only [List.length_cons, List.take_succ_cons, lockstep, ih]

variable {moves : List (α × β)}

lemma lockstep_eq_zip (h : lockstep l m = some moves) :
    moves.map (Prod.map some some) = l.zip m := by
  induction l generalizing m moves with
  | nil =>
    cases h
    rfl
  | cons a _ ih =>
    cases a with
    | none => simp [lockstep] at h
    | some =>
      cases m with
      | nil => simp [lockstep] at h
      | cons b =>
        cases b with
        | none => simp [lockstep] at h
        | some =>
          simp only [lockstep, Option.map_eq_some_iff] at h
          obtain ⟨moves, hmoves, rfl⟩ := h
          simp [ih hmoves]

lemma length_lockstep (h : lockstep l m = some moves) : moves.length = l.length := by
  have hle := (lockstep_isSome.1 (Option.isSome_of_mem h)).2.1
  have hlen := congrArg List.length (lockstep_eq_zip h)
  rw [List.length_map, List.length_zip] at hlen
  omega

lemma lockstep_fst (h : lockstep l m = some moves) : (moves.map Prod.fst).map some = l := by
  have hle := (lockstep_isSome.1 (Option.isSome_of_mem h)).2.1
  have hzip := congrArg (List.map Prod.fst) (lockstep_eq_zip h)
  rw [List.map_fst_zip hle, List.map_map] at hzip
  rw [← hzip, List.map_map]
  rfl

lemma lockstep_getElem? {i : Nat} {s : α} {r : β} (h : lockstep l m = some moves)
    (hi : moves[i]? = some (s, r)) : l[i]? = some (some s) ∧ m[i]? = some (some r) := by
  have hzip : (l.zip m)[i]? = some (some s, some r) := by
    rw [← lockstep_eq_zip h, List.getElem?_map, hi]
    rfl
  exact List.getElem?_zip_eq_some.1 hzip

end

section
variable {α : Type} {size addr : α → UInt64}

/-- The byte at an address of a buffer that starts at address `base`. -/
def byteAt (size addr : α → UInt64) (l : List α) (base a : UInt64) : Option UInt64 :=
  (bytes size addr l)[(a - base).toNat]?

lemma span_succ (a : UInt64) (n : Nat) : span a (n + 1) = a :: span (a + 1) n := by
  rw [Nat.add_comm, span_add]
  simp [span]

variable {l : List α}

/-- Where no address wraps around, the bytes at consecutive addresses are a stretch of the
buffer. -/
lemma span_map_byteAt {base a : UInt64} {n : Nat} (h : (a - base).toNat + n ≤ 2 ^ 64) :
    (span a n).map (byteAt size addr l base) = window size addr l (a - base).toNat n := by
  simp only [span, window, List.map_map]
  apply List.map_congr_left
  intro j hj
  rw [List.mem_range] at hj
  have hsub : a + UInt64.ofNat j - base = a - base + UInt64.ofNat j := by grind
  have hnat : (a + UInt64.ofNat j - base).toNat = (a - base).toNat + j := by
    rw [hsub, UInt64.toNat_add, UInt64.toNat_ofNat_of_lt' (show j < 2 ^ 64 by omega),
      Nat.mod_eq_of_lt (by omega)]
  simp only [Function.comp_apply, byteAt, hnat]

/-- Up to the first byte that does not exist, the bytes from an offset on are those at the addresses
from the offset on: addresses wrap around, but no buffer is so long. -/
lemma cut_window (hl : (l.map fun b => (size b).toNat).sum < 2 ^ 64) (base a : UInt64) (n : Nat)
    (t : List (Option UInt64)) :
    cut (window size addr l (a - base).toNat n ++ t) =
      cut ((span a n).map (byteAt size addr l base) ++ t) := by
  rw [← @length_bytes α size addr] at hl
  induction n generalizing a with
  | zero => rfl
  | succ n ih =>
    have hhead : window size addr l (a - base).toNat 1 = [byteAt size addr l base a] := rfl
    rw [Nat.add_comm n 1, window_add, hhead, Nat.add_comm 1 n, span_succ, List.map_cons,
      List.append_assoc, List.singleton_append, List.cons_append]
    cases hb : byteAt size addr l base a with
    | none => rfl
    | some =>
      have hlt : (a - base).toNat < (bytes size addr l).length :=
        (List.getElem?_eq_some_iff.1 hb).1
      have hnext : (a - base).toNat + 1 = (a + 1 - base).toNat := by
        have : a + 1 - base = a - base + 1 := by grind
        rw [this, UInt64.toNat_add]
        exact (Nat.mod_eq_of_lt (by omega)).symm
      rw [cut_some_cons, cut_some_cons, hnext, ih]

end

end Ntrdma.Lib
