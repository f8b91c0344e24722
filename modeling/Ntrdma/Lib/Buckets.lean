import Mathlib.Data.List.Perm.Basic

/-!
# Lists by key

A finite map from keys to lists, as an association list. The contents are all elements with the keys
that they are under. What it does to the contents to put an element in front of a list, or to take
the first one, is a permutation, since the order of the keys does not matter.
-/

namespace Ntrdma.Lib

/-- The lists with their keys. -/
abbrev Buckets (κ α : Type) := List (κ × List α)

namespace Buckets
variable {κ α : Type}

def add (b : Buckets κ α) (k : κ) : Buckets κ α := b ++ [(k, [])]

def contents (b : Buckets κ α) : List (α × κ) := b.flatMap fun (k, l) => l.map fun a => (a, k)

lemma contents_cons (b : Buckets κ α) (k : κ) (l : List α) :
    contents ((k, l) :: b) = (l.map fun a => (a, k)) ++ b.contents :=
  List.flatMap_cons

lemma contents_add (b : Buckets κ α) (k : κ) : (b.add k).contents = b.contents := by
  rw [contents, add, List.flatMap_append]
  exact List.append_nil _

variable [DecidableEq κ]

def find (b : Buckets κ α) (k : κ) : Option (List α) := b.lookup k

def replace : Buckets κ α → κ → List α → Buckets κ α
  | [], _, _ => []
  | (k', l') :: b, k, l => if k = k' then (k', l) :: b else (k', l') :: replace b k l

variable {b : Buckets κ α} {k : κ}

lemma find_cons (k' : κ) (l : List α) :
    find ((k', l) :: b) k = if k = k' then some l else b.find k := by
  rw [find, List.lookup_cons]
  by_cases h : k = k'
  · rw [if_pos h, beq_iff_eq.2 h]
  · rw [if_neg h, beq_false_of_ne h]
    rfl

variable {k' : κ}

lemma isSome_find_add (h : (b.find k').isSome) : ((b.add k).find k').isSome := by
  induction b with
  | nil => cases h
  | cons e _ ih =>
    obtain ⟨k'', l⟩ := e
    rw [add, List.cons_append, find_cons]
    rw [find_cons] at h
    split
    · rfl
    next hne =>
      rw [if_neg hne] at h
      exact ih h

lemma find_add_of_ne (hne : k' ≠ k) : (b.add k).find k' = b.find k' := by
  induction b with
  | nil => exact (find_cons k []).trans (if_neg hne)
  | cons e _ ih =>
    obtain ⟨k'', l⟩ := e
    rw [add, List.cons_append, find_cons, find_cons]
    exact if_congr Iff.rfl rfl ih

lemma find_add (h : b.find k = none) : (b.add k).find k = some [] := by
  induction b with
  | nil => exact (find_cons k []).trans (if_pos rfl)
  | cons e _ ih =>
    obtain ⟨k', l⟩ := e
    rw [add, List.cons_append, find_cons]
    rw [find_cons] at h
    split at h
    · cases h
    next hne =>
      rw [if_neg hne]
      exact ih h

lemma isSome_find_replace (l : List α) (k' : κ) :
    ((b.replace k l).find k').isSome = (b.find k').isSome := by
  induction b with
  | nil => rfl
  | cons e _ ih =>
    obtain ⟨k'', l'⟩ := e
    rw [replace, find_cons]
    by_cases hk : k = k''
    · rw [if_pos hk, find_cons]
      split
      · rfl
      · rfl
    · rw [if_neg hk, find_cons]
      split
      · rfl
      · exact ih

variable {l : List α}

lemma contents_replace (h : b.find k = some l) (l' : List α) :
    ((b.replace k l').contents ++ l.map fun a => (a, k)).Perm
      (b.contents ++ l'.map fun a => (a, k)) := by
  induction b with
  | nil => cases h
  | cons e _ ih =>
    obtain ⟨k', l''⟩ := e
    rw [find_cons] at h
    rw [replace]
    split at h
    next heq =>
      cases h
      rw [if_pos heq, contents_cons, contents_cons, heq, List.append_assoc]
      exact (List.perm_append_comm.append_left _).trans List.perm_append_comm
    next hne =>
      rw [if_neg hne, contents_cons, contents_cons, List.append_assoc, List.append_assoc]
      exact (ih h).append_left _

lemma contents_push (h : b.find k = some l) (a : α) :
    (b.replace k (a :: l)).contents.Perm ((a, k) :: b.contents) := by
  have hperm := contents_replace h (a :: l)
  rw [List.map_cons] at hperm
  exact (List.perm_append_right_iff _).1 (hperm.trans List.perm_middle)

lemma contents_pop {a : α} (h : b.find k = some (a :: l)) :
    b.contents.Perm ((a, k) :: (b.replace k l).contents) := by
  have hperm := contents_replace h l
  rw [List.map_cons] at hperm
  exact (List.perm_append_right_iff _).1 (hperm.symm.trans List.perm_middle)

end Buckets

end Ntrdma.Lib
