import Mathlib.Data.List.Basic

/-!
# Counted objects with references

Objects that live as long as there is a reference to them, and a counter that is to say how many of
them live. A reference is known by its holder, so that a holder gives back its own reference only;
the reference count of an object is the number of its holders. The counter is incremented by hand,
and decremented by hand or when the last reference to an object is given back.
-/

namespace Ntrdma.Lib

/-- A counter, and the holders of each object; an object without holders has been released. -/
structure Pool (ρ : Type) where
  num : Int
  refs : List (List ρ)

namespace Pool
variable {ρ : Type}

def inc (p : Pool ρ) : Pool ρ := { p with num := p.num + 1 }

def dec (p : Pool ρ) : Pool ρ := { p with num := p.num - 1 }

/-- A new object with its first reference. It does not count itself. -/
def alloc (p : Pool ρ) (r : ρ) : Pool ρ := { p with refs := p.refs ++ [[r]] }

def get (p : Pool ρ) (i : Nat) (r : ρ) : Pool ρ :=
  match p.refs[i]? with
  | none => p
  | some rs => { p with refs := p.refs.set i (r :: rs) }

/-- A reference is given back. The last one releases the object, which decrements the counter. -/
def put [DecidableEq ρ] (p : Pool ρ) (i : Nat) (r : ρ) : Pool ρ :=
  match p.refs[i]? with
  | none => p
  | some rs =>
    { num := if rs = [r] then p.num - 1 else p.num
      refs := p.refs.set i (rs.erase r) }

def live (p : Pool ρ) : Nat := p.refs.countP fun rs => !rs.isEmpty

/-- What the counter has more than there are objects. -/
def excess (p : Pool ρ) : Int := p.num - p.live

def Holds (p : Pool ρ) (i : Nat) (r : ρ) : Prop := ∃ rs, p.refs[i]? = some rs ∧ r ∈ rs

instance [DecidableEq ρ] (p : Pool ρ) (i : Nat) (r : ρ) : Decidable (p.Holds i r) :=
  decidable_of_iff (∃ rs ∈ p.refs[i]?, r ∈ rs) Iff.rfl

/-! ## What the operations do to the number of objects -/

section
variable (p : Pool ρ)

@[simp] lemma live_inc : p.inc.live = p.live := rfl

@[simp] lemma live_dec : p.dec.live = p.live := rfl

@[simp] lemma live_alloc (r : ρ) : (p.alloc r).live = p.live + 1 :=
  List.countP_append

@[simp] lemma excess_inc : p.inc.excess = p.excess + 1 := by
  change p.num + 1 - p.live = p.num - p.live + 1
  omega

@[simp] lemma excess_dec : p.dec.excess = p.excess - 1 := by
  change p.num - 1 - p.live = p.num - p.live - 1
  omega

@[simp] lemma excess_alloc (r : ρ) : (p.alloc r).excess = p.excess - 1 := by
  rw [excess, live_alloc]
  change p.num - (p.live + 1 : Nat) = p.num - p.live - 1
  omega

end

section
variable {p : Pool ρ} {i : Nat}

lemma live_set {rs : List ρ} (h : p.refs[i]? = some rs) (num : Int) (rs' : List ρ) :
    (⟨num, p.refs.set i rs'⟩ : Pool ρ).live + (if rs = [] then 0 else 1) =
      p.live + if rs' = [] then 0 else 1 := by
  obtain ⟨hi, hrs⟩ := List.getElem?_eq_some_iff.1 h
  rw [live, List.countP_set hi, hrs, live]
  simp only [Bool.not_eq_true', List.isEmpty_eq_false_iff]
  by_cases hnil : rs = []
  · rw [if_neg (not_not.2 hnil), if_pos hnil, ite_not]
    rfl
  · have hpos : 0 < p.refs.countP fun rs => !rs.isEmpty :=
      List.countP_pos_iff.2 ⟨rs, hrs ▸ List.getElem_mem hi, by simpa using hnil⟩
    rw [if_pos hnil, if_neg hnil, ite_not]
    omega

variable {r r' : ρ}

lemma live_get (h : p.Holds i r') : (p.get i r).live = p.live := by
  obtain ⟨rs, hrs, hr'⟩ := h
  have hset := live_set hrs p.num (r :: rs)
  rw [if_neg (List.ne_nil_of_mem hr'), if_neg (List.cons_ne_nil _ _)] at hset
  rw [get, hrs]
  exact Nat.add_right_cancel hset

lemma num_get (r : ρ) : (p.get i r).num = p.num := by
  rw [get]
  split <;> rfl

lemma excess_get (h : p.Holds i r') : (p.get i r).excess = p.excess := by
  rw [excess, live_get h, num_get, excess]

lemma Holds.get {j : Nat} (h : p.Holds j r') : (p.get i r).Holds j r' := by
  rw [Pool.get]
  split
  · exact h
  next rs hrs =>
    obtain ⟨rs', hrs', hr'⟩ := h
    by_cases heq : i = j
    · subst heq
      rw [hrs, Option.some.injEq] at hrs'
      subst hrs'
      exact ⟨_, List.getElem?_set_self (List.getElem?_eq_some_iff.1 hrs).1,
        List.mem_cons_of_mem _ hr'⟩
    · exact ⟨rs', by rw [List.getElem?_set_ne heq]; exact hrs', hr'⟩

variable [DecidableEq ρ]

lemma put_counts (r : ρ) : (p.put i r).excess = p.excess ∧ (p.put i r).live ≤ p.live := by
  rw [put]
  cases hrs : p.refs[i]? with
  | none => exact ⟨rfl, Nat.le_refl _⟩
  | some rs =>
    have hset := live_set hrs (if rs = [r] then p.num - 1 else p.num) (rs.erase r)
    dsimp only
    rw [excess, excess]
    dsimp only
    by_cases hlast : rs = [r]
    · subst hlast
      rw [List.erase_cons_head, if_neg (List.cons_ne_nil _ _), if_pos rfl, if_pos rfl] at hset
      rw [List.erase_cons_head, if_pos rfl]
      omega
    · -- the object is left with as many holders as to live on, or had none
      have hsame : rs.erase r = [] ↔ rs = [] := by
        rw [List.erase_eq_nil_iff]
        exact or_iff_left hlast
      rw [if_neg hlast] at hset ⊢
      simp only [hsame] at hset
      omega

lemma excess_put (r : ρ) : (p.put i r).excess = p.excess := (put_counts r).1

lemma live_put_le (r : ρ) : (p.put i r).live ≤ p.live := (put_counts r).2

end

end Pool

end Ntrdma.Lib
