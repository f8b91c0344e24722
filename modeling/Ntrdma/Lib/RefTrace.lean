import Mathlib.Data.Multiset.AddSub
import Mathlib.Data.Multiset.Count

/-!
# References taken and given back

A function that takes references to objects, uses the objects and gives the references back leaves a
trace of these events. `Replay alive held evs held'` says that the trace is one of a function that
holds the references `held` before it and `held'` after it: it takes references only to objects that
are alive, gives back only what it holds, and uses only objects to which it holds a reference. The
counts that a trace leads to (`refsAfter`) are then those of all others plus what the function holds
(`Replay.refsAfter_eq`).

The same trace says what was allocated and freed; there nothing but the trace itself counts
(`Replay.givenBackOnce_iff`).
-/

namespace Ntrdma.Lib

inductive RefEvent (ρ : Type) where
  | get (r : ρ)
  | put (r : ρ)
  | use (r : ρ)
  deriving DecidableEq, Repr

/-- The reference counts after a trace. An object without references cannot be referred to again. -/
def refsAfter {ρ : Type} [DecidableEq ρ] (refs : ρ → Nat) : List (RefEvent ρ) → ρ → Nat
  | [] => refs
  | .get r :: evs =>
    refsAfter (if refs r = 0 then refs else Function.update refs r (refs r + 1)) evs
  | .put r :: evs => refsAfter (Function.update refs r (refs r - 1)) evs
  | .use _ :: evs => refsAfter refs evs

/-- The trace of a function that holds some references before it and others after it. -/
inductive Replay {ρ : Type} (alive : ρ → Prop) : Multiset ρ →
    List (RefEvent ρ) → Multiset ρ → Prop where
  | nil {held} : Replay alive held [] held
  | get {held held' evs r} : alive r → Replay alive (r ::ₘ held) evs held' →
    Replay alive held (.get r :: evs) held'
  | put {held held' evs r} : Replay alive held evs held' →
    Replay alive (r ::ₘ held) (.put r :: evs) held'
  | use {held held' evs r} : Replay alive (r ::ₘ held) evs held' →
    Replay alive (r ::ₘ held) (.use r :: evs) held'

namespace Replay
variable {ρ : Type} {alive : ρ → Prop} {held held' held'' : Multiset ρ}
    {evs evs' : List (RefEvent ρ)}

lemma append (h : Replay alive held evs held') (h' : Replay alive held' evs' held'') :
    Replay alive held (evs ++ evs') held'' := by
  induction h with
  | nil => exact h'
  | get hr _ ih => exact .get hr (ih h')
  | put _ ih => exact .put (ih h')
  | use _ ih => exact .use (ih h')

lemma frame (h : Replay alive held evs held') (others : Multiset ρ) :
    Replay alive (held + others) evs (held' + others) := by
  induction h with
  | nil => exact .nil
  | get hr _ ih =>
    rw [Multiset.cons_add] at ih
    exact .get hr ih
  | put _ ih =>
    rw [Multiset.cons_add]
    exact .put ih
  | use _ ih =>
    rw [Multiset.cons_add] at ih ⊢
    exact .use ih

lemma frame_left (h : Replay alive held evs held') (others : Multiset ρ) :
    Replay alive (others + held) evs (others + held') := by
  rw [Multiset.add_comm others, Multiset.add_comm others]
  exact h.frame others

lemma held_use {r : ρ} (h : Replay alive held (evs ++ .use r :: evs') held') :
    ∃ held'', Replay alive held evs (r ::ₘ held'') := by
  generalize hall : evs ++ .use r :: evs' = all at h
  induction h generalizing evs with
  | nil => cases evs <;> cases hall
  | get hr _ ih =>
    cases evs with
    | nil => cases hall
    | cons =>
      cases hall
      obtain ⟨held'', h'⟩ := ih rfl
      exact ⟨held'', .get hr h'⟩
  | put _ ih =>
    cases evs with
    | nil => cases hall
    | cons =>
      cases hall
      obtain ⟨held'', h'⟩ := ih rfl
      exact ⟨held'', .put h'⟩
  | use _ ih =>
    cases evs with
    | nil =>
      cases hall
      exact ⟨_, .nil⟩
    | cons =>
      cases hall
      obtain ⟨held'', h'⟩ := ih rfl
      exact ⟨held'', .use h'⟩

variable [DecidableEq ρ]

lemma refsAfter_eq (h : Replay alive held evs held') {refs : ρ → Nat}
    (hpos : ∀ r, alive r → 0 < refs r) :
    refsAfter (fun r => refs r + held.count r) evs = fun r => refs r + held'.count r := by
  induction h with
  | nil => rfl
  | @get held _ _ r halive _ ih =>
    have hr := hpos r halive
    have hstep : Function.update (fun r => refs r + held.count r) r (refs r + held.count r + 1) =
        fun r' => refs r' + (r ::ₘ held).count r' := by
      funext r'
      by_cases heq : r' = r
      · subst heq
        rw [Function.update_self, Multiset.count_cons_self, Nat.add_assoc]
      · rw [Function.update_of_ne heq, Multiset.count_cons_of_ne heq]
    rw [refsAfter, if_neg (by omega), hstep]
    exact ih
  | @put held _ _ r _ ih =>
    have hstep : Function.update (fun r' => refs r' + (r ::ₘ held).count r') r
        (refs r + (r ::ₘ held).count r - 1) = fun r' => refs r' + held.count r' := by
      funext r'
      by_cases heq : r' = r
      · subst heq
        rw [Function.update_self, Multiset.count_cons_self, ← Nat.add_assoc, Nat.add_sub_cancel]
      · rw [Function.update_of_ne heq, Multiset.count_cons_of_ne heq]
    rw [refsAfter, hstep]
    exact ih
  | use _ ih => exact ih

lemma count_eq (h : Replay alive held evs held') (r : ρ) :
    held'.count r + evs.count (.put r) = held.count r + evs.count (.get r) := by
  induction h with
  | nil => rfl
  | get _ _ ih =>
    simp only [Multiset.count_cons, List.count_cons, beq_iff_eq,
      RefEvent.get.injEq, reduceCtorEq] at ih ⊢
    grind
  | put _ ih =>
    simp only [Multiset.count_cons, List.count_cons, beq_iff_eq,
      RefEvent.put.injEq, reduceCtorEq] at ih ⊢
    grind
  | use _ ih =>
    simp only [List.count_cons, beq_iff_eq, reduceCtorEq] at ih ⊢
    exact ih

end Replay

/-- The counts are the same after a trace as before it, and each object is used while there is a
reference to it that was not there before. -/
def RefsKept {ρ : Type} [DecidableEq ρ] (refs : ρ → Nat) (evs : List (RefEvent ρ)) : Prop :=
  refsAfter refs evs = refs ∧
    ∀ evs' r evs'', evs = evs' ++ .use r :: evs'' → refs r < refsAfter refs evs' r

section
variable {ρ : Type} [DecidableEq ρ] {alive : ρ → Prop} {held : Multiset ρ} {evs : List (RefEvent ρ)}
  {refs : ρ → Nat}

lemma Replay.refsAfter_start (h : Replay alive 0 evs held) (hpos : ∀ r, alive r → 0 < refs r) :
    refsAfter refs evs = fun r => refs r + held.count r := by
  have hzero : (fun r => refs r + (0 : Multiset ρ).count r) = refs := by
    funext r
    rw [Multiset.count_zero, Nat.add_zero]
  have hafter := h.refsAfter_eq hpos
  rwa [hzero] at hafter

/-- A function that holds no references after it either keeps the counts. -/
lemma Replay.refsKept (h : Replay alive 0 evs 0) (hpos : ∀ r, alive r → 0 < refs r) :
    RefsKept refs evs := by
  refine ⟨h.refsAfter_start hpos, fun evs' r evs'' heq => ?_⟩
  subst heq
  obtain ⟨held, hheld⟩ := h.held_use
  rw [hheld.refsAfter_start hpos]
  dsimp only
  rw [Multiset.count_cons_self]
  omega

lemma Replay.not_refsKept (h : Replay alive 0 evs held) (hpos : ∀ r, alive r → 0 < refs r)
    (hheld : held ≠ 0) : ¬ RefsKept refs evs := by
  rintro ⟨hkept, -⟩
  refine hheld (Multiset.ext.2 fun r => ?_)
  have hafter := congrFun (h.refsAfter_start hpos) r
  rw [hkept] at hafter
  rw [Multiset.count_zero]
  omega

lemma Replay.not_refsKept_use (h : Replay alive 0 evs 0) (hpos : ∀ r, alive r → 0 < refs r) (r : ρ)
    (evs' : List (RefEvent ρ)) : ¬ RefsKept refs (evs ++ .use r :: evs') := by
  rintro ⟨-, huse⟩
  have hlt := huse evs r evs' rfl
  rw [h.refsAfter_start hpos] at hlt
  exact Nat.lt_irrefl _ hlt

end

/-! ## Things that are allocated and freed -/

/-- Everything that a trace takes it takes once and gives back once. -/
def GivenBackOnce {ρ : Type} [DecidableEq ρ] (evs : List (RefEvent ρ)) : Prop :=
  ∀ r, evs.count (.get r) ≤ 1 ∧ evs.count (.put r) = evs.count (.get r)

/-- A trace that takes everything at most once gives it back if nothing is held in the end. -/
lemma Replay.givenBackOnce_iff {ρ : Type} [DecidableEq ρ] {alive : ρ → Prop} {held : Multiset ρ}
    {evs : List (RefEvent ρ)} (h : Replay alive 0 evs held) (honce : ∀ r, evs.count (.get r) ≤ 1) :
    GivenBackOnce evs ↔ held = 0 := by
  have hcount (r : ρ) : held.count r + evs.count (.put r) = evs.count (.get r) := by
    rw [h.count_eq r, Multiset.count_zero, Nat.zero_add]
  constructor
  · intro hback
    refine Multiset.ext.2 fun r => ?_
    have := hcount r
    have := (hback r).2
    rw [Multiset.count_zero]
    omega
  · rintro rfl r
    exact ⟨honce r, by rw [← hcount r, Multiset.count_zero, Nat.zero_add]⟩

end Ntrdma.Lib
