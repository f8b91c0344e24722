import Mathlib.Tactic
import Mathlib.Logic.Relation

/-!
# Runs of a system

A system is given by its steps: a relation between a state, an action and the next state. A property
that one step keeps holds in every state of a run (`Reaches.invariant`).
-/

namespace Ntrdma.Lib

section
variable {σ α : Type} {step : σ → α → σ → Prop} {s t u : σ}

/-- A run of steps leads from one state to the other. -/
def Reaches (step : σ → α → σ → Prop) : σ → σ → Prop :=
  Relation.ReflTransGen fun s t => ∃ a, step s a t

lemma Reaches.refl : Reaches step s s := Relation.ReflTransGen.refl

lemma Reaches.snoc {a : α} (h : Reaches step s t) (ha : step t a u) : Reaches step s u :=
  Relation.ReflTransGen.tail h ⟨a, ha⟩

lemma Reaches.trans (h : Reaches step s t) (h' : Reaches step t u) : Reaches step s u :=
  Relation.ReflTransGen.trans h h'

lemma Reaches.mono {step' : σ → α → σ → Prop} (h : Reaches step s t)
    (hstep : ∀ s a t, step s a t → step' s a t) : Reaches step' s t :=
  Relation.ReflTransGen.mono (fun _ _ ⟨a, ha⟩ => ⟨a, hstep _ a _ ha⟩) _ _ h

variable {apply : σ → α → Option σ}

/-- A list of actions that all can be carried out is a run. -/
lemma Reaches.of_foldlM {l : List α} (h : l.foldlM apply s = some t) :
    Reaches (fun s a t => apply s a = some t) s t := by
  induction l generalizing s with
  | nil =>
    rw [Option.some.inj h]
    exact Reaches.refl
  | cons a _ ih =>
    rw [List.foldlM_cons] at h
    obtain ⟨u, hu, hrest⟩ := Option.bind_eq_some_iff.mp h
    exact Relation.ReflTransGen.head ⟨a, hu⟩ (ih hrest)

/-- A list of actions that can be carried out one after the other, with a test of the state it leads
to. -/
lemma Reaches.exists_of_foldlM (l : List α) {p : σ → Bool}
    (happly : ∀ s a t, apply s a = some t → step s a t) (h : (l.foldlM apply s).any p = true) :
    ∃ t, Reaches step s t ∧ p t = true := by
  obtain ⟨t, ht, hp⟩ := (Option.any_eq_true ..).mp h
  exact ⟨t, (Reaches.of_foldlM ht).mono happly, hp⟩

/-- What holds at the start and is kept by every step holds in every state of a run. -/
lemma Reaches.invariant {I : σ → Prop} (h : Reaches step s t) (hs : I s)
    (hstep : ∀ s a t, I s → step s a t → I t) : I t := by
  induction h with
  | refl => exact hs
  | tail _ hlast ih =>
    obtain ⟨a, ha⟩ := hlast
    exact hstep _ a _ ih ha

/-- Where every step is matched by a run of another system, every run is. -/
lemma Reaches.simulate {τ β : Type} {step' : τ → β → τ → Prop} {R : σ → τ → Prop} {s' : τ}
    (h : Reaches step s t) (hs : R s s')
    (hstep : ∀ s a t s', R s s' → step s a t → ∃ t', Reaches step' s' t' ∧ R t t') :
    ∃ t', Reaches step' s' t' ∧ R t t' := by
  induction h with
  | refl => exact ⟨s', .refl, hs⟩
  | tail _ hlast ih =>
    obtain ⟨u', hu', hR⟩ := ih
    obtain ⟨a, ha⟩ := hlast
    obtain ⟨t', ht', hR'⟩ := hstep _ a _ u' hR ha
    exact ⟨t', hu'.trans ht', hR'⟩

end

/-! ## Properties of all states of a run -/

section
variable {σ α : Type} (exec : σ → α → Option σ)

/-- All actions of a list can be carried out, and the property holds in every state on the way. -/
def Always (P : σ → Prop) : σ → List α → Prop
  | s, [] => P s
  | s, a :: l => P s ∧ ∃ t, exec s a = some t ∧ Always P t l

/-- Every action of a list meets a condition in the state in which it is carried out. -/
def Each (Q : σ → α → Prop) : σ → List α → Prop
  | _, [] => True
  | s, a :: l => Q s a ∧ ∀ t, exec s a = some t → Each Q t l

variable {exec}

variable {P : σ → Prop} {s : σ} {l : List α}

lemma Always.head (h : Always exec P s l) : P s := by
  cases l with
  | nil => exact h
  | cons => exact h.1

lemma Always.foldlM (h : Always exec P s l) : ∃ t, l.foldlM exec s = some t ∧ P t := by
  induction l generalizing s with
  | nil => exact ⟨s, rfl, h⟩
  | cons _ _ ih =>
    obtain ⟨-, u, hu, hl⟩ := h
    rw [List.foldlM_cons, hu]
    exact ih hl

lemma Each.of_forall {Q : α → Prop} (h : ∀ a ∈ l, Q a) : Each exec (fun _ a => Q a) s l := by
  induction l generalizing s with
  | nil => exact trivial
  | cons a _ ih =>
    exact ⟨h a List.mem_cons_self, fun _ _ => ih fun b hb => h b (List.mem_cons_of_mem _ hb)⟩

section
variable {P I : σ → Prop} {Q : σ → α → Prop} (hP : ∀ s, I s → P s)
  (hkeep : ∀ s a, I s → Q s a → ∃ t, exec s a = some t ∧ I t)

include hP hkeep

variable {s : σ}

/-- Where the actions that meet a condition can be carried out and keep an invariant, the invariant
always holds if each action meets it. -/
lemma Each.always (hs : I s) {l : List α} (h : Each exec Q s l) : Always exec P s l := by
  induction l generalizing s with
  | nil => exact hP s hs
  | cons a _ ih =>
    obtain ⟨t, ht, hI⟩ := hkeep s a hs h.1
    exact ⟨hP s hs, t, ht, ih hI (h.2 t ht)⟩

/-- Where in addition all other actions lead to a state without the property, it always holds
exactly if each action meets the condition. -/
lemma always_iff_each (hbreak : ∀ s a t, I s → ¬ Q s a → exec s a = some t → ¬ P t) (hs : I s)
    (l : List α) : Always exec P s l ↔ Each exec Q s l := by
  refine ⟨fun h => ?_, fun h => h.always hP hkeep hs⟩
  induction l generalizing s with
  | nil => exact trivial
  | cons a _ ih =>
    obtain ⟨-, t, ht, hl⟩ := h
    have hQ : Q s a := by
      by_contra hQ
      exact hbreak s a t hs hQ ht hl.head
    refine ⟨hQ, fun u hu => ?_⟩
    obtain ⟨t', ht', hI⟩ := hkeep s a hs hQ
    rw [ht] at ht' hu
    cases ht'
    cases hu
    exact ih hI hl

end

end

end Ntrdma.Lib
