import Ntrdma.Link.Progress

/-!
# The outputs of the hello phases

What a side has written in its session, given its state: the announcements of the phases that it
completed, and their outputs. The hello buffer has two halves, which the phases use in turn, so the
output of a phase is there until the phase after the next one begins (`HoldsOutput`).
-/

namespace Ntrdma
open Lib

/-- The write belongs to the hello: to a half of the buffer, or an announcement of a completed
phase. -/
def Stamped.late (w : Stamped) : Bool :=
  match w.write with
  | .hello _ _ => true
  | .ping msg => 8 ≤ msg
  | .done _ => false

/-! ## Outputs -/

/-- The last write to the half of a phase is its whole output, at a place that was `seen`, or
belongs to a later phase of the session. -/
def HoldsOutput (sess phase : Nat) (seen : Nat → Prop) (writes : List Stamped) : Prop :=
  ∃ before last whole after, writes = before ++ ⟨sess, .hello last whole⟩ :: after ∧
    (∀ w ∈ after, w.inHalf (phase % 2) = false) ∧ last % 2 = phase % 2 ∧ phase ≤ last ∧
    (last = phase → whole = true ∧ seen before.length)

section
variable {sess phase : Nat} {seen seen' : Nat → Prop} {writes ws : List Stamped} {w : Stamped}

lemma HoldsOutput.mono (h : HoldsOutput sess phase seen writes) (hseen : ∀ i, seen i → seen' i) :
    HoldsOutput sess phase seen' writes := by
  obtain ⟨before, last, whole, after, heq, hafter, hhalf, hle, hlast⟩ := h
  exact ⟨before, last, whole, after, heq, hafter, hhalf, hle, fun h => (hlast h).imp id (hseen _)⟩

lemma HoldsOutput.snoc (h : HoldsOutput sess phase seen writes)
    (hw : w.inHalf (phase % 2) = true → ∃ last whole,
      w = ⟨sess, .hello last whole⟩ ∧ phase < last) :
    HoldsOutput sess phase seen (writes ++ [w]) := by
  cases hhalf : w.inHalf (phase % 2) with
  | false =>
    obtain ⟨before, last, whole, after, rfl, hafter, hrest⟩ := h
    refine ⟨before, last, whole, after ++ [w], by
      rw [List.append_assoc, List.cons_append], ?_, hrest⟩
    intro w' hw'
    obtain hmem | hmem := List.mem_append.mp hw'
    · exact hafter w' hmem
    · rwa [List.mem_singleton.mp hmem]
  | true =>
    obtain ⟨last, whole, rfl, hlt⟩ := hw hhalf
    have hparity : last % 2 = phase % 2 := beq_iff_eq.mp hhalf
    exact ⟨writes, last, whole, [], rfl, nofun, hparity, hlt.le, fun h => absurd h (by omega)⟩

lemma HoldsOutput.append (h : HoldsOutput sess phase seen writes)
    (hws : ∀ w ∈ ws, w.inHalf (phase % 2) = true →
      ∃ last whole, w = ⟨sess, .hello last whole⟩ ∧ phase < last) :
    HoldsOutput sess phase seen (writes ++ ws) := by
  induction ws generalizing writes with
  | nil => rwa [List.append_nil]
  | cons w _ ih =>
    rw [List.append_cons]
    exact ih (h.snoc (hws w (List.mem_cons_self ..))) fun w' hw' =>
      hws w' (List.mem_cons_of_mem _ hw')

end

def Announces (writes : List Stamped) (i : Nat) : Prop :=
  ∃ before w after, writes = before ++ w :: after ∧ w.write.msg? ≠ none ∧ i < before.length

lemma Announces.append {writes : List Stamped} {i : Nat} (h : Announces writes i)
    (ws : List Stamped) : Announces (writes ++ ws) i := by
  obtain ⟨before, w, after, rfl, hw, hi⟩ := h
  exact ⟨before, w, after ++ ws, by rw [List.append_assoc, List.cons_append], hw, hi⟩

namespace LinkDev

structure Written (dev : LinkDev) : Prop where
  sess_le : ∀ w ∈ dev.out, w.sess ≤ dev.resetCnt
  ping : ∀ phase, 8 + phase ≤ dev.linkState → ⟨dev.resetCnt, .ping (8 + phase)⟩ ∈ dev.out
  output : ∀ phase ≤ 2, 8 + phase ≤ dev.linkState →
    HoldsOutput dev.resetCnt phase (Announces dev.out) dev.out

/-- A side writes nothing of the hello before it is in it, and to the buffer only the output of its
phase. -/
structure Writes (dev dev' : LinkDev) (w : Stamped) : Prop where
  sess : w.sess = dev'.resetCnt
  late : w.late = true → 7 ≤ dev.linkState ∧ dev'.resetCnt = dev.resetCnt
  hello : ∀ phase whole, w.write = .hello phase whole → dev.linkState = 7 + phase ∧
    ∃ event, dev.event = some event ∧ dev.linkState ≤ event

section
variable {dev dev' : LinkDev} {event : Nat}

lemma writes_ping {msg : Nat} (hmsg : msg ≤ 7) : Writes dev dev' ⟨dev'.resetCnt, .ping msg⟩ :=
  ⟨rfl, fun hlate => absurd (of_decide_eq_true hlate) (by omega), fun _ _ h => absurd h nofun⟩

lemma Back.writes (h : Back dev dev') : ∃ ws, dev'.out = dev.out ++ ws ∧
    ∀ w ∈ ws, Writes dev dev' w := by
  refine ⟨_, h.out, fun w hw => ?_⟩
  rw [List.mem_singleton.mp hw, ← h.sess]
  exact writes_ping (le_trans h.st (by decide))

lemma Progress.writes (hprog : Progress event dev dev') (hev : dev.event = some event)
    (hhello : dev.inHello = true → dev.linkState ≤ event) :
    ∃ ws, dev'.out = dev.out ++ ws ∧ ∀ w ∈ ws, Writes dev dev' w := by
  cases hprog with
  | back hback => exact hback.writes
  | reset _ _ _ _ _ _ hout =>
    exact ⟨_, hout, fun w hw => List.mem_singleton.mp hw ▸ writes_ping (by decide)⟩
  | next _ _ _ _ hsess _ _ _ _ hflag hout =>
    refine ⟨_, hout.trans (List.append_assoc ..), fun w hw => ?_⟩
    obtain hmem | hmem := List.mem_append.mp hw
    · rw [hflag w hmem]
      exact ⟨hsess.symm, nofun, nofun⟩
    · rw [List.mem_singleton.mp hmem, ← hsess]
      exact writes_ping (by omega)
  | stay _ _ _ _ _ _ hout => exact ⟨[], hout.trans (List.append_nil _).symm, nofun⟩
  | helloBegin hge _ _ hsess _ _ _ _ hout =>
    refine ⟨_, hout, fun w hw => ?_⟩
    split at hw
    · rw [List.mem_singleton.mp hw]
      refine ⟨hsess.symm, fun _ => ⟨hge, hsess⟩, fun phase whole heq => ?_⟩
      obtain ⟨rfl, -⟩ := LinkWrite.hello.inj heq
      exact ⟨by omega, event, hev, by omega⟩
    · cases hw
  | helloDone hge _ _ hsess _ _ _ hwas hout =>
    refine ⟨_, hout.trans (List.append_assoc ..), fun w hw => ?_⟩
    obtain hmem | hmem := List.mem_append.mp hw
    · rw [List.mem_singleton.mp hmem]
      refine ⟨hsess.symm, fun _ => ⟨hge, hsess⟩, fun phase whole heq => ?_⟩
      dsimp only at heq
      split at heq
      · obtain ⟨rfl, -⟩ := LinkWrite.hello.inj heq
        exact ⟨by omega, event, hev, hhello hwas⟩
      · cases heq
    · rw [List.mem_singleton.mp hmem]
      exact ⟨hsess.symm, fun _ => ⟨hge, hsess⟩, nofun⟩

lemma written_of_lt (hst : dev.linkState < 8) (hsess : ∀ w ∈ dev.out, w.sess ≤ dev.resetCnt) :
    dev.Written :=
  ⟨hsess, fun _ h => absurd h (by omega), fun _ _ h => absurd h (by omega)⟩

variable {ws : List Stamped}

lemma Written.output_append (h : dev.Written) (hout : dev'.out = dev.out ++ ws)
    (hws : ∀ w ∈ ws, Writes dev dev' w) (hsess : dev'.resetCnt = dev.resetCnt) {phase : Nat}
    (h2 : phase ≤ 2) (hphase : 8 + phase ≤ dev.linkState) : HoldsOutput dev'.resetCnt phase
      (Announces dev'.out) dev'.out := by
  rw [hout]
  refine ((hsess ▸ h.output phase h2 hphase).mono fun _ hi =>
    hi.append ws).append fun w hw hhalf => ?_
  obtain ⟨sess, write⟩ := w
  cases write with
  | ping => cases hhalf
  | done => cases hhalf
  | hello last whole =>
    have hwrites := hws _ hw
    exact ⟨last, whole, by rw [← hwrites.sess], by have := (hwrites.hello last whole rfl).1; omega⟩

lemma Progress.written (hprog : Progress event dev dev') (h : dev.Written)
    (hout : dev'.out = dev.out ++ ws) (hws : ∀ w ∈ ws, Writes dev dev' w) : dev'.Written := by
  have hsess_le : ∀ w ∈ dev'.out, w.sess ≤ dev'.resetCnt := by
    intro w hw
    rw [hout] at hw
    obtain hmem | hmem := List.mem_append.mp hw
    · exact (h.sess_le w hmem).trans hprog.sess_le
    · exact (hws w hmem).sess.le
  cases hprog with
  | back hback => exact written_of_lt (lt_of_le_of_lt hback.st (by decide)) hsess_le
  | reset => exact written_of_lt (by omega) hsess_le
  | next => exact written_of_lt (by omega) hsess_le
  | stay hst hsess =>
    refine ⟨hsess_le, fun phase hphase => ?_, fun phase h2 hphase => ?_⟩
    · rw [hout, hsess]
      exact List.mem_append_left _ (h.ping phase (hst ▸ hphase))
    · exact h.output_append hout hws hsess h2 (hst ▸ hphase)
  | helloBegin _ hst _ hsess =>
    refine ⟨hsess_le, fun phase hphase => ?_, fun phase h2 hphase => ?_⟩
    · rw [hout, hsess]
      exact List.mem_append_left _ (h.ping phase (hst ▸ hphase))
    · exact h.output_append hout hws hsess h2 (hst ▸ hphase)
  | helloDone _ _ _ hsess _ _ _ _ hout' =>
    refine ⟨hsess_le, fun phase hphase => ?_, fun phase h2 hphase => ?_⟩
    · rw [hout', hsess]
      obtain hlt | heq : 8 + phase ≤ dev.linkState ∨ 8 + phase = dev'.linkState := by omega
      · exact List.mem_append_left _ (List.mem_append_left _ (h.ping phase hlt))
      · rw [heq]
        exact List.mem_append_right _ (List.mem_singleton_self _)
    · obtain hlt | heq : 8 + phase ≤ dev.linkState ∨ phase = dev.linkState - 7 := by omega
      · exact h.output_append hout hws hsess h2 hlt
      · rw [if_pos (by omega : dev.linkState ≤ 9), ← heq] at hout'
        refine ⟨dev.out, phase, true, [⟨dev.resetCnt, .ping dev'.linkState⟩], ?_, ?_, rfl,
          le_rfl, fun _ => ⟨rfl, ?_⟩⟩
        · rw [hout', hsess, List.append_assoc, List.singleton_append]
        · exact fun w hw => List.mem_singleton.mp hw ▸ rfl
        · exact ⟨_, _, [], hout', nofun, by simp⟩

end

end LinkDev

end Ntrdma
