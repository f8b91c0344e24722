import Ntrdma.Link.Agreement

/-!
# Resetting under the peer

`ntc_ctx_reset` frees buffers that the peer writes while it is up. The link work resets right after
it quiesced, without looking at the state of the peer, which may be up by an announcement of the
very session that is torn down (`reset_under_peer`).

An announcement names no session. The sessions are therefore followed beside the link: whose
announcement a side polled last, by whose its link work goes, and by whose it came up (`LinkTrace`).
What is followed was announced (`Sourced`), so that a side which never announced the last state of
the hello in a session leaves no peer up in it, neither when it is reset nor later
(`reset_peer_down`).
-/

namespace Ntrdma
open Lib

/-- The announcement that was made last. -/
def lastAnnounced (writes : List Stamped) : Option Stamped :=
  (writes.filter fun w => w.write.msg?.isSome).getLast?

lemma LinkWrite.eq_ping_of_msg {write : LinkWrite} {msg : Nat} (h : write.msg? = some msg) :
    write = .ping msg := by
  cases write with
  | ping => rw [Option.some.inj h]
  | done => cases h
  | hello => cases h

lemma lastAnnounced_of_lastPing {writes : List Stamped} (hne : lastPing writes ≠ linkQuiesce) :
    ∃ w ∈ writes, lastAnnounced writes = some w ∧ w.write = .ping (lastPing writes) := by
  by_cases hany : ∃ w ∈ writes, w.write.msg?.isSome
  · obtain ⟨before, w, after, rfl, hw, hafter⟩ := exists_last_write hany
    obtain ⟨msg, hmsg⟩ := Option.isSome_iff_exists.mp hw
    have hnone : after.filter (fun w => w.write.msg?.isSome) = [] :=
      List.filter_eq_nil_iff.mpr fun w' hw' => by simp [hafter w' hw']
    refine ⟨w, by simp, by simp [lastAnnounced, hw, hnone], ?_⟩
    rw [lastPing, lastWritten_append_cons hmsg hafter]
    exact LinkWrite.eq_ping_of_msg hmsg
  · refine absurd (lastWritten_append (l := []) fun w hw => ?_) hne
    by_contra hsome
    exact hany ⟨w, hw, Option.isSome_iff_ne_none.mpr hsome⟩

/-- The sessions of the peer whose announcements a side polled last, goes by in its link work, and
came up by. -/
structure Source where
  poll : Option Nat
  event : Option Nat
  up : Option Nat

/-- Both sides, with the sessions that they go by. -/
structure LinkTrace where
  link : Link
  source : Bool → Source

namespace Link
variable {s t : Link} {x : Bool} {a : Act} {src : Source} {origin : Option Nat}

/-- The sessions that a side goes by after an action. -/
def follow (s t : Link) (x : Bool) (a : Act) (src : Source) : Source where
  poll :=
    if a = .poll then (lastAnnounced (s.arrived x)).map Stamped.sess
    else if a = .lose then none else src.poll
  event := if a = .begin then src.poll else src.event
  up := if s.ComesUp t x then src.event else src.up

/-- The peer of a side announced the last state of the hello in a session. -/
def Told (s : Link) (x : Bool) (origin : Option Nat) : Prop :=
  ∃ sess, origin = some sess ∧ ⟨sess, .ping (linkHello + 3)⟩ ∈ (s (!x)).dev.out

/-- A side that goes by the last state of the hello was told of it, and so was one that is up. -/
structure Sourced (s : Link) (x : Bool) (src : Source) : Prop where
  poll : (s x).dev.pollMsg = linkHello + 3 → s.Told x src.poll
  event : (s x).dev.event = some (linkHello + 3) → s.Told x src.event
  up : (s x).dev.linkIsUp = true → s.Told x src.up

lemma Told.mono (h : s.Told x origin) (hout : (s (!x)).dev.out ⊆ (t (!x)).dev.out) :
    t.Told x origin := by
  obtain ⟨sess, rfl, hmem⟩ := h
  exact ⟨sess, rfl, hout hmem⟩

lemma told_of_poll (h : lastPing (s.arrived x) = linkHello + 3) :
    s.Told x ((lastAnnounced (s.arrived x)).map Stamped.sess) := by
  have hne : lastPing (s.arrived x) ≠ linkQuiesce := by
    rw [h]
    decide
  obtain ⟨w, hmem, hlast, hwrite⟩ := lastAnnounced_of_lastPing hne
  refine ⟨w.sess, by rw [hlast]; rfl, ?_⟩
  rw [h] at hwrite
  exact hwrite ▸ List.mem_of_mem_take hmem

lemma Moved.poll_eq {n : LinkNode} (hmoved : s.Moved x a n) (ha : a ≠ .poll) (ha' : a ≠ .lose) :
    n.dev.pollMsg = (s x).dev.pollMsg := by
  cases hmoved with
  | arrive _ heq => rw [heq]
  | poll hpoll => exact absurd hpoll ha
  | lose hlose => exact absurd hlose ha'
  | begin _ _ heq => rw [heq]
  | error hback => exact hback.poll
  | work _ _ hprog => exact hprog.kept.1

lemma Moved.event_eq {n : LinkNode} {event : Nat} (hmoved : s.Moved x a n) (ha : a ≠ .begin)
    (hev : n.dev.event = some event) : (s x).dev.event = some event := by
  have hkept (h : n.dev.event = none ∨ n.dev.event = (s x).dev.event) :
      (s x).dev.event = some event := by
    obtain hnone | hsame := h
    · cases hnone.symm.trans hev
    · exact hsame.symm.trans hev
  cases hmoved with
  | arrive _ heq => exact hkept (.inr (by rw [heq]))
  | poll _ heq => exact hkept (.inr (by rw [heq]))
  | lose _ heq => exact hkept (.inr (by rw [heq]))
  | begin hbegin => exact absurd hbegin ha
  | error hback => exact hkept hback.ev
  | work _ _ hprog => exact hkept hprog.kept.2

/-- What a side goes by after an action of its own was announced by the peer. -/
lemma Sourced.own (h : s.Sourced x src) (ho : (s x).dev.Orderly) (hstep : s.Step (x, a) t) :
    t.Sourced x (s.follow t x a src) := by
  obtain ⟨hnode, hother⟩ := hstep.node
  have hmoved := act_moved hnode ho
  have htold {origin : Option Nat} (hs : s.Told x origin) : t.Told x origin :=
    hs.mono (hother ▸ List.Subset.refl _)
  simp only [follow]
  refine ⟨fun hpoll => ?_, fun hev => ?_, fun hup => ?_⟩
  · dsimp only
    split_ifs with ha ha'
    · subst ha
      rw [← Option.some.inj hnode] at hpoll
      exact htold (told_of_poll hpoll)
    · subst ha'
      rw [← Option.some.inj hnode] at hpoll
      exact absurd hpoll (show ¬ linkQuiesce = linkHello + 3 by decide)
    · exact htold (h.poll (hmoved.poll_eq ha ha' ▸ hpoll))
  · dsimp only
    split_ifs with ha
    · subst ha
      obtain ⟨dev, hdev, heq⟩ := Option.map_eq_some_iff.mp hnode
      obtain rfl := Option.some.inj (Option.ite_none_right_eq_some.mp hdev).2
      rw [← heq] at hev
      exact htold (h.poll (Option.some.inj hev))
    · exact htold (h.event (hmoved.event_eq ha hev))
  · dsimp only
    split_ifs with hcomes
    · exact htold (h.event (hstep.comesUp hcomes ho).2.1)
    · refine htold (h.up ?_)
      by_contra hdown
      exact hcomes ⟨Bool.eq_false_iff.mpr hdown, hup⟩

lemma Sourced.peer (h : s.Sourced (!x) src) (ho : (s x).dev.Orderly) (hstep : s.Step (x, a) t) :
    t.Sourced (!x) src := by
  obtain ⟨hnode, hother⟩ := hstep.node
  obtain ⟨ws, hout, -⟩ := (act_moved hnode ho).out_append
  have htold {origin : Option Nat} (hs : s.Told (!x) origin) : t.Told (!x) origin := by
    refine hs.mono ?_
    rw [Bool.not_not, hout]
    exact List.subset_append_left ..
  refine ⟨fun hpoll => ?_, fun hev => ?_, fun hup => ?_⟩
  · exact htold (h.poll (hother ▸ hpoll))
  · exact htold (h.event (hother ▸ hev))
  · exact htold (h.up (hother ▸ hup))

def Resets (s t : Link) (x : Bool) : Prop := (t x).dev.resetCnt ≠ (s x).dev.resetCnt

instance (s t : Link) (x : Bool) : Decidable (s.Resets t x) := inferInstanceAs (Decidable (_ ≠ _))

/-- A side left a session without having announced the last state of the hello in it. -/
structure LeftSilent (s : Link) (x : Bool) (sess : Nat) : Prop where
  past : sess < (s x).dev.resetCnt
  silent : ⟨sess, .ping (linkHello + 3)⟩ ∉ (s x).dev.out

/-- Nothing is written any more in a session that was left. -/
lemma Moved.silent {n : LinkNode} {sess : Nat} {w : LinkWrite} (hmoved : s.Moved x a n)
    (hpast : sess < n.dev.resetCnt) (h : ⟨sess, w⟩ ∉ (s x).dev.out) : ⟨sess, w⟩ ∉ n.dev.out := by
  obtain ⟨ws, hout, hws⟩ := hmoved.out_append
  rw [hout, List.mem_append, not_or]
  exact ⟨h, fun hmem => absurd (hws _ hmem) hpast.ne⟩

end Link

namespace LinkTrace
variable {s t u : LinkTrace} {x : Bool} {a : Link.Act}

def apply (s : LinkTrace) (a : Bool × Link.Act) : Option LinkTrace :=
  (s.link.apply a).map fun t =>
    ⟨t, Function.update s.source a.1 (s.link.follow t a.1 a.2 (s.source a.1))⟩

def Step (s : LinkTrace) (a : Bool × Link.Act) (t : LinkTrace) : Prop := s.apply a = some t

def start : LinkTrace := ⟨Link.start, fun _ => ⟨none, none, none⟩⟩

/-- A side is up by an announcement that its peer made in a session. -/
def UpIn (s : LinkTrace) (x : Bool) (sess : Nat) : Prop :=
  (s.link x).dev.linkIsUp = true ∧ (s.source x).up = some sess

instance (s : LinkTrace) (x : Bool) (sess : Nat) : Decidable (s.UpIn x sess) :=
  inferInstanceAs (Decidable (_ ∧ _))

lemma Step.link_step (h : s.Step (x, a) t) : s.link.Step (x, a) t.link ∧
    t.source = Function.update s.source x (s.link.follow t.link x a (s.source x)) := by
  obtain ⟨u, hu, rfl⟩ := Option.map_eq_some_iff.mp h
  exact ⟨hu, rfl⟩

lemma sourced (hrun : Reaches Step start s) :
    Reaches Link.Step Link.start s.link ∧ ∀ x, s.link.Sourced x (s.source x) := by
  refine hrun.invariant (I := fun s => Reaches Link.Step Link.start s.link ∧
    ∀ x, s.link.Sourced x (s.source x)) ⟨.refl, fun _ => ⟨nofun, nofun, nofun⟩⟩ ?_
  rintro s ⟨x, a⟩ t ⟨hlink, h⟩ hstep
  obtain ⟨hact, hsource⟩ := hstep.link_step
  have ho := Link.orderly hlink x
  refine ⟨hlink.snoc hact, Link.both_sides (x := x) ?_ ?_⟩
  · rw [hsource, Function.update_self]
    exact (h x).own ho hact
  · rw [hsource, Function.update_of_ne (by cases x <;> decide)]
    exact (h (!x)).peer ho hact

/-- A side that did not announce the last state of the hello in a session has no peer that is up in
it. -/
lemma not_upIn {sess : Nat} (hrun : Reaches Step start s)
    (hsilent : ⟨sess, .ping (linkHello + 3)⟩ ∉ (s.link x).dev.out) : ¬ s.UpIn (!x) sess := by
  rintro ⟨hup, hsess⟩
  obtain ⟨sess', hsess', hmem⟩ := ((sourced hrun).2 (!x)).up hup
  obtain rfl := Option.some.inj (hsess.symm.trans hsess')
  exact hsilent (Bool.not_not x ▸ hmem)

/-- What a side did not announce in a session before it left it is never announced. -/
lemma leftSilent {sess : Nat} (hrun : Reaches Step start s) (h : s.link.LeftSilent x sess)
    (hlater : Reaches Step s t) : Reaches Step start t ∧ t.link.LeftSilent x sess := by
  refine hlater.invariant (I := fun t => Reaches Step start t ∧
    t.link.LeftSilent x sess) ⟨hrun, h⟩ ?_
  rintro s ⟨y, a⟩ t ⟨hrun, h⟩ hstep
  obtain ⟨hnode, hother⟩ := hstep.link_step.1.node
  refine ⟨hrun.snoc hstep, ?_⟩
  rcases eq_or_ne x y with rfl | hne
  · have hmoved := Link.act_moved hnode (Link.orderly (sourced hrun).1 x)
    have hpast := h.past.trans_le hmoved.sess_le
    exact ⟨hpast, hmoved.silent hpast h.silent⟩
  · obtain rfl : x = !y := by
      cases x <;> cases y <;> trivial
    exact ⟨hother ▸ h.past, hother ▸ h.silent⟩

/-- One side is reset while both are up: it quiesces and resets at once, and the peer is up by an
announcement of the session that is torn down. -/
theorem reset_under_peer : ∃ s t, Reaches Step start s ∧ s.Step (false, .step true) t ∧
    s.link.Resets t.link false ∧ s.UpIn true (s.link false).dev.resetCnt := by
  obtain ⟨s, hrun, hs⟩ : ∃ s, Reaches Step start s ∧
      ((s.apply (false, .step true)).any (fun t => s.link.Resets t.link false) &&
        decide (s.UpIn true (s.link false).dev.resetCnt)) = true :=
    Reaches.exists_of_foldlM (Link.bothUp ++ (false, .error) :: Link.work false 1)
      (fun _ _ _ h => h)
      (by decide +kernel)
  simp only [Bool.and_eq_true, Option.any_eq_true, decide_eq_true_eq] at hs
  obtain ⟨⟨t, hstep, hreset⟩, hup⟩ := hs
  exact ⟨s, t, hrun, hstep, hreset, hup⟩

/-- Where the side that is reset did not announce the last state of the hello in the session it
tears down, the peer is not up in that session, and never will be. -/
theorem reset_peer_down (hrun : Reaches Step start s) (hstep : s.Step (x, a) t)
    (hreset : s.link.Resets t.link x)
    (hsilent : ⟨(s.link x).dev.resetCnt, .ping (linkHello + 3)⟩ ∉ (s.link x).dev.out)
    (hlater : Reaches Step t u) :
    ¬ s.UpIn (!x) (s.link x).dev.resetCnt ∧ ¬ u.UpIn (!x) (s.link x).dev.resetCnt := by
  refine ⟨not_upIn hrun hsilent, ?_⟩
  have hmoved := Link.act_moved hstep.link_step.1.node.1 (Link.orderly (sourced hrun).1 x)
  have hpast := lt_of_le_of_ne hmoved.sess_le hreset.symm
  obtain ⟨hrun', hleft⟩ := leftSilent (hrun.snoc hstep) ⟨hpast, hmoved.silent hpast hsilent⟩ hlater
  exact not_upIn hrun' hleft.silent

/-- The peer is up in the first session while the side is reset at the start of the second. -/
theorem reset_peer_down_second : ∃ s t, Reaches Step start s ∧ s.Step (false, .step true) t ∧
    s.link.Resets t.link false ∧ s.UpIn true 0 ∧ ¬ s.UpIn true 1 := by
  obtain ⟨s, hrun, hs⟩ : ∃ s, Reaches Step start s ∧
      ((s.apply (false, .step true)).any (fun t => s.link.Resets t.link false)
        && decide (s.UpIn true 0) &&
        (s.link false).dev.resetCnt == 1 && !(s.link false).dev.out.contains
          ⟨1, .ping 11⟩) = true :=
    Reaches.exists_of_foldlM (Link.bothUp ++ Link.restart false ++ Link.work false 2 ++
      (false, .error) :: Link.work false 1) (fun _ _ _ h => h) (by decide +kernel)
  simp only [Bool.and_eq_true, Option.any_eq_true, decide_eq_true_eq, beq_iff_eq, Bool.not_eq_true',
    List.contains_eq_mem, decide_eq_false_iff_not] at hs
  obtain ⟨⟨⟨⟨t, hstep, hreset⟩, hup⟩, hone⟩, hsilent⟩ := hs
  have hdown := reset_peer_down hrun hstep hreset (hone ▸ hsilent) .refl
  exact ⟨s, t, hrun, hstep, hreset, hup, hone ▸ hdown.1⟩

end LinkTrace

end Ntrdma
