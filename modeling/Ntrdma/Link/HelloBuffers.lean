import Ntrdma.Link.Pairing

/-!
# The hello buffers

The halves of the hello buffer are neither read before they are written nor written while they are
read. That holds where every poll finds the current state of the peer and the link work goes by no
poll from before the own reset (`Link.SteadyStep`). It fails without the latter: a side that starts
over goes on with a state of its peer from before, and so gets ahead of it by a session.
-/

namespace Ntrdma
open Lib

def LinkDev.reads (dev : LinkDev) (half : Nat) : Bool :=
  dev.inHello && 1 ≤ dev.phase && dev.phase ≤ 3 && (dev.phase - 1) % 2 == half

def LinkDev.writes (dev : LinkDev) (half : Nat) : Bool :=
    dev.inHello && dev.phase ≤ 2 && dev.phase % 2 == half

/-! ## Reading -/

namespace Coupled
variable {p q : Pairing} {n m : LinkNode} {event sess : Nat}

lemma input (phase : Nat) (h : Coupled p q n m) (ho : p.Own n) (hev : n.dev.event = some event)
    (hst : n.dev.linkState = 8 + phase) (hle : n.dev.linkState ≤ event) (h2 : phase ≤ 2)
    (hp : p.entered = some sess) :
    ∃ before after, m.dev.out = before ++ ⟨sess, .hello phase true⟩ ::
      after ∧ n.mark ≤ before.length ∧
      before.length < n.view ∧ ∀ w ∈ after, w.inHalf (phase % 2) = false := by
  obtain ⟨sess', hp', hback⟩ := h.hello_backed (phase + 1) ho hev (by omega) hle (by omega)
  obtain rfl := Option.some.inj (hp.symm.trans hp')
  obtain ⟨before, last, whole, after, hout, hafter, hhalf, hge, hlast⟩ :=
    hback.output phase h2 (by omega)
  have hmem : ⟨sess, .hello last whole⟩ ∈ m.dev.out := by
    rw [hout]
    exact List.mem_append_right _ (List.mem_cons_self ..)
  obtain rfl : last = phase := by
    by_contra hne
    have := h.ahead sess last whole hp (by omega) hmem
    omega
  obtain ⟨rfl, hseen⟩ := hlast rfl
  refine ⟨before, after, hout, ?_, hseen, hafter⟩
  by_contra hlt
  rw [not_le] at hlt
  have htake : ⟨sess, .hello last true⟩ ∈ m.dev.out.take n.mark := by
    rw [hout, List.take_append, List.take_cons (by omega)]
    exact List.mem_append_right _ (List.mem_cons_self ..)
  exact absurd (h.since_mark sess hp _ htake rfl) nofun

end Coupled

lemma lastInHalf_take {before after : List Stamped} {w : Stamped} {half view : Nat}
    (hw : w.inHalf half = true) (hafter : ∀ w ∈ after, w.inHalf half = false)
    (hview : before.length < view) :
    lastInHalf half ((before ++ w :: after).take view) = some w := by
  have hnone (k : Nat) : (after.take k).filter (fun w => w.inHalf half) = [] :=
    List.filter_eq_nil_iff.mpr fun w' hw' => by
      rw [hafter w' (List.mem_of_mem_take hw')]; exact nofun
  rw [lastInHalf, List.take_append, List.take_of_length_le hview.le,
    List.take_cons (by omega), List.filter_append,
    List.filter_cons_of_pos (by exact hw), hnone, List.getLast?_append]
  rfl

/-! ## Steps of the link -/

namespace Link
variable {s t : Link} {x : Bool} {a : Act} {n : LinkNode} {p q : Pairing}

lemma Moved.reached {sess state : Nat} (hmoved : s.Moved x a n) (hle : sess ≤ (s x).dev.resetCnt)
    (h : Reached sess (s x).dev state) : Reached sess n.dev state := by
  cases hmoved with
  | arrive _ heq => exact heq ▸ h
  | poll _ heq => exact heq ▸ h
  | lose _ heq => exact heq ▸ h
  | begin _ _ heq => exact heq ▸ h
  | error hback => exact .inr (.inl hback.st)
  | work _ _ hprog => exact hprog.reached hle h

variable {event : Nat}

lemma hello_le (ho : p.Own n) (hev : n.dev.event = some event) (hin : n.dev.inHello = true) :
    n.dev.linkState ≤ event := by
  obtain ⟨-, event', hev', hle⟩ := ho.hello hin
  rwa [Option.some.inj (hev.symm.trans hev')]

lemma Moved.writes (hmoved : s.Moved x a n) (ho : p.Own (s x)) :
    ∃ ws, n.dev.out = (s x).dev.out ++ ws ∧ ∀ w ∈ ws, LinkDev.Writes (s x).dev n.dev w := by
  cases hmoved with
  | arrive _ heq => exact ⟨[], heq ▸ (List.append_nil _).symm, nofun⟩
  | poll _ heq => exact ⟨[], heq ▸ (List.append_nil _).symm, nofun⟩
  | lose _ heq => exact ⟨[], heq ▸ (List.append_nil _).symm, nofun⟩
  | begin _ _ heq => exact ⟨[], heq ▸ (List.append_nil _).symm, nofun⟩
  | error hback => exact hback.writes
  | work _ hev hprog => exact hprog.writes hev (hello_le ho hev)

lemma Moved.alone (hmoved : s.Moved x a n) (h : Alone (s x))
    (hpoll : a = .poll → lastPing (s.arrived x) ≠ 3 ∧ lastPing (s.arrived x) ≠ 4)
    (hbegin : a = .begin → (s x).polled = true ∨ (s x).dev.pollMsg = 0) : Alone n := by
  cases hmoved with
  | arrive _ heq => exact heq ▸ ⟨h.st, h.poll, h.event⟩
  | poll ha heq => exact heq ▸ ⟨h.st, fun _ => hpoll ha, h.event⟩
  | lose _ heq => exact heq ▸ ⟨h.st, fun _ => ⟨nofun, nofun⟩, h.event⟩
  | begin ha _ heq =>
    refine heq ▸ ⟨h.st, h.poll, fun event hev => ?_⟩
    rw [← Option.some.inj hev]
    obtain hp | h0 := hbegin ha
    · exact h.poll hp
    · rw [h0]
      exact ⟨nofun, nofun⟩
  | error hback heq => exact h.keep (hback.st.trans (by decide)) hback.poll (by rw [heq]) hback.ev
  | work event hev hprog heq =>
    have hst := h.st
    have hne := h.event event hev
    have hpolled (hsess : n.dev.resetCnt = (s x).dev.resetCnt) : n.polled = (s x).polled := by
      rw [heq]
      exact (record_kept hsess).2.2
    cases hprog with
    | back hback =>
      exact h.keep (hback.st.trans (by decide)) hback.poll (hpolled hback.sess) hback.ev
    | reset _ hst' _ _ hev' =>
      refine .fresh hst' hev' ?_
      rw [heq, record_reset (by omega)]
    | next _ _ _ _ hsess hpoll hev' =>
      exact h.keep (by omega) hpoll (hpolled hsess) (.inr hev')
    | stay _ hsess hpoll hev' => exact h.keep (by omega) hpoll (hpolled hsess) (.inl hev')
    | helloBegin => omega
    | helloDone => omega

lemma mem_record_inputs {dev : LinkDev} {sess : Nat} (hmem : sess ∈ (s.record x dev).inputs) :
    sess ∈ (s x).inputs ∨ dev.inHello = true ∧ (s x).dev.inHello = false ∧
      1 ≤ dev.phase ∧ dev.phase ≤ 3 ∧
      ∃ w, lastInHalf ((dev.phase - 1) % 2) (s.arrived x) = some w ∧ w.sess = sess := by
  rw [record] at hmem
  split at hmem
  · cases hmem
  · split at hmem
    next hbegin =>
      simp only [Bool.and_eq_true, decide_eq_true_eq, Bool.not_eq_true'] at hbegin
      obtain hold | hnew := List.mem_append.mp hmem
      · exact .inl hold
      · rw [Option.mem_toList, Option.map_eq_some_iff] at hnew
        exact .inr ⟨hbegin.1.1.1, hbegin.1.1.2, hbegin.1.2, hbegin.2, hnew⟩
    next => exact .inl hmem

lemma work_turn (hev : (s x).dev.event = some event)
    (hprog : LinkDev.Progress event (s x).dev n.dev) (heq : n = s.record x n.dev) (ho : p.Own (s x))
    (hoq : q.Own (s (!x))) (h : Coupled p q (s x) (s (!x))) (hpeer : Coupled q p (s (!x)) (s x)) :
    ∃ p' : Pairing, p'.Own n ∧ Coupled p' q n (s (!x)) ∧
      (p'.entered = p.entered ∨ (s x).dev.resetCnt < n.dev.resetCnt ∨ p.entered = none) := by
  obtain ⟨ws, hout, hws⟩ := hprog.writes hev (hello_le ho hev)
  have hwritten := hprog.written ho.written hout hws
  by_cases hsess : n.dev.resetCnt = (s x).dev.resetCnt
  · have hlate := ho.late_append hout hws hsess
    have hbegun := h.begun_append ho hout hws hsess
    obtain ⟨hview, hmark, hpolled⟩ := record_kept hsess
    rw [← heq] at hview hmark hpolled
    have hinputs (hin : n.dev.inHello = false) : ∀ sess ∈ n.inputs, p.entered = some sess := by
      intro sess hmem
      rw [heq] at hmem
      obtain hold | ⟨hin', -⟩ := mem_record_inputs hmem
      · exact h.inputs sess hold
      · exact absurd (hin.symm.trans hin') nofun
    have hnot {P : Prop} (hin : n.dev.inHello = false) (hin' : n.dev.inHello = true) : P :=
      absurd (hin.symm.trans hin') nofun
    cases hprog with
    | back hback =>
      have hin := hback.notIn
      exact ⟨p, ho.keep hwritten hlate hback.poll hback.ev (.inl hback.st) (hnot hin),
        h.keep hview hmark hsess hback.poll hback.ev (.inl hback.st) hbegun (hinputs hin), .inl rfl⟩
    | reset => omega
    | next hge hle hst he _ hpoll hev' hin =>
      by_cases h4 : (s x).dev.linkState = 4
      · refine ⟨⟨some (s (!x)).dev.resetCnt, false, false⟩, ?_, ?_,
          .inr (.inr (ho.not_entered hge h4.le))⟩
        · exact .enter _ hwritten (hev'.trans hev) (by omega) (by omega) hin
        · exact h.enter hpeer ho hoq h4 hmark hsess (hinputs hin) hlate
      · exact ⟨p, ho.next hwritten hlate hev hpoll hev' hge hle h4 hst he hin,
          h.keep hview hmark hsess hpoll (.inr hev')
            (.inr (by omega)) hbegun (hinputs hin), .inl rfl⟩
    | stay hst _ hpoll hev' hin =>
      exact ⟨p, ho.keep hwritten hlate hpoll (.inl hev') (.inr (.inl hst)) (hnot hin),
        h.keep hview hmark hsess hpoll (.inl hev') (.inr (by omega)) hbegun (hinputs hin), .inl rfl⟩
    | helloBegin _ hst _ _ hpoll hev' =>
      refine ⟨p, ho.keep hwritten hlate hpoll (.inr hev') (.inr (.inl hst)) fun _ => ?_,
        h.keep hview hmark hsess hpoll (.inr hev') (.inr (by omega)) hbegun ?_, .inl rfl⟩
      · exact ⟨by omega, event, hev'.trans hev, by omega⟩
      · intro sess hmem
        rw [heq] at hmem
        obtain hold | ⟨-, -, h1, h3, w, hlast, rfl⟩ := mem_record_inputs hmem
        · exact h.inputs sess hold
        · rw [LinkDev.phase_eq, hst] at h1 h3 hlast
          obtain ⟨sess, hp⟩ := Option.ne_none_iff_exists'.mp (ho.entered (by omega))
          obtain ⟨before, after, hpeerOut, -, hview', hafter⟩ :=
            h.input ((s x).dev.linkState - 7 - 1) ho hev (by omega) (by omega) (by omega) hp
          rw [arrived, hpeerOut, lastInHalf_take
            (by exact beq_self_eq_true _) hafter hview'] at hlast
          rw [← Option.some.inj hlast]
          exact hp
    | helloDone _ _ _ _ hpoll hev' hin =>
      exact ⟨p, ho.keep hwritten hlate hpoll (.inr hev') (.inr (.inr (by omega))) (hnot hin),
        h.keep hview hmark hsess hpoll (.inr hev') (.inr (by omega)) hbegun (hinputs hin), .inl rfl⟩
  · obtain ⟨hst, hnone, hin⟩ := hprog.of_reset hsess
    have hlt : (s x).dev.resetCnt < n.dev.resetCnt := lt_of_le_of_ne hprog.sess_le (Ne.symm hsess)
    rw [record_reset hsess] at heq
    refine ⟨⟨none, false, false⟩, .reset hwritten hnone hst (fun w hw hs => ?_) hin,
      hpeer.reset hoq (by rw [heq]) (by rw [heq]) hlt, .inr (.inl hlt)⟩
    rw [hout] at hw
    obtain hold | hnew := List.mem_append.mp hw
    · have := ho.written.sess_le w hold
      omega
    · by_contra hl
      exact hsess ((hws w hnew).late (Bool.not_eq_false _ ▸ hl)).2

lemma Moved.turn (hmoved : s.Moved x a n) (ho : p.Own (s x)) (hoq : q.Own (s (!x)))
    (h : Coupled p q (s x) (s (!x))) (hpeer : Coupled q p (s (!x)) (s x)) (hagreed : s.Agreed)
    (hcur : a = .poll → s.Current x) :
    ∃ p' : Pairing, p'.Own n ∧ Coupled p' q n (s (!x)) ∧
      (p'.entered = p.entered ∨ (s x).dev.resetCnt < n.dev.resetCnt ∨ p.entered = none) := by
  cases hmoved with
  | arrive _ heq => exact ⟨p, ho.of_dev (by rw [heq]), heq ▸ h.arrive, .inl rfl⟩
  | poll ha heq =>
    have hcurrent := hcur ha
    rw [hcurrent.lastPing_arrived, (hagreed.announced (!x)).lastPing_eq] at heq
    refine ⟨{ p with freshPoll := true }, heq ▸ ho.poll true,
      heq ▸ h.polled true fun sess hp => ?_, .inl rfl⟩
    refine backed_of_current hoq.written (fun i hi => ?_) (h.le sess hp) fun hlt =>
      (h.alone sess hp hlt).st
    obtain ⟨before, w, after, hout, hw, hi⟩ := hi
    exact hi.trans (hcurrent.lt_view hout hw)
  | lose _ heq =>
    exact ⟨{ p with freshPoll := true }, heq ▸ ho.poll (s x).polled,
      heq ▸ h.polled (s x).polled fun _ _ => .zero,
      .inl rfl⟩
  | begin _ hidle heq =>
    have hin := (hagreed.orderly x).idle (Option.isNone_iff_eq_none.mpr hidle)
    exact ⟨{ p with freshEvent := p.freshPoll }, heq ▸ ho.begin hin, heq ▸ h.begin, .inl rfl⟩
  | error hback heq =>
    obtain ⟨ws, hout, hws⟩ := hback.writes
    have hwritten := (LinkDev.Progress.back hback : LinkDev.Progress 0 _ _).written
      ho.written hout hws
    refine ⟨p, ho.keep hwritten (ho.late_append hout hws hback.sess)
      hback.poll hback.ev (.inl hback.st)
      fun hin => absurd (hback.notIn.symm.trans hin) nofun, ?_, .inl rfl⟩
    exact h.keep (by rw [heq]) (by rw [heq]) hback.sess hback.poll hback.ev (.inl hback.st)
      (h.begun_append ho hout hws hback.sess) (by rw [heq]; exact h.inputs)
  | work _ hev hprog heq => exact work_turn hev hprog heq ho hoq h hpeer

lemma Moved.of_reset (hmoved : s.Moved x a n) (hsess : n.dev.resetCnt ≠ (s x).dev.resetCnt) :
    n.dev.linkState = 2 ∧ n.dev.event = none ∧ n.polled = false := by
  cases hmoved with
  | arrive _ heq => exact absurd (by rw [heq]) hsess
  | poll _ heq => exact absurd (by rw [heq]) hsess
  | lose _ heq => exact absurd (by rw [heq]) hsess
  | begin _ _ heq => exact absurd (by rw [heq]) hsess
  | error hback => exact absurd hback.sess hsess
  | work _ _ hprog heq =>
    obtain ⟨hst, hnone, -⟩ := hprog.of_reset hsess
    rw [record_reset hsess] at heq
    exact ⟨hst, hnone, by rw [heq]⟩

lemma Moved.alone_of_entered (hmoved : s.Moved x a n) (h : Coupled q p (s (!x)) (s x))
    (hoq : q.Own (s (!x))) (hagreed : s.Agreed) (hcur : a = .poll → s.Current x)
    (hbegin : a = .begin → (s x).polled = true ∨ (s x).dev.pollMsg = 0) :
    ∀ sess, q.entered = some sess → sess < n.dev.resetCnt → Alone n := by
  intro sess hq hlt
  by_cases hwas : sess < (s x).dev.resetCnt
  · refine hmoved.alone (h.alone sess hq hwas) (fun ha => ?_) hbegin
    rw [(hcur ha).lastPing_arrived, (hagreed.announced (!x)).lastPing_eq]
    have hst (h2 : 2 ≤ (s (!x)).dev.linkState) (h4 : (s (!x)).dev.linkState ≤ 4) : False :=
      absurd ((hoq.not_entered h2 h4).symm.trans hq) nofun
    constructor
    · exact fun h3 => hst (by omega) (by omega)
    · exact fun h4 => hst (by omega) (by omega)
  · obtain ⟨hst, hnone, hpolled⟩ := hmoved.of_reset fun hsame => hwas (hsame ▸ hlt)
    exact .fresh hst hnone hpolled

def Steady (s : Link) : Prop :=
  s.Agreed ∧ ∃ g : Bool → Pairing, ∀ x, (g x).Own (s x) ∧ Coupled (g x) (g (!x)) (s x) (s (!x))

lemma start_steady : start.Steady := by
  have hown : Pairing.Own ⟨none, false, false⟩ ⟨LinkDev.start, 0, 0, false, []⟩ :=
    .reset (LinkDev.written_of_lt (by decide) (by decide)) rfl rfl (by decide) rfl
  refine ⟨start_agreed, fun _ => ⟨none, false, false⟩, fun _ => ⟨hown, ?_⟩⟩
  exact ⟨nofun, nofun, nofun, nofun, nofun, nofun, Nat.zero_le _, nofun, nofun, nofun⟩

lemma Steady.step (h : s.Steady) (hstep : s.SteadyStep (x, a) t) : t.Steady := by
  obtain ⟨hagreed, g, hg⟩ := h
  obtain ⟨hprompt, hbegin⟩ := hstep
  refine ⟨hagreed.step hprompt, ?_⟩
  obtain ⟨hnode, hother⟩ := hprompt.1.node
  have hmoved := act_moved hnode (hagreed.orderly x)
  obtain ⟨ho, h⟩ := hg x
  obtain ⟨hoq, hpeer⟩ := hg (!x)
  rw [Bool.not_not] at hpeer
  obtain ⟨p', ho', h', hentered⟩ := hmoved.turn ho hoq h hpeer hagreed hprompt.2
  obtain ⟨ws, hout, hws⟩ := hmoved.writes ho
  have hpeer' : Coupled (g (!x)) p' (s (!x)) (t x) :=
    hpeer.peer h hoq ho (fun _ _ => hmoved.reached) hmoved.sess_le hout hws
      (hmoved.alone_of_entered hpeer hoq hagreed hprompt.2 hbegin) hentered
  refine ⟨Function.update g x p', both_sides (x := x) ?_ ?_⟩
  · rw [Function.update_self, Function.update_of_ne (Bool.not_ne_self x), hother]
    exact ⟨ho', h'⟩
  · rw [Bool.not_not, Function.update_self, Function.update_of_ne (Bool.not_ne_self x), hother]
    exact ⟨hoq, hpeer'⟩

lemma steady (hrun : Reaches SteadyStep start s) : s.Steady :=
  hrun.invariant start_steady fun _ _ _ h hstep => h.step hstep

/-! ## Races -/

/-- The half that is read holds the whole output of the phase before, of one session, and nothing is
written to it; no half that is written is read; and in phase 2 the peer completed phase 1. -/
structure RaceFree (s : Link) (x : Bool) (sess : Nat) : Prop where
  input : 1 ≤ (s x).dev.phase → (s x).dev.phase ≤ 3 → ∃ before after,
    (s (!x)).dev.out = before ++ ⟨sess, .hello ((s x).dev.phase - 1) true⟩ :: after ∧
      (s x).mark ≤ before.length ∧
      before.length < (s x).view ∧ ∀ w ∈ after, w.inHalf (((s x).dev.phase - 1) % 2) = false
  same : ∀ other ∈ (s x).inputs, other = sess
  output : ∀ half, (s x).dev.writes half = true → (s (!x)).dev.reads half = false
  finished : (s x).dev.phase = 2 → ⟨sess, .ping (linkHello + 1)⟩ ∈ (s (!x)).dev.out.drop (s x).mark

/-- Each side starts over twice and goes by old polls. The first then reads the output of a session
its peer has left. -/
def overwritten : List (Bool × Act) :=
  work false 2 ++ look true 2 ++ work true 2 ++ look false 3 ++ work false 3 ++
    look true 3 ++ restart false ++
    work false 2 ++ steps true 1 ++ work true 0 ++ look true 5 ++ steps false 2 ++
      steps true 2 ++ look false 3 ++
    work false 1 ++ steps true 1 ++ restart true ++ work true 0 ++ look true 3 ++
      steps false 2 ++ steps true 2 ++
    look false 5 ++ steps true 2 ++ work true 0 ++ look true 1 ++ restart false ++
      work false 2 ++ steps true 1 ++
    look false 3 ++ steps true 2 ++ work true 0 ++ look true 5 ++ steps false 2 ++
      work false 1 ++ steps true 2 ++
    look false 4 ++ steps true 1 ++ restart true ++ work true 0 ++ look true 3 ++
      steps false 2 ++ work false 3 ++
    steps true 4 ++ work true 0 ++ look true 5 ++ steps true 3 ++ work true 1

/-- The first side is in phase 1 while its peer writes phase 0 of a new session over what it
reads. -/
theorem hello_overwritten : ∃ s, Reaches PromptStep start s ∧ (s false).dev.inHello = true ∧
    (s false).dev.phase = 1 ∧ (s true).dev.writes 0 = true ∧ ∀ sess, ¬s.RaceFree false sess := by
  have hreach : ∃ s, Reaches PromptStep start s ∧
    ((s false).dev.inHello && (s false).dev.phase == 1 &&
      (s true).dev.writes 0 && lastInHalf 0 (s true).dev.out == some ⟨2, .hello 0 false⟩) = true :=
    Reaches.exists_of_foldlM overwritten (fun _ _ _ => promptStep_of_apply) (by decide +kernel)
  obtain ⟨s, hrun, hs⟩ := hreach
  simp only [Bool.and_eq_true, beq_iff_eq] at hs
  obtain ⟨⟨⟨hin, hphase⟩, hwrites⟩, hlast⟩ := hs
  refine ⟨s, hrun, hin, hphase, hwrites, fun sess hfree => ?_⟩
  obtain ⟨before, after, hout, -, -, hafter⟩ := hfree.input hphase.ge (hphase.le.trans (by decide))
  rw [hphase] at hout hafter
  have hlt : before.length < (s true).dev.out.length := by
    rw [show (s true).dev.out = _ from hout, List.length_append, List.length_cons]
    omega
  have hwhole : lastInHalf 0 ((s true).dev.out.take (s true).dev.out.length) = some
      ⟨sess, .hello 0 true⟩ := by
    conv_lhs => rw [show (s true).dev.out = _ from hout]
    exact lastInHalf_take rfl hafter (hout ▸ hlt)
  rw [List.take_length, hlast] at hwhole
  exact absurd hwhole (by simp)

/-- Where every poll finds the current state, and none from before the own reset is used, there is
no race. -/
theorem hello_raceFree (hrun : Reaches SteadyStep start s) (hin : (s x).dev.inHello = true) :
    ∃ sess, s.RaceFree x sess := by
  obtain ⟨-, g, hg⟩ := steady hrun
  obtain ⟨ho, h⟩ := hg x
  obtain ⟨hoq, hpeer⟩ := hg (!x)
  rw [Bool.not_not] at hpeer
  obtain ⟨h7, event, hev, hle⟩ := ho.hello hin
  obtain ⟨sess, hp⟩ := Option.ne_none_iff_exists'.mp (ho.entered (by omega))
  have hphase := (s x).dev.phase_eq
  refine ⟨sess, fun h1 h3 => ?_, fun other hmem => ?_, fun half hwrites => ?_, fun h2 => ?_⟩
  · exact h.input _ ho hev (by omega) hle (by omega) hp
  · exact Option.some.inj ((h.inputs other hmem).symm.trans hp)
  · by_contra hreads
    rw [Bool.not_eq_false] at hreads
    have hpeerPhase := (s (!x)).dev.phase_eq
    simp only [LinkDev.writes, LinkDev.reads, Bool.and_eq_true, decide_eq_true_eq,
      beq_iff_eq] at hwrites hreads
    obtain ⟨⟨⟨hin', h1⟩, h3⟩, hhalf⟩ := hreads
    obtain ⟨h7', event', hev', hle'⟩ := hoq.hello hin'
    -- the peer goes by a state of this side, which is not behind the phase of the peer
    have hbehind : (s (!x)).dev.linkState ≤ (s x).dev.linkState := by
      obtain ⟨sess', hq, hback⟩ :=
        hpeer.hello_backed ((s (!x)).dev.linkState - 7) hoq hev' (by omega) hle' (by omega)
      obtain hreached | hlow | hlt := hback.reached
      · omega
      · omega
      · have := (hpeer.alone sess' hq hlt).st
        omega
    have hahead : (s x).dev.linkState ≤ (s (!x)).dev.linkState := by
      obtain ⟨sess', hp', hback⟩ :=
        h.hello_backed ((s x).dev.linkState - 7) ho hev (by omega) hle (by omega)
      obtain hreached | hlow | hlt := hback.reached
      · omega
      · omega
      · have := (h.alone sess' hp' hlt).st
        omega
    omega
  · obtain ⟨sess', hp', hback⟩ := h.hello_backed 2 ho hev (by omega) hle (by omega)
    obtain rfl := Option.some.inj (hp.symm.trans hp')
    have hmem := hback.ping 1 (by omega)
    rw [← List.take_append_drop (s x).mark (s (!x)).dev.out] at hmem
    obtain hbefore | hsince := List.mem_append.mp hmem
    · exact absurd (h.since_mark sess hp _ hbefore rfl) nofun
    · exact hsince

theorem hello_raceFree_phase2 : ∃ s, Reaches SteadyStep start s ∧ (s false).dev.inHello = true ∧
    (s false).dev.phase = 2 ∧ ∃ sess, s.RaceFree false sess := by
  have hreach : ∃ s, Reaches SteadyStep start s ∧
    ((s false).dev.inHello && (s false).dev.phase == 2) = true :=
    Reaches.exists_of_foldlM (hear false 1 2 ++ hear true 2 3 ++ hear false 2 3 ++
      hear true 3 3 ++ hear false 3 3 ++
      hear true 2 4 ++ hear false 4 5 ++ hear true 6 5 ++ hear false 6 1)
        (fun _ _ _ => steadyStep_of_apply)
      (by decide +kernel)
  obtain ⟨s, hrun, hs⟩ := hreach
  simp only [Bool.and_eq_true, beq_iff_eq] at hs
  exact ⟨s, hrun, hs.1, hs.2, hello_raceFree hrun hs.1⟩

end Link

end Ntrdma
