import Ntrdma.Link.Progress

/-!
# Agreement on the link

When a side takes the link for up, both sides went through the whole hello since it was last reset.
That holds where every poll finds the state that the peer announced last (`Link.PromptStep`),
however late the link work acts upon it. It fails where announcements are under way at a poll: a
side that starts over twice can be taken through its hello by announcements of a session that its
peer had left, and of one that its peer had begun before.

The invariant is about the states of the peer that a side holds (`Guarded`), from its last poll and
in the running link work: one below the hello phases, polled since the own reset, shows that the
peer runs them all since then.
-/

namespace Ntrdma
open Lib

namespace LinkDev

/-- Of the hello phases that a side completed in its session, and of the flag, none was written
before `mark`. -/
def CleanSince (mark : Nat) (dev : LinkDev) : Prop :=
  (∀ phase, 8 + phase ≤ dev.linkState → ⟨dev.resetCnt, .ping (8 + phase)⟩ ∈ dev.out.drop mark) ∧
    (dev.linkState = 11 → ∃ w ∈ dev.out.drop mark, w.write.flag?.isSome)

section
variable {dev dev' : LinkDev} {event mark : Nat}

lemma cleanSince_of_lt (h : dev.linkState < 8) : dev.CleanSince mark :=
  ⟨fun _ hle => absurd hle (by omega), fun h11 => absurd h11 (by omega)⟩

lemma CleanSince.append {ws : List Stamped} (h : dev.CleanSince mark)
    (hst : dev'.linkState = dev.linkState) (hsess : dev'.resetCnt = dev.resetCnt)
    (hout : dev'.out = dev.out ++ ws) : dev'.CleanSince mark := by
  rw [CleanSince, hst, hsess, hout, List.drop_append]
  refine ⟨fun phase hle => List.mem_append_left _ (h.1 phase hle), fun h11 => ?_⟩
  obtain ⟨w, hw, hdone⟩ := h.2 h11
  exact ⟨w, List.mem_append_left _ hw, hdone⟩

lemma Progress.cleanSince (hprog : Progress event dev dev') (h : dev.CleanSince mark)
    (hmark : mark ≤ dev.out.length) : dev'.CleanSince mark := by
  cases hprog with
  | back hback => exact cleanSince_of_lt (lt_of_le_of_lt hback.st (by decide))
  | reset => exact cleanSince_of_lt (by omega)
  | next => exact cleanSince_of_lt (by omega)
  | stay hst hsess _ _ _ _ hout => exact h.append hst hsess (hout.trans (List.append_nil _).symm)
  | helloBegin _ hst _ hsess _ _ _ _ hout => exact h.append hst hsess hout
  | helloDone _ _ _ hsess _ _ _ _ hout =>
    rw [CleanSince, hsess, hout, List.append_assoc, List.drop_append_of_le_length hmark]
    refine ⟨fun phase hphase => ?_, fun h11 => ?_⟩
    · rcases Nat.lt_or_ge dev.linkState (8 + phase) with hlt | hge'
      · have hnew : 8 + phase = dev'.linkState := by omega
        rw [hnew]
        simp
      · exact List.mem_append_left _ (h.1 phase hge')
    · refine ⟨⟨dev.resetCnt, .done true⟩, List.mem_append_right _ ?_, rfl⟩
      rw [if_neg (by omega)]
      simp

end

end LinkDev

namespace Link

/-- All that the peer wrote of the hello in its session, it wrote since the side was last reset. -/
def Clean (s : Link) (x : Bool) : Prop := (s (!x)).dev.CleanSince (s x).mark

/-- Since the side was last reset, the peer went through the hello in one session, and a write to
its flag arrived. -/
def Finished (s : Link) (x : Bool) : Prop :=
  (∃ sess, ∀ phase ≤ 3, ⟨sess, .ping (8 + phase)⟩ ∈ (s (!x)).dev.out.drop (s x).mark) ∧
    ∃ w ∈ (s.arrived x).drop (s x).mark, w.write.flag?.isSome

end Link

structure Guarded (clean finished : Prop) (n : LinkNode) : Prop where
  state_clean : 6 ≤ n.dev.linkState → clean
  event_clean : ∀ event, n.dev.event = some event → 4 ≤ n.dev.linkState →
    5 ≤ event → event ≤ 7 → clean
  poll_clean : 4 ≤ n.dev.linkState → 5 ≤ n.dev.pollMsg → n.dev.pollMsg ≤ 7 → clean
  polled_clean : n.polled = true → 5 ≤ n.dev.pollMsg → n.dev.pollMsg ≤ 7 → clean
  unpolled : ∀ event, n.dev.event = some event → n.polled = false →
    n.dev.pollMsg = event ∨ n.dev.pollMsg = 0
  event_up : n.dev.event = some 11 → 6 ≤ n.dev.linkState → finished
  poll_up : n.dev.pollMsg = 11 → 6 ≤ n.dev.linkState → finished
  running_up : ∀ event, n.dev.event = some event → 4 ≤ n.dev.linkState → 5 ≤ event → event ≤ 7 →
    n.dev.pollMsg = 11 → finished

namespace Guarded
variable {clean finished : Prop} {n n' : LinkNode} {event : Nat}

lemma mono {clean' finished' : Prop} (h : Guarded clean finished n) (hclean : clean → clean')
    (hfinished : finished → finished') : Guarded clean' finished' n where
  state_clean h6 := hclean (h.state_clean h6)
  event_clean event hev h4 h5 h7 := hclean (h.event_clean event hev h4 h5 h7)
  poll_clean h4 h5 h7 := hclean (h.poll_clean h4 h5 h7)
  polled_clean hpolled h5 h7 := hclean (h.polled_clean hpolled h5 h7)
  unpolled := h.unpolled
  event_up hev h6 := hfinished (h.event_up hev h6)
  poll_up hpoll h6 := hfinished (h.poll_up hpoll h6)
  running_up event hev h4 h5 h7 hpoll := hfinished (h.running_up event hev h4 h5 h7 hpoll)

lemma poll {msg : Nat} (h : Guarded clean finished n) (hlow : msg ≤ 7 → clean)
    (hlast : clean → msg = 11 → finished) :
    Guarded clean finished { n with dev := { n.dev with pollMsg := msg }, polled := true } where
  state_clean := h.state_clean
  event_clean := h.event_clean
  poll_clean _ _ h7 := hlow h7
  polled_clean _ _ h7 := hlow h7
  unpolled _ _ hpolled := absurd hpolled nofun
  event_up := h.event_up
  poll_up h11 h6 := hlast (h.state_clean h6) h11
  running_up event hev h4 h5 h7 h11 := hlast (h.event_clean event hev h4 h5 h7) h11

lemma lose (h : Guarded clean finished n) : Guarded clean finished
    { n with dev := { n.dev with pollMsg := 0 } } where
  state_clean := h.state_clean
  event_clean := h.event_clean
  poll_clean _ h5 := absurd h5 (Nat.not_succ_le_zero 4)
  polled_clean _ h5 := absurd h5 (Nat.not_succ_le_zero 4)
  unpolled _ _ _ := .inr rfl
  event_up := h.event_up
  poll_up := nofun
  running_up _ _ _ _ _ := nofun

lemma begin (h : Guarded clean finished n) :
    Guarded clean finished { n with dev := { n.dev with event := some n.dev.pollMsg } } where
  state_clean := h.state_clean
  event_clean event hev h4 h5 h7 := by
    cases hev
    exact h.poll_clean h4 h5 h7
  poll_clean := h.poll_clean
  polled_clean := h.polled_clean
  unpolled event hev _ := .inl (Option.some.inj hev)
  event_up hev h6 := h.poll_up (Option.some.inj hev) h6
  poll_up := h.poll_up
  running_up event hev _ _ h7 h11 := by
    cases hev
    exact absurd h7 (by dsimp only at h11 ⊢; omega)

lemma fresh (hst : n.dev.linkState < 4) (hev : n.dev.event = none) (hpolled : n.polled = false) :
    Guarded clean finished n where
  state_clean h6 := absurd h6 (by omega)
  event_clean _ _ h4 := absurd h4 (by omega)
  poll_clean h4 := absurd h4 (by omega)
  polled_clean hp := absurd (hpolled.symm.trans hp) nofun
  unpolled _ hev' := absurd (hev.symm.trans hev') nofun
  event_up _ h6 := absurd h6 (by omega)
  poll_up _ h6 := absurd h6 (by omega)
  running_up _ _ h4 := absurd h4 (by omega)

lemma keep (h : Guarded clean finished n) (hpoll : n'.dev.pollMsg = n.dev.pollMsg)
    (hpolled : n'.polled = n.polled) (hev : n'.dev.event = none ∨ n'.dev.event = n.dev.event)
    (h4 : 4 ≤ n'.dev.linkState → 4 ≤ n.dev.linkState)
    (h6 : 6 ≤ n'.dev.linkState → 6 ≤ n.dev.linkState) : Guarded clean finished n' := by
  have hevent (event : Nat) (he : n'.dev.event = some event) : n.dev.event = some event := by
    obtain hnone | hsame := hev
    · exact absurd (hnone.symm.trans he) nofun
    · exact hsame.symm.trans he
  refine ⟨?_, ?_, ?_, ?_, ?_, ?_, ?_, ?_⟩
  · exact fun hst => h.state_clean (h6 hst)
  · exact fun event he hst => h.event_clean event (hevent event he) (h4 hst)
  · exact fun hst => hpoll ▸ h.poll_clean (h4 hst)
  · exact hpolled ▸ hpoll ▸ h.polled_clean
  · exact fun event he => hpolled ▸ hpoll ▸ h.unpolled event (hevent event he)
  · exact fun he hst => h.event_up (hevent 11 he) (h6 hst)
  · exact fun hmsg hst => h.poll_up (hpoll ▸ hmsg) (h6 hst)
  · exact fun event he hst h5 h7 hmsg => h.running_up event (hevent event he)
      (h4 hst) h5 h7 (hpoll ▸ hmsg)

lemma back (h : Guarded clean finished n) (hback : LinkDev.Back n.dev n'.dev)
    (hpolled : n'.polled = n.polled) : Guarded clean finished n' :=
  have hst := hback.st
  h.keep hback.poll hpolled hback.ev (by omega) (by omega)

/-- A step of the link work other than a reset. The peer is seen to be clean when the addresses are
set up. -/
lemma progress (h : Guarded clean finished n) (hev : n.dev.event = some event)
    (hprog : LinkDev.Progress event n.dev n'.dev) (hsame : n'.dev.resetCnt = n.dev.resetCnt)
    (hpolled : n'.polled = n.polled) : Guarded clean finished n' := by
  cases hprog with
  | back hback => exact h.back hback hpolled
  | reset => omega
  | next _ _ _ _ _ hpoll hev' =>
    have hstart (h4 : 4 ≤ n'.dev.linkState) : 4 ≤ n.dev.linkState ∨ event ≤ 4 := by omega
    have hchosen (h6 : 6 ≤ n'.dev.linkState) : 6 ≤ n.dev.linkState ∨ 4 ≤ n.dev.linkState ∧
        5 ≤ event ∧ event ≤ 7 := by
      omega
    refine ⟨fun h6 => ?_, fun e he' h4 h5 h7 => ?_, fun h4 h5 h7 => ?_, ?_,
      fun e he' => ?_, fun he' h6 => ?_,
      fun h11 h6 => ?_, fun e he' h4 h5 h7 h11 => ?_⟩
    · obtain h6' | ⟨h4', h5', h7'⟩ := hchosen h6
      · exact h.state_clean h6'
      · exact h.event_clean event hev h4' h5' h7'
    · obtain rfl : event = e := Option.some.inj (hev.symm.trans (hev'.symm.trans he'))
      obtain h4' | h4' := hstart h4
      · exact h.event_clean event hev h4' h5 h7
      · omega
    · rw [hpoll] at h5 h7
      obtain h4' | h4' := hstart h4
      · exact h.poll_clean h4' h5 h7
      · cases hp : n.polled with
        | true => exact h.polled_clean hp h5 h7
        | false => have := h.unpolled event hev hp; omega
    · rw [hpolled, hpoll]
      exact h.polled_clean
    · rw [hpolled, hpoll]
      exact h.unpolled e (hev'.symm.trans he')
    · obtain rfl : event = 11 := Option.some.inj (hev.symm.trans (hev'.symm.trans he'))
      obtain h6' | ⟨h4', h5', h7'⟩ := hchosen h6
      · exact h.event_up hev h6'
      · omega
    · rw [hpoll] at h11
      obtain h6' | ⟨h4', h5', h7'⟩ := hchosen h6
      · exact h.poll_up h11 h6'
      · exact h.running_up event hev h4' h5' h7' h11
    · obtain rfl : event = e := Option.some.inj (hev.symm.trans (hev'.symm.trans he'))
      obtain h4' | h4' := hstart h4
      · exact h.running_up event hev h4' h5 h7 (hpoll.symm.trans h11)
      · omega
  | stay _ _ hpoll hev' => exact h.keep hpoll hpolled (.inl hev') (by omega) (by omega)
  | helloBegin _ _ _ _ hpoll hev' =>
    exact h.keep hpoll hpolled (.inr hev') (by omega) (by omega)
  | helloDone _ _ _ _ hpoll hev' =>
    exact h.keep hpoll hpolled (.inr hev') (by omega) (by omega)

end Guarded

namespace Link
variable {s t : Link} {x : Bool} {a : Act} {n : LinkNode}

lemma Moved.cleanSince {mark : Nat} (hmoved : s.Moved x a n) (h : (s x).dev.CleanSince mark)
    (hmark : mark ≤ (s x).dev.out.length) : n.dev.CleanSince mark := by
  cases hmoved with
  | arrive _ heq => exact heq ▸ h
  | poll _ heq => exact heq ▸ h
  | lose _ heq => exact heq ▸ h
  | begin _ _ heq => exact heq ▸ h
  | error hback => exact LinkDev.cleanSince_of_lt (lt_of_le_of_lt hback.st (by decide))
  | work _ _ hprog => exact hprog.cleanSince h hmark

lemma finished_of_current (hcur : s.Current x) (hann : (s (!x)).dev.Announced) (hclean : s.Clean x)
    (hst : (s (!x)).dev.linkState = 11) : s.Finished x := by
  refine ⟨⟨_, fun phase hphase => hclean.1 phase (by omega)⟩, ?_⟩
  obtain ⟨before, after, hout, -, hlast⟩ := hann
  obtain rfl := hlast (.inr (by omega))
  have hall : s.arrived x = (s (!x)).dev.out := by
    have hview := hcur.lt_view hout nofun
    rw [arrived, hout]
    exact List.take_of_length_le (by simpa using hview)
  rw [hall]
  exact hclean.2 hst

structure Agreed (s : Link) : Prop where
  orderly : ∀ x, (s x).dev.Orderly
  announced : ∀ x, (s x).dev.Announced
  mark_le : ∀ x, (s x).mark ≤ (s (!x)).dev.out.length
  guarded : ∀ x, Guarded (s.Clean x) (s.Finished x) (s x)

lemma Agreed.own (h : s.Agreed) (hmoved : s.Moved x a (t x)) (hother : t (!x) = s (!x))
    (hcur : a = .poll → s.Current x) :
    (t x).mark ≤ (t (!x)).dev.out.length ∧ Guarded (t.Clean x) (t.Finished x) (t x) := by
  have hguarded := h.guarded x
  have hkept (hmark : (t x).mark = (s x).mark) (hview : (t x).view = (s x).view) :
      (t x).mark ≤ (t (!x)).dev.out.length ∧ t.Clean x = s.Clean x ∧
        t.Finished x = s.Finished x := by
    rw [Clean, Clean, Finished, Finished, arrived, arrived, hother, hmark, hview]
    exact ⟨h.mark_le x, rfl, rfl⟩
  cases hmoved with
  | arrive _ heq =>
    rw [Clean, Finished, arrived, hother, heq]
    refine ⟨h.mark_le x, hguarded.mono id ?_ |>.keep rfl rfl (.inr rfl) id id⟩
    rintro ⟨hsess, w, hw, hdone⟩
    refine ⟨hsess, w, ?_, hdone⟩
    rw [List.take_add_one, List.drop_append]
    exact List.mem_append_left _ hw
  | poll ha heq =>
    obtain ⟨hmark, hclean, hfinished⟩ := hkept (by rw [heq]) (by rw [heq])
    rw [(hcur ha).lastPing_arrived, (h.announced (!x)).lastPing_eq] at heq
    rw [hclean, hfinished]
    refine ⟨hmark, heq ▸ hguarded.poll (fun hlow => LinkDev.cleanSince_of_lt (by omega))
      fun hclean' h11 => ?_⟩
    exact finished_of_current (hcur ha) (h.announced (!x)) hclean' h11
  | lose _ heq =>
    obtain ⟨hmark, hclean, hfinished⟩ := hkept (by rw [heq]) (by rw [heq])
    rw [hclean, hfinished]
    exact ⟨hmark, heq ▸ hguarded.lose⟩
  | begin _ _ heq =>
    obtain ⟨hmark, hclean, hfinished⟩ := hkept (by rw [heq]) (by rw [heq])
    rw [hclean, hfinished]
    exact ⟨hmark, heq ▸ hguarded.begin⟩
  | error hback heq =>
    obtain ⟨hmark, hclean, hfinished⟩ := hkept (by rw [heq]) (by rw [heq])
    rw [hclean, hfinished]
    exact ⟨hmark, hguarded.back hback (by rw [heq])⟩
  | work _ hev hprog heq =>
    by_cases hsess : (t x).dev.resetCnt = (s x).dev.resetCnt
    · obtain ⟨hv, hm, hp⟩ := record_kept hsess
      rw [← heq] at hv hm hp
      obtain ⟨hmark, hclean, hfinished⟩ := hkept hm hv
      rw [hclean, hfinished]
      exact ⟨hmark, hguarded.progress hev hprog hsess hp⟩
    · rw [record_reset hsess] at heq
      refine ⟨by rw [hother, heq], ?_⟩
      obtain ⟨hst, hnone, -⟩ := hprog.of_reset hsess
      exact .fresh (by omega) hnone (by rw [heq])

lemma Agreed.peer (h : s.Agreed) (hmoved : s.Moved (!x) a (t (!x))) (hsame : t x = s x) :
    (t x).mark ≤ (t (!x)).dev.out.length ∧ Guarded (t.Clean x) (t.Finished x) (t x) := by
  obtain ⟨ws, hws, -⟩ := hmoved.out_append
  have hmark := h.mark_le x
  rw [hsame, hws]
  refine ⟨by rw [List.length_append]; omega, (h.guarded x).mono
    (fun hclean => ?_) fun hfinished => ?_⟩
  · rw [Clean, hsame]
    exact hmoved.cleanSince hclean hmark
  · obtain ⟨⟨sess, hsess⟩, w, hw, hdone⟩ := hfinished
    rw [Finished, arrived, hsame, hws, List.take_append, List.drop_append, List.drop_append]
    exact ⟨⟨sess, fun phase hphase => List.mem_append_left _ (hsess phase hphase)⟩, w,
      List.mem_append_left _ hw, hdone⟩

lemma Agreed.step (h : s.Agreed) (hstep : s.PromptStep (x, a) t) : t.Agreed := by
  obtain ⟨hnode, hother⟩ := hstep.1.node
  have hmoved := act_moved hnode (h.orderly x)
  obtain ⟨hmark, hguarded⟩ := h.own hmoved hother hstep.2
  have hpeer : s.Moved (!!x) a (t (!!x)) := by rwa [Bool.not_not]
  obtain ⟨hmark', hguarded'⟩ := h.peer hpeer hother
  refine ⟨both_sides (x := x) ?_ ?_, both_sides (x := x) ?_ ?_, both_sides hmark hmark',
    both_sides hguarded hguarded'⟩
  · obtain ⟨ev, hev⟩ | heq := act_dev hnode
    · exact devStep_orderly (h.orderly x) hev
    · exact heq ▸ h.orderly x
  · exact hother ▸ h.orderly (!x)
  · exact hmoved.announced (h.announced x)
  · exact hother ▸ h.announced (!x)

lemma start_agreed : start.Agreed where
  orderly _ := LinkDev.start_orderly
  announced _ := ⟨[], [], rfl, nofun, fun _ => rfl⟩
  mark_le _ := Nat.zero_le _
  guarded _ := .fresh (show 2 < 4 by decide) rfl rfl

lemma agreed (hrun : Reaches PromptStep start s) : s.Agreed :=
  hrun.invariant start_agreed fun _ _ _ h hstep => h.step hstep

/-! ## Coming up -/

def ComesUp (s t : Link) (x : Bool) : Prop := (s x).dev.linkIsUp = false ∧ (t x).dev.linkIsUp = true

instance (s t : Link) (x : Bool) : Decidable (s.ComesUp t x) := inferInstanceAs (Decidable (_ ∧ _))

lemma Step.comesUp (h : s.Step (x, a) t) (hup : s.ComesUp t x) (ho : (s x).dev.Orderly) :
    (s x).dev.linkState = 11 ∧ (s x).dev.event = some 11 ∧ lastDone (s.arrived x) = true := by
  obtain ⟨hnode, -⟩ := h.node
  have hkept (heq : (t x).dev.linkIsUp = (s x).dev.linkIsUp) : False := by
    cases hup.2.symm.trans (heq.trans hup.1)
  cases a with
  | arrive =>
    simp only [act] at hnode
    split at hnode
    · exact (hkept (by rw [← Option.some.inj hnode])).elim
    · cases hnode
  | poll => exact (hkept (by rw [← Option.some.inj hnode])).elim
  | lose => exact (hkept (by rw [← Option.some.inj hnode])).elim
  | begin =>
    obtain ⟨dev, hdev, heq⟩ := Option.map_eq_some_iff.mp hnode
    simp only [LinkEvent.apply] at hdev
    split at hdev
    · exact (hkept (by rw [← heq, ← Option.some.inj hdev])).elim
    · cases hdev
  | error =>
    obtain ⟨dev, hdev, heq⟩ := Option.map_eq_some_iff.mp hnode
    simp only [LinkEvent.apply] at hdev
    split at hdev
    · exact (hkept (by rw [← heq, ← Option.some.inj hdev, LinkDev.error_linkIsUp])).elim
    · cases hdev
  | step =>
    obtain ⟨dev, hdev, heq⟩ := Option.map_eq_some_iff.mp hnode
    obtain ⟨event, hev, hwork⟩ := LinkDev.linkWorkStep_workStep hdev
    have hdevUp : dev.linkIsUp = true := by
      rw [← hup.2, ← heq, record_dev]
    obtain ⟨hpeer, hst, he⟩ := hwork.comesUp ho hup.1 hdevUp
    exact ⟨hst, by rw [hev, he, hst], hpeer⟩

/-- Since it was last reset, the side completed each hello phase, and the peer announced all of them
in one session. -/
structure UpAgreed (s : Link) (x : Bool) : Prop where
  own : hellosSince (s x).dev.calls = [0, 1, 2, 3]
  peer : ∃ sess, ∀ phase ≤ 3, ⟨sess, .ping (linkHello + phase)⟩ ∈ (s (!x)).dev.out.drop (s x).mark
  done : ∃ before sess after, s.arrived x = before ++ ⟨sess, .done true⟩ :: after ∧
    (s x).mark ≤ before.length ∧
    ∀ w ∈ after, w.write.flag? = none

/-- The first side starts over twice. Old announcements take it to a phase that its peer completed
before. -/
def mixedSessions : List (Bool × Act) :=
  hear false 1 2 ++ hear true 2 3 ++ hear false 2 3 ++ hear true 1 2 ++
    hear true 2 2 ++ restart false ++
    work false 4 ++ hear false 3 3 ++ restart true ++ hear true 5 4 ++
    hear true 3 3 ++ hear true 1 3 ++ restart false ++ hear false 5 4 ++
      hear false 3 3 ++ hear false 4 5 ++
    hear true 15 5 ++ hear false 6 5 ++ hear true 5 3 ++ hear false 2 0

/-- In that run the first side comes up although its peer completed phase 0 only before it was
reset. -/
theorem comesUp_mixed : ∃ s t, Reaches Step start s ∧
    s.Step (false, .step true) t ∧ s.ComesUp t false ∧
    ¬s.UpAgreed false := by
  have hreach : ∃ s, Reaches Step start s ∧
    ((s.apply (false, .step true)).any (fun t => s.ComesUp t false) &&
      ((s true).dev.out.drop (s false).mark).all (fun w => w.write != .ping 8)) = true :=
    Reaches.exists_of_foldlM mixedSessions (fun _ _ _ h => h) (by decide +kernel)
  obtain ⟨s, hrun, hs⟩ := hreach
  simp only [Bool.and_eq_true, Option.any_eq_true, decide_eq_true_eq,
    List.all_eq_true, bne_iff_ne] at hs
  obtain ⟨⟨t, hstep, hup⟩, hnone⟩ := hs
  refine ⟨s, t, hrun, hstep, hup, fun hagreed => ?_⟩
  obtain ⟨sess, hpeer⟩ := hagreed.peer
  exact hnone _ (hpeer 0 (by decide)) rfl

/-- Where every poll finds the state which the peer announced last, a side that comes up is agreed
with its peer. -/
theorem comesUp_agreed (hrun : Reaches PromptStep start s) (hstep : s.PromptStep (x, a) t)
    (hup : s.ComesUp t x) : s.UpAgreed x := by
  have h := agreed hrun
  obtain ⟨hst, hev, hdone⟩ := hstep.1.comesUp hup (h.orderly x)
  obtain ⟨hpeer, w, hw, hflag⟩ := (h.guarded x).event_up hev (by omega)
  refine ⟨?_, hpeer, ?_⟩
  · rw [(h.orderly x).hellos (by omega), hst]
    rfl
  · obtain ⟨before, ⟨sess, write⟩, after, hafter, hsome, hlast⟩ := exists_last_write ⟨w, hw, hflag⟩
    have harrived : s.arrived x = ((s.arrived x).take (s x).mark ++ before) ++
        ⟨sess, write⟩ :: after := by
      rw [List.append_assoc, ← hafter, List.take_append_drop]
    obtain ⟨flag, hwrite⟩ := Option.isSome_iff_exists.mp hsome
    obtain rfl : flag = true := by
      rw [harrived, lastDone, lastWritten_append_cons hwrite hlast] at hdone
      exact hdone
    obtain rfl := LinkWrite.eq_done_of_flag hwrite
    refine ⟨_, sess, after, harrived, ?_, hlast⟩
    have hlt : (s x).mark < (s.arrived x).length := by
      by_contra hge
      rw [List.drop_of_length_le (not_lt.mp hge)] at hw
      cases hw
    rw [List.length_append, List.length_take, min_eq_left hlt.le]
    exact Nat.le_add_right ..

theorem comesUp_agreed_bothUp : ∃ s t, Reaches PromptStep start s ∧
    s.PromptStep (false, .step true) t ∧
    s.ComesUp t false ∧ s.UpAgreed false := by
  have hreach : ∃ s, Reaches PromptStep start s ∧
      ((s.apply (false, .step true)).any fun t => s.ComesUp t false) = true :=
    Reaches.exists_of_foldlM bothUp.dropLast (fun _ _ _ => promptStep_of_apply) (by decide +kernel)
  obtain ⟨s, hrun, hs⟩ := hreach
  simp only [Option.any_eq_true, decide_eq_true_eq] at hs
  obtain ⟨t, hstep, hup⟩ := hs
  exact ⟨s, t, hrun, ⟨hstep, nofun⟩, hup, comesUp_agreed hrun ⟨hstep, nofun⟩ hup⟩

end Link

end Ntrdma
