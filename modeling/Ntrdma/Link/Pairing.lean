import Ntrdma.Link.Agreement
import Ntrdma.Link.Outputs

/-!
# Sessions that belong together

A side that chose a version goes on with the session that its peer is in at that time. Where every
poll finds the current state, and the link work goes by no poll from before the own reset
(`Link.SteadyStep`), the peer cannot start over and catch up with it: after a reset it sees the side
too far ahead to send its version. So what the peer writes in its hello, it writes in that session,
and neither side is more than one phase ahead.

The session is not in the state of the link. It is carried along with it (`Pairing`), together with
which of the states that a side holds were polled since it chose a version.
-/

namespace Ntrdma
open Lib

/-! ## The invariant -/

/-- The session of the peer in which a side chose a version, and whether what it goes by was polled
after that. -/
structure Pairing where
  entered : Option Nat
  freshPoll : Bool
  freshEvent : Bool

/-- A side by itself. A state from before it chose a version does not take it further than the first
phase. -/
structure Pairing.Own (p : Pairing) (n : LinkNode) : Prop where
  written : n.dev.Written
  entered : 5 ≤ n.dev.linkState → p.entered ≠ none
  not_entered : 2 ≤ n.dev.linkState → n.dev.linkState ≤ 4 → p.entered = none
  late : ∀ w ∈ n.dev.out, w.sess = n.dev.resetCnt → w.late = true → p.entered ≠ none
  poll_le : 7 ≤ n.dev.linkState → p.freshPoll = false → n.dev.pollMsg ≤ 7
  event_le : ∀ event, n.dev.event = some event → 7 ≤ n.dev.linkState →
    p.freshEvent = false → event ≤ 7
  running : ∀ event, n.dev.event = some event → 5 ≤ n.dev.linkState → n.dev.linkState ≤ 6 →
    event ≤ 5 ∨ p.freshPoll = true ∨ n.dev.pollMsg = event
  hello : n.dev.inHello = true → 7 ≤ n.dev.linkState ∧
    ∃ event, n.dev.event = some event ∧ n.dev.linkState ≤ event

/-- The side got to the state in the session, unless it failed or left the session since. -/
def Reached (sess : Nat) (dev : LinkDev) (state : Nat) : Prop :=
  state ≤ dev.linkState ∨ dev.linkState ≤ 1 ∨ sess < dev.resetCnt

/-- A side that was reset too late for its peer: no state that it holds takes it to the exchange of
versions. -/
structure Alone (n : LinkNode) : Prop where
  st : n.dev.linkState ≤ 3
  poll : n.polled = true → n.dev.pollMsg ≠ 3 ∧ n.dev.pollMsg ≠ 4
  event : ∀ event, n.dev.event = some event → event ≠ 3 ∧ event ≠ 4

/-- A state that was polled of a side in the session, with what the side wrote before it announced
it. -/
structure Backed (sess view : Nat) (dev : LinkDev) (state : Nat) : Prop where
  reached : Reached sess dev state
  ping : ∀ phase, 8 + phase ≤ state → ⟨sess, .ping (8 + phase)⟩ ∈ dev.out
  output : ∀ phase ≤ 2, 8 + phase ≤ state → HoldsOutput sess phase (· < view) dev.out

structure Coupled (p q : Pairing) (n m : LinkNode) : Prop where
  le : ∀ sess, p.entered = some sess → sess ≤ m.dev.resetCnt
  alone : ∀ sess, p.entered = some sess → sess < m.dev.resetCnt → Alone m
  poll : ∀ sess, p.entered = some sess → p.freshPoll = true → Backed sess n.view m.dev n.dev.pollMsg
  event : ∀ sess event, p.entered = some sess → p.freshEvent = true → n.dev.event = some event →
    Backed sess n.view m.dev event
  begun : ∀ sess phase whole, p.entered = some sess → 1 ≤ phase →
    ⟨n.dev.resetCnt, .hello phase whole⟩ ∈ n.dev.out → Reached sess m.dev (7 + phase)
  ahead : ∀ sess phase whole, p.entered = some sess → 1 ≤ phase →
    ⟨sess, .hello phase whole⟩ ∈ m.dev.out →
    7 + phase ≤ n.dev.linkState ∨ n.dev.linkState ≤ 1
  mark_le : n.mark ≤ m.dev.out.length
  before_mark : ∀ w ∈ m.dev.out.take n.mark, w.sess = m.dev.resetCnt → w.late = true →
    ∃ sess, q.entered = some sess ∧ sess < n.dev.resetCnt
  since_mark : ∀ sess, p.entered = some sess → ∀ w ∈ m.dev.out.take n.mark,
    w.sess = sess → w.late = false
  inputs : ∀ sess ∈ n.inputs, p.entered = some sess

/-! ## The acting side -/

namespace Alone
variable {n n' : LinkNode}

lemma keep (h : Alone n) (hst : n'.dev.linkState ≤ 3) (hpoll : n'.dev.pollMsg = n.dev.pollMsg)
    (hpolled : n'.polled = n.polled) (hev : n'.dev.event = none ∨ n'.dev.event = n.dev.event) :
    Alone n' := by
  refine ⟨hst, hpoll ▸ hpolled ▸ h.poll, fun event he => ?_⟩
  obtain hnone | hsame := hev
  · exact absurd (hnone.symm.trans he) nofun
  · exact h.event event (hsame.symm.trans he)

lemma fresh (hst : n.dev.linkState = 2) (hev : n.dev.event = none) (hpolled : n.polled = false) :
    Alone n :=
  ⟨by omega, fun h => absurd (hpolled.symm.trans h) nofun, fun _ h =>
    absurd (hev.symm.trans h) nofun⟩

end Alone

namespace Pairing
variable {p : Pairing} {n n' : LinkNode}

lemma Own.of_dev (h : p.Own n) (hdev : n'.dev = n.dev) : p.Own n' := by
  obtain ⟨dev, view, mark, polled, inputs⟩ := n'
  subst hdev
  exact ⟨h.written, h.entered, h.not_entered, h.late, h.poll_le, h.event_le, h.running, h.hello⟩

lemma Own.poll {msg : Nat} (h : p.Own n) (polled : Bool) :
    { p with freshPoll := true }.Own { n with dev := { n.dev with pollMsg := msg }, polled } where
  written := ⟨h.written.sess_le, h.written.ping, h.written.output⟩
  entered := h.entered
  not_entered := h.not_entered
  late := h.late
  poll_le _ := nofun
  event_le := h.event_le
  running _ _ _ _ := .inr (.inl rfl)
  hello := h.hello

lemma Own.begin (h : p.Own n) (hin : n.dev.inHello = false) :
    { p with freshEvent := p.freshPoll }.Own
      { n with dev := { n.dev with event := some n.dev.pollMsg } } where
  written := ⟨h.written.sess_le, h.written.ping, h.written.output⟩
  entered := h.entered
  not_entered := h.not_entered
  late := h.late
  poll_le := h.poll_le
  event_le event hev h7 hfresh := by
    rw [← Option.some.inj hev]
    exact h.poll_le h7 hfresh
  running event hev _ _ := .inr (.inr (Option.some.inj hev))
  hello hin' := absurd (hin.symm.trans hin') nofun

lemma Own.late_append {dev' : LinkDev} {ws : List Stamped} (h : p.Own n)
    (hout : dev'.out = n.dev.out ++ ws) (hws : ∀ w ∈ ws, LinkDev.Writes n.dev dev' w)
    (hsess : dev'.resetCnt = n.dev.resetCnt) :
    ∀ w ∈ dev'.out, w.sess = dev'.resetCnt → w.late = true → p.entered ≠ none := by
  intro w hw hs hlate
  rw [hout] at hw
  obtain hmem | hmem := List.mem_append.mp hw
  · exact h.late w hmem (hs.trans hsess) hlate
  · exact h.entered (le_trans (by decide) ((hws w hmem).late hlate).1)

lemma Own.keep (h : p.Own n) (hwritten : n'.dev.Written)
    (hlate : ∀ w ∈ n'.dev.out, w.sess = n'.dev.resetCnt → w.late = true → p.entered ≠ none)
    (hpoll : n'.dev.pollMsg = n.dev.pollMsg)
    (hev : n'.dev.event = none ∨ n'.dev.event = n.dev.event)
    (hst : n'.dev.linkState ≤ 1 ∨ n'.dev.linkState = n.dev.linkState ∨
      7 ≤ n.dev.linkState ∧ 7 ≤ n'.dev.linkState)
    (hhello : n'.dev.inHello = true → 7 ≤ n'.dev.linkState ∧ ∃ event, n'.dev.event = some event ∧
      n'.dev.linkState ≤ event) : p.Own n' := by
  have hevent (event : Nat) (he : n'.dev.event = some event) : n.dev.event = some event := by
    obtain hnone | hsame := hev
    · exact absurd (hnone.symm.trans he) nofun
    · exact hsame.symm.trans he
  refine ⟨hwritten, fun h5 => h.entered (by omega), fun h2 h4 =>
    h.not_entered (by omega) (by omega), hlate, ?_, ?_, ?_,
    hhello⟩
  · exact fun h7 => hpoll ▸ h.poll_le (by omega)
  · exact fun event he h7 => h.event_le event (hevent event he) (by omega)
  · exact fun event he h5 h6 => hpoll ▸ h.running event (hevent event he) (by omega) (by omega)

variable {event : Nat}

lemma Own.next (h : p.Own n) (hwritten : n'.dev.Written)
    (hlate : ∀ w ∈ n'.dev.out, w.sess = n'.dev.resetCnt → w.late = true → p.entered ≠ none)
    (hev : n.dev.event = some event) (hpoll : n'.dev.pollMsg = n.dev.pollMsg)
    (hev' : n'.dev.event = n.dev.event) (hge : 2 ≤ n.dev.linkState) (hle : n.dev.linkState ≤ 6)
    (hne : n.dev.linkState ≠ 4) (hst : n'.dev.linkState = n.dev.linkState + 1)
    (he : n.dev.linkState = 2 ∨ event = n.dev.linkState ∨ event = n.dev.linkState + 1)
    (hin : n'.dev.inHello = false) : p.Own n' := by
  have hevent {e : Nat} (he' : n'.dev.event = some e) : event = e :=
    Option.some.inj (hev.symm.trans (hev'.symm.trans he'))
  refine ⟨hwritten, fun h5 => h.entered (by omega), fun _ h4 => h.not_entered hge (by omega), hlate,
    fun h7 hfresh => ?_, fun e he' h7 _ => ?_, fun e he' h5 h6 => ?_, fun h =>
      absurd (hin.symm.trans h) nofun⟩
  · have hrun := h.running event hev (by omega) (by omega)
    rw [hfresh] at hrun
    rw [hpoll]
    obtain h5 | hfalse | heq := hrun
    · omega
    · cases hfalse
    · omega
  · have := hevent he'
    omega
  · obtain rfl := hevent he'
    exact hpoll ▸ h.running event hev (by omega) (by omega)

lemma Own.enter (sess : Nat) (hwritten : n'.dev.Written) (hev : n'.dev.event = some event)
    (hst : n'.dev.linkState = 5) (he : event ≤ 5) (hin : n'.dev.inHello = false) :
    Own ⟨some sess, false, false⟩ n' where
  written := hwritten
  entered _ := nofun
  not_entered _ h4 := absurd h4 (by omega)
  late _ _ _ _ := nofun
  poll_le h7 := absurd h7 (by omega)
  event_le _ _ h7 := absurd h7 (by omega)
  running e he' _ _ := .inl (Option.some.inj (hev.symm.trans he') ▸ he)
  hello h := absurd (hin.symm.trans h) nofun

lemma Own.reset (hwritten : n'.dev.Written) (hev : n'.dev.event = none) (hst : n'.dev.linkState = 2)
    (hlate : ∀ w ∈ n'.dev.out, w.sess = n'.dev.resetCnt → w.late = false)
    (hin : n'.dev.inHello = false) : Own ⟨none, false, false⟩ n' where
  written := hwritten
  entered h5 := absurd h5 (by omega)
  not_entered _ _ := rfl
  late w hw hs hl := absurd ((hlate w hw hs).symm.trans hl) nofun
  poll_le h7 := absurd h7 (by omega)
  event_le _ _ h7 := absurd h7 (by omega)
  running e he' := absurd (hev.symm.trans he') nofun
  hello h := absurd (hin.symm.trans h) nofun

end Pairing

section
variable {sess view : Nat} {dev dev' : LinkDev} {state : Nat} {ws : List Stamped}

lemma LinkDev.Progress.reached {event : Nat} (hprog : LinkDev.Progress event dev dev')
    (hle : sess ≤ dev.resetCnt) (h : Reached sess dev state) : Reached sess dev' state := by
  rw [Reached] at h ⊢
  cases hprog with
  | back hback => exact .inr (.inl hback.st)
  | reset => omega
  | next => omega
  | stay => omega
  | helloBegin => omega
  | helloDone => omega

lemma Backed.zero : Backed sess view dev 0 :=
  ⟨.inl (Nat.zero_le _), fun _ h => absurd h (by omega), fun _ _ h => absurd h (by omega)⟩

lemma Backed.mono {view' : Nat} (h : Backed sess view dev state) (hview : view ≤ view') :
    Backed sess view' dev state :=
  ⟨h.reached, h.ping, fun phase h2 hphase => (h.output phase h2 hphase).mono fun _ hi =>
    hi.trans_le hview⟩

lemma Backed.append (h : Backed sess view dev state) (hreached : Reached sess dev' state)
    (hout : dev'.out = dev.out ++ ws) (hws : ∀ w ∈ ws, LinkDev.Writes dev dev' w)
    (hle : sess ≤ dev.resetCnt) (halone : sess < dev.resetCnt → dev.linkState ≤ 3) :
    Backed sess view dev' state := by
  refine ⟨hreached, fun phase hphase => ?_, fun phase h2 hphase => ?_⟩
  · rw [hout]
    exact List.mem_append_left _ (h.ping phase hphase)
  · rw [hout]
    refine (h.output phase h2 hphase).append fun w hw hhalf => ?_
    have hwrites := hws w hw
    obtain ⟨wsess, write⟩ := w
    cases write with
    | ping => cases hhalf
    | done => cases hhalf
    | hello last whole =>
      obtain ⟨h7, hsame⟩ := hwrites.late rfl
      obtain ⟨hst, -⟩ := hwrites.hello last whole rfl
      have hsess : wsess = sess := by
        rw [show wsess = dev'.resetCnt from hwrites.sess, hsame]
        by_contra hne
        have := halone (by omega)
        omega
      refine ⟨last, whole, by rw [hsess], ?_⟩
      have hreach := h.reached
      rw [Reached] at hreach
      by_contra hge
      have := halone (by omega)
      omega

lemma backed_of_current (hwritten : dev.Written) (hcur : ∀ i, Announces dev.out i → i < view)
    (hle : sess ≤ dev.resetCnt) (halone : sess < dev.resetCnt → dev.linkState ≤ 3) :
    Backed sess view dev dev.linkState := by
  have hsess {phase : Nat} (hphase : 8 + phase ≤ dev.linkState) : dev.resetCnt = sess := by
    by_contra hne
    have := halone (by omega)
    omega
  refine ⟨.inl le_rfl, fun phase hphase => ?_, fun phase h2 hphase => ?_⟩
  · exact hsess hphase ▸ hwritten.ping phase hphase
  · exact hsess hphase ▸ (hwritten.output phase h2 hphase).mono hcur

end

namespace Coupled
variable {p q : Pairing} {n n' m m' : LinkNode}

lemma arrive (h : Coupled p q n m) : Coupled p q { n with view := n.view + 1 } m where
  le := h.le
  alone := h.alone
  poll sess hp hfresh := (h.poll sess hp hfresh).mono (Nat.le_succ _)
  event sess event hp hfresh hev := (h.event sess event hp hfresh hev).mono (Nat.le_succ _)
  begun := h.begun
  ahead := h.ahead
  mark_le := h.mark_le
  before_mark := h.before_mark
  since_mark := h.since_mark
  inputs := h.inputs

lemma polled {msg : Nat} (h : Coupled p q n m) (polled : Bool)
    (hmsg : ∀ sess, p.entered = some sess → Backed sess n.view m.dev msg) :
    Coupled { p with freshPoll := true } q
      { n with dev := { n.dev with pollMsg := msg }, polled } m where
  le := h.le
  alone := h.alone
  poll sess hp _ := hmsg sess hp
  event := h.event
  begun := h.begun
  ahead := h.ahead
  mark_le := h.mark_le
  before_mark := h.before_mark
  since_mark := h.since_mark
  inputs := h.inputs

lemma begin (h : Coupled p q n m) : Coupled { p with freshEvent := p.freshPoll } q
    { n with dev := { n.dev with event := some n.dev.pollMsg } } m where
  le := h.le
  alone := h.alone
  poll := h.poll
  event sess event hp hfresh hev := by
    rw [← Option.some.inj hev]
    exact h.poll sess hp hfresh
  begun := h.begun
  ahead := h.ahead
  mark_le := h.mark_le
  before_mark := h.before_mark
  since_mark := h.since_mark
  inputs := h.inputs

lemma keep (h : Coupled p q n m) (hview : n'.view = n.view) (hmark : n'.mark = n.mark)
    (hsess : n'.dev.resetCnt = n.dev.resetCnt) (hpoll : n'.dev.pollMsg = n.dev.pollMsg)
    (hev : n'.dev.event = none ∨ n'.dev.event = n.dev.event)
    (hst : n'.dev.linkState ≤ 1 ∨ n.dev.linkState ≤ n'.dev.linkState ∧
      (n.dev.linkState ≤ 1 → n'.dev.linkState ≤ 1))
    (hbegun : ∀ sess phase whole, p.entered = some sess → 1 ≤ phase →
      ⟨n'.dev.resetCnt, .hello phase whole⟩ ∈ n'.dev.out → Reached sess m.dev (7 + phase))
    (hinputs : ∀ sess ∈ n'.inputs, p.entered = some sess) : Coupled p q n' m where
  le := h.le
  alone := h.alone
  poll sess hp hfresh := hview ▸ hpoll ▸ h.poll sess hp hfresh
  event sess event hp hfresh he := by
    obtain hnone | hsame := hev
    · exact absurd (hnone.symm.trans he) nofun
    · exact hview ▸ h.event sess event hp hfresh (hsame.symm.trans he)
  begun := hbegun
  ahead sess phase whole hp h1 hmem := by
    have := h.ahead sess phase whole hp h1 hmem
    omega
  mark_le := hmark ▸ h.mark_le
  before_mark := hmark ▸ hsess ▸ h.before_mark
  since_mark := hmark ▸ h.since_mark
  inputs := hinputs

lemma enter (h : Coupled p q n m) (hpeer : Coupled q p m n) (ho : p.Own n) (hoq : q.Own m)
    (hst : n.dev.linkState = 4) (hmark : n'.mark = n.mark)
    (hsess : n'.dev.resetCnt = n.dev.resetCnt) (hinputs : ∀ sess ∈ n'.inputs, p.entered = some sess)
    (hlate : ∀ w ∈ n'.dev.out, w.sess = n'.dev.resetCnt → w.late = true → p.entered ≠ none) :
    Coupled ⟨some m.dev.resetCnt, false, false⟩ q n' m := by
  have hnone : p.entered = none := ho.not_entered (by omega) (by omega)
  have hwith (sess : Nat) (hq : q.entered = some sess) : ¬sess < n.dev.resetCnt := fun hlt => by
    have := (hpeer.alone sess hq hlt).st
    omega
  refine ⟨fun sess hp => ?_, fun sess hp hlt => ?_, nofun, nofun,
    fun sess phase whole _ _ hmem => ?_,
    fun sess phase whole hp h1 hmem => ?_, hmark ▸ h.mark_le, hmark ▸ hsess ▸ h.before_mark,
      fun sess hp w hw hs => ?_,
    fun sess hmem => ?_⟩
  · exact (Option.some.inj hp).ge
  · exact absurd hlt (Option.some.inj hp ▸ lt_irrefl _)
  · exact absurd hnone (hlate _ hmem rfl rfl)
  · cases hp
    obtain ⟨sess, hq⟩ := Option.ne_none_iff_exists'.mp (hoq.late _ hmem rfl rfl)
    have hreached := hpeer.begun sess phase whole hq h1 hmem
    have := hwith sess hq
    rw [Reached] at hreached
    omega
  · cases hp
    by_contra hl
    rw [hmark] at hw
    obtain ⟨sess, hq, hlt⟩ := h.before_mark w hw hs (Bool.not_eq_false _ ▸ hl)
    exact hwith sess hq hlt
  · exact absurd (hnone.symm.trans (hinputs sess hmem)) nofun

lemma reset (hpeer : Coupled q p m n) (hoq : q.Own m) (hmark : n'.mark = m.dev.out.length)
    (hinputs : n'.inputs = []) (hsess : n.dev.resetCnt < n'.dev.resetCnt) :
    Coupled ⟨none, false, false⟩ q n' m := by
  refine ⟨nofun, nofun, nofun, nofun, nofun, nofun, hmark.le, fun w hw hs hl => ?_, nofun, ?_⟩
  · obtain ⟨sess, hq⟩ := Option.ne_none_iff_exists'.mp (hoq.late w (List.mem_of_mem_take hw) hs hl)
    exact ⟨sess, hq, (hpeer.le sess hq).trans_lt hsess⟩
  · rw [hinputs]
    exact nofun

lemma hello_backed {event : Nat} (phase : Nat) (h : Coupled p q n m) (ho : p.Own n)
    (hev : n.dev.event = some event) (hst : n.dev.linkState = 7 + phase)
    (hle : n.dev.linkState ≤ event) (h1 : 1 ≤ phase) :
    ∃ sess, p.entered = some sess ∧ Backed sess n.view m.dev event := by
  obtain ⟨sess, hp⟩ := Option.ne_none_iff_exists'.mp (ho.entered (by omega))
  refine ⟨sess, hp, h.event sess event hp ?_ hev⟩
  by_contra hfresh
  have := ho.event_le event hev (by omega) (Bool.not_eq_true _ ▸ hfresh)
  omega

variable {ws : List Stamped}

lemma begun_append (h : Coupled p q n m) (ho : p.Own n) (hout : n'.dev.out = n.dev.out ++ ws)
    (hws : ∀ w ∈ ws, LinkDev.Writes n.dev n'.dev w) (hsess : n'.dev.resetCnt = n.dev.resetCnt) :
    ∀ sess phase whole, p.entered = some sess → 1 ≤ phase →
      ⟨n'.dev.resetCnt, .hello phase whole⟩ ∈ n'.dev.out → Reached sess m.dev (7 + phase) := by
  intro sess phase whole hp h1 hmem
  rw [hout] at hmem
  obtain hold | hnew := List.mem_append.mp hmem
  · exact h.begun sess phase whole hp h1 (hsess ▸ hold)
  · obtain ⟨hst, event, hev, hle⟩ := (hws _ hnew).hello phase whole rfl
    obtain ⟨sess', hp', hback⟩ := h.hello_backed phase ho hev hst hle h1
    obtain rfl := Option.some.inj (hp.symm.trans hp')
    exact hback.reached.imp (fun hge => by omega) id

lemma peer {q' : Pairing} (h : Coupled p q n m) (hpeer : Coupled q p m n) (ho : p.Own n)
    (hoq : q.Own m)
    (hreached : ∀ sess state, sess ≤ m.dev.resetCnt → Reached sess m.dev state →
      Reached sess m'.dev state) (hsess : m.dev.resetCnt ≤ m'.dev.resetCnt)
    (hout : m'.dev.out = m.dev.out ++ ws) (hws : ∀ w ∈ ws, LinkDev.Writes m.dev m'.dev w)
    (halone : ∀ sess, p.entered = some sess → sess < m'.dev.resetCnt → Alone m')
    (hq : q'.entered = q.entered ∨ m.dev.resetCnt < m'.dev.resetCnt ∨ q.entered = none) :
    Coupled p q' n m' := by
  have hbacked {sess state : Nat} (hp : p.entered = some sess)
    (hb : Backed sess n.view m.dev state) :
      Backed sess n.view m'.dev state :=
    hb.append (hreached sess state (h.le sess hp) hb.reached) hout hws (h.le sess hp) fun hlt =>
      (h.alone sess hp hlt).st
  have htake : m'.dev.out.take n.mark = m.dev.out.take n.mark := by
    rw [hout, List.take_append_of_le_length h.mark_le]
  refine ⟨fun sess hp => (h.le sess hp).trans hsess, halone, fun sess hp hfresh =>
    hbacked hp (h.poll sess hp hfresh),
    fun sess event hp hfresh hev => hbacked hp (h.event sess event hp hfresh hev),
      fun sess phase whole hp h1 hmem => ?_,
    fun sess phase whole hp h1 hmem => ?_, ?_, fun w hw hs hl => ?_,
      fun sess hp w hw => ?_, h.inputs⟩
  · exact hreached sess _ (h.le sess hp) (h.begun sess phase whole hp h1 hmem)
  · rw [hout] at hmem
    obtain hold | hnew := List.mem_append.mp hmem
    · exact h.ahead sess phase whole hp h1 hold
    · -- the peer goes by a state of this side, which is where its phase is at least
      obtain ⟨hst, event, hev, hle⟩ := (hws _ hnew).hello phase whole rfl
      obtain ⟨sess', hq', hback⟩ := hpeer.hello_backed phase hoq hev hst hle h1
      obtain hge | hlow | hlt := hback.reached
      · omega
      · exact .inr hlow
      · have h3 := (hpeer.alone sess' hq' hlt).st
        by_contra hnot
        exact absurd ((ho.not_entered (by omega) (by omega)).symm.trans hp) nofun
  · rw [hout, List.length_append]
    exact h.mark_le.trans (Nat.le_add_right ..)
  · rw [htake] at hw
    obtain hsame | hlt | hnone := hq
    · have hs' : m'.dev.resetCnt = m.dev.resetCnt :=
        le_antisymm (hs ▸ hoq.written.sess_le w (List.mem_of_mem_take hw)) hsess
      rw [hsame]
      exact h.before_mark w hw (hs.trans hs') hl
    · have := hoq.written.sess_le w (List.mem_of_mem_take hw)
      omega
    · have hs' : m'.dev.resetCnt = m.dev.resetCnt :=
        le_antisymm (hs ▸ hoq.written.sess_le w (List.mem_of_mem_take hw)) hsess
      exact absurd hnone (hoq.late w (List.mem_of_mem_take hw) (hs.trans hs') hl)
  · rw [htake] at hw
    exact h.since_mark sess hp w hw

end Coupled

end Ntrdma
