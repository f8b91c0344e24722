import Ntrdma.Lib.Run
import Ntrdma.Link.Basic

/-!
# The calls of the upper layer

The order in which the link work calls the upper layer (`ntc_ctx_hello`, `ntc_ctx_enable`, …), for
any sequence of states of the peer, of failures and of requests for a reset. What may be called is
stated over the calls before it (`Permitted`); the invariant that carries it (`LinkDev.Orderly`)
ties the flag `link_is_up` and the done flag to the state of the link.
-/

namespace Ntrdma
open Lib

/-! ## What may be called when -/

def isEnabled (calls : List CtxCall) : Bool :=
  calls.foldl (fun on c => match c with
    | .enable _ => true
    | .disable => false
    | _ => on) false

def hellosSince (calls : List CtxCall) : List Nat :=
  calls.foldl (fun phases c => match c with
    | .hello phase true => phases ++ [phase]
    | .reset => []
    | _ => phases) []

/-- Enabling and disabling take turns, quiescing comes while disabled, between enabling and the next
reset there are both, and enabling has each hello phase behind it once, in order, since the last
reset. -/
def Permitted (calls : List CtxCall) : CtxCall → Prop
  | .hello _ _ => True
  | .enable _ => isEnabled calls = false ∧ hellosSince calls = [0, 1, 2, 3]
  | .disable => isEnabled calls = true
  | .quiesce => isEnabled calls = false
  | .reset => ∀ before ok between, calls = before ++ .enable ok :: between → .reset ∉ between →
      ∃ first second rest, between = first ++ .disable :: second ++ .quiesce :: rest

def Disciplined (calls : List CtxCall) : Prop :=
  ∀ before c after, calls = before ++ c :: after → Permitted before c

section
variable {calls : List CtxCall} {c : CtxCall}

lemma Disciplined.nil : Disciplined [] := fun _ _ _ h => absurd h (by simp)

lemma Disciplined.snoc (h : Disciplined calls) (hc : Permitted calls c) :
    Disciplined (calls ++ [c]) := by
  intro before c' after heq
  obtain rfl | ⟨after', last, rfl⟩ := after.eq_nil_or_concat
  · obtain ⟨rfl, hlast⟩ := List.append_inj' heq rfl
    rw [← List.cons_inj_right .disable] at hlast
    cases hlast
    exact hc
  · rw [List.concat_eq_append, ← List.cons_append, ← List.append_assoc] at heq
    exact h before c' after' (List.append_inj' heq rfl).1

lemma isEnabled_snoc (calls : List CtxCall) (c : CtxCall) : isEnabled (calls ++ [c]) =
    match c with
    | .enable _ => true
    | .disable => false
    | _ => isEnabled calls := List.foldl_append ..

lemma hellosSince_snoc (calls : List CtxCall) (c : CtxCall) : hellosSince (calls ++ [c]) =
    match c with
    | .hello phase true => hellosSince calls ++ [phase]
    | .reset => []
    | _ => hellosSince calls := List.foldl_append ..

lemma disable_mem {before between : List CtxCall} {ok : Bool}
    (h : isEnabled (before ++ .enable ok :: between) = false) : .disable ∈ between := by
  rw [isEnabled, List.foldl_append, List.foldl_cons] at h
  dsimp only at h
  induction between with
  | nil => cases h
  | cons c _ ih =>
    rw [List.foldl_cons] at h
    cases c with
    | disable => exact List.mem_cons_self ..
    | hello => exact List.mem_cons_of_mem _ (ih h)
    | enable => exact List.mem_cons_of_mem _ (ih h)
    | quiesce => exact List.mem_cons_of_mem _ (ih h)
    | reset => exact List.mem_cons_of_mem _ (ih h)

lemma permitted_reset (h : isEnabled calls = false) : Permitted (calls ++ [.quiesce]) .reset := by
  intro before ok between heq _
  obtain rfl | ⟨between', last, rfl⟩ := between.eq_nil_or_concat
  · exact absurd (List.append_inj' heq rfl).2 (by simp)
  · rw [List.concat_eq_append, ← List.cons_append, ← List.append_assoc] at heq
    obtain ⟨rfl, hlast⟩ := List.append_inj' heq rfl
    obtain ⟨first, second, rfl⟩ := List.append_of_mem (disable_mem h)
    refine ⟨first, second, [], ?_⟩
    rw [List.concat_eq_append, ← hlast]

end

/-! ## The state behind the calls -/

/-- The calls so far were in order, and the state of the link tells which may come next. -/
structure LinkDev.Orderly (dev : LinkDev) : Prop where
  disciplined : Disciplined dev.calls
  enabled : isEnabled dev.calls = dev.linkIsUp
  up : dev.linkIsUp = true → dev.linkState = 0 ∨ dev.linkState = 11
  le : dev.linkState ≤ 11
  self : 5 ≤ dev.linkState → (dev.selfInfoDone = true ↔ dev.linkState = 11)
  hellos : 2 ≤ dev.linkState → hellosSince dev.calls = List.range (dev.linkState - 7)
  quiesced : dev.linkState = 1 → Permitted dev.calls .reset
  hello : dev.inHello = true → dev.event.isSome = true ∧ 7 ≤ dev.linkState

namespace LinkDev
variable {dev : LinkDev}

lemma phase_eq (dev : LinkDev) : dev.phase = dev.linkState - 7 :=
    Nat.add_sub_add_right dev.linkState 1 7

lemma error_eq (h : 1 < dev.linkState) : dev.error = dev.linkSetState 0 := if_pos h

lemma error_inHello (dev : LinkDev) : dev.error.inHello = dev.inHello := by
  rw [error]
  split <;> rfl

lemma Orderly.down (h : dev.Orderly) (hst : dev.linkState ≠ 0) (hst' : dev.linkState ≠ 11) :
    dev.linkIsUp = false := by
  by_contra hup
  have := h.up (Bool.not_eq_false _ ▸ hup)
  omega

lemma Orderly.idle (h : dev.Orderly) (hidle : dev.event.isNone = true) : dev.inHello = false := by
  by_contra hh
  have := (h.hello (by simpa using hh)).1
  rw [← Option.not_isNone, hidle] at this
  exact absurd this (by decide)

lemma Orderly.linkSetState {st : Nat} (h : dev.Orderly) (hfrom : 2 ≤ dev.linkState)
    (hst : dev.linkState ≤ 7) (hto : 2 ≤ st ∧ st ≤ 7) (hin : dev.inHello = false)
    (hself : 5 ≤ st → dev.selfInfoDone = false) : (dev.linkSetState st).Orderly where
  disciplined := h.disciplined
  enabled := h.enabled
  up hup :=
    absurd hup
    (by rw [show (dev.linkSetState st).linkIsUp = dev.linkIsUp from rfl, h.down] <;> simp <;> omega)
  le := show st ≤ 11 by omega
  self h5 := by
    rw [show (dev.linkSetState st).selfInfoDone = dev.selfInfoDone from rfl, hself h5]
    exact ⟨nofun, fun h11 => absurd (show st = 11 from h11) (by omega)⟩
  hellos _ := by
    have hold := h.hellos hfrom
    rw [show dev.linkState - 7 = 0 by omega] at hold
    rw [show (dev.linkSetState st).linkState - 7 = 0 from show st - 7 = 0 by omega]
    exact hold
  quiesced h1 := absurd (show st = 1 from h1) (by omega)
  hello hh := absurd (show dev.inHello = true from hh) (by rw [hin]; simp)

lemma Orderly.error (h : dev.Orderly) (hst : 1 < dev.linkState) (hin : dev.inHello = false) :
    dev.error.Orderly := by
  rw [error_eq hst]
  exact ⟨h.disciplined, h.enabled, fun _ => .inl rfl, Nat.zero_le _,
    fun h5 => absurd (show 5 ≤ 0 from h5) (by decide), fun h2 =>
      absurd (show 2 ≤ 0 from h2) (by decide),
    fun h1 => absurd (show 0 = 1 from h1) (by decide),
    fun hh => absurd (show dev.inHello = true from hh) (by rw [hin]; simp)⟩

lemma Orderly.finish (h : dev.Orderly) (hin : dev.inHello = false) :
    { dev with event := none }.Orderly :=
  ⟨h.disciplined, h.enabled, h.up, h.le, h.self, h.hellos, h.quiesced, fun hh =>
    absurd hh (by simp [hin])⟩

lemma linkUpdate_false_eq (dev : LinkDev) (ok : Bool) : dev.linkUpdate false ok =
    if dev.linkIsUp then { dev with linkIsUp := false }.call .disable else dev := by
  cases hup : dev.linkIsUp <;> simp [linkUpdate, hup]

lemma Orderly.linkUpdate_false (h : dev.Orderly) (ok : Bool) :
    (dev.linkUpdate false ok).Orderly := by
  rw [linkUpdate_false_eq]
  split
  next hup =>
    have hst := h.up hup
    refine ⟨h.disciplined.snoc (h.enabled.trans hup), isEnabled_snoc _ _, nofun,
      h.le, h.self, ?_, ?_, h.hello⟩
    · exact fun h2 => (hellosSince_snoc _ _).trans (h.hellos h2)
    · exact fun h1 => absurd (show dev.linkState = 1 from h1) (by omega)
  next => exact h

lemma linkUpdate_false_inHello (dev : LinkDev) (ok : Bool) :
    (dev.linkUpdate false ok).inHello = dev.inHello := by
  rw [linkUpdate_false_eq]
  split <;> rfl

lemma Orderly.leave_false (h : dev.Orderly) (hin : dev.inHello = false) (ok : Bool) :
    (dev.leave false ok).Orderly :=
  (h.linkUpdate_false ok).finish ((linkUpdate_false_inHello dev ok).trans hin)

lemma Orderly.leave_true (h : dev.Orderly) (hin : dev.inHello = false) (hst : dev.linkState = 11)
    (ok : Bool) : (dev.leave true ok).Orderly := by
  rw [leave, linkUpdate]
  split
  · exact h.finish hin
  next hdown =>
    rw [Bool.not_eq_true] at hdown
    have hphases : hellosSince dev.calls = [0, 1, 2, 3] := by rw [h.hellos (by omega), hst]; rfl
    have henabled : ({ dev with linkIsUp := true }.call (.enable ok)).Orderly :=
      ⟨h.disciplined.snoc ⟨h.enabled.trans hdown, hphases⟩, isEnabled_snoc _ _,
        fun _ => .inr hst, h.le, h.self,
        fun h2 => (hellosSince_snoc _ _).trans (h.hellos h2),
        fun h1 => absurd (show dev.linkState = 1 from h1) (by omega), h.hello⟩
    cases ok with
    | true => exact henabled.finish hin
    | false =>
      refine (henabled.error (show 1 < dev.linkState by omega) hin).finish ?_
      rw [error_inHello]
      exact hin

lemma Orderly.quiesce (h : dev.Orderly) (hin : dev.inHello = false) : dev.quiesce.Orderly := by
  have hdown := h.linkUpdate_false true
  have hoff : isEnabled (dev.linkUpdate false true).calls = false := by
    rw [hdown.enabled, linkUpdate_false_eq]
    split
    · rfl
    next hup => simpa using hup
  refine ⟨hdown.disciplined.snoc hoff, ?_, ?_, show 1 ≤ 11 by decide, fun h5 =>
    absurd (show 5 ≤ 1 from h5) (by decide),
    fun h2 => absurd (show 2 ≤ 1 from h2) (by decide), fun _ => permitted_reset hoff, ?_⟩
  · rw [show dev.quiesce.calls = (dev.linkUpdate false true).calls ++ [.quiesce] from rfl,
      isEnabled_snoc]
    exact hdown.enabled
  · intro hup
    rw [show dev.quiesce.linkIsUp = (dev.linkUpdate false true).linkIsUp from rfl,
      ← hdown.enabled, hoff] at hup
    cases hup
  · intro hh
    rw [show dev.quiesce.inHello = (dev.linkUpdate false true).inHello from rfl,
      linkUpdate_false_inHello, hin] at hh
    cases hh

lemma Orderly.reset (h : dev.Orderly) (hin : dev.inHello = false) (hst : dev.linkState = 1) :
    dev.reset.Orderly where
  disciplined := h.disciplined.snoc (h.quiesced hst)
  enabled := (isEnabled_snoc _ _).trans h.enabled
  up hup := absurd (show dev.linkIsUp = true from hup) (by rw [h.down (by omega) (by omega)]; simp)
  le := show 2 ≤ 11 by decide
  self h5 := absurd (show 5 ≤ 2 from h5) (by decide)
  hellos _ := hellosSince_snoc _ _
  quiesced h1 := absurd (show 2 = 1 from h1) (by decide)
  hello hh := absurd (show dev.inHello = true from hh) (by rw [hin]; simp)

lemma Orderly.chooseVersion (h : dev.Orderly) (hin : dev.inHello = false)
    (hst : dev.linkState = 4) : dev.chooseVersion.Orderly := by
  have hcleared : { dev.write (.done false) with selfInfoDone := false }.Orderly :=
    ⟨h.disciplined, h.enabled, h.up, h.le, fun h5 =>
      absurd (show 5 ≤ dev.linkState from h5) (by omega), h.hellos,
      h.quiesced, h.hello⟩
  exact hcleared.linkSetState (show 2 ≤ dev.linkState by omega)
    (show dev.linkState ≤ 7 by omega) (by decide) hin
    fun _ => rfl

lemma helloBegin_eq (dev : LinkDev) : ∃ out, dev.helloBegin =
    { dev with inHello := true, out } := by
  simp only [LinkDev.helloBegin]
  split
  · exact ⟨_, rfl⟩
  · exact ⟨dev.out, rfl⟩

variable {event : Nat}

lemma Orderly.helloBegin (h : dev.Orderly) (hev : dev.event = some event)
    (hst : 7 ≤ dev.linkState) : dev.helloBegin.Orderly := by
  obtain ⟨out, heq⟩ := dev.helloBegin_eq
  rw [heq]
  exact ⟨h.disciplined, h.enabled, h.up, h.le, h.self, h.hellos, h.quiesced,
    fun _ => ⟨by rw [hev]; rfl, hst⟩⟩

lemma helloDone_eq (dev : LinkDev) (hst : 7 ≤ dev.linkState) : ∃ out, dev.helloDone =
    { dev with
      linkState := dev.linkState + 1, inHello := false, out
      selfInfoDone := if dev.linkState = 10 then true else dev.selfInfoDone
      calls := dev.calls ++ [.hello (dev.linkState - 7) true] } := by
  have hphase := dev.phase_eq
  have hnext : 8 + (dev.linkState - 7) = dev.linkState + 1 := by omega
  have hlast : dev.linkState - 7 = 3 ↔ dev.linkState = 10 := by omega
  simp only [helloDone, hphase, hnext, hlast]
  split
  · split
    · exact ⟨_, rfl⟩
    · exact ⟨_, rfl⟩
  · split
    · exact ⟨_, rfl⟩
    · exact ⟨_, rfl⟩

lemma Orderly.helloDone (h : dev.Orderly) (hin : dev.inHello = true) (hphase : dev.phase ≤ 3) :
    dev.helloDone.Orderly := by
  have hst := (h.hello hin).2
  have hle : dev.linkState ≤ 10 := by rw [phase_eq] at hphase; omega
  obtain ⟨out, heq⟩ := dev.helloDone_eq hst
  rw [heq]
  refine ⟨h.disciplined.snoc trivial, (isEnabled_snoc _ _).trans h.enabled, ?_,
    show dev.linkState + 1 ≤ 11 by omega, ?_, ?_, fun h1 =>
      absurd (show dev.linkState + 1 = 1 from h1) (by omega), nofun⟩
  · intro hup
    exact absurd (show dev.linkIsUp = true from hup) (by rw [h.down (by omega) (by omega)]; simp)
  · intro _
    have hself := h.self (by omega)
    dsimp only
    split
    next hlast => exact ⟨fun _ => by omega, fun _ => rfl⟩
    next hnot =>
      rw [hself]
      omega
  · intro _
    dsimp only
    rw [hellosSince_snoc, h.hellos (by omega),
      show dev.linkState + 1 - 7 = dev.linkState - 7 + 1 by omega,
      List.range_succ]

lemma Orderly.helloFailed (h : dev.Orderly) (hin : dev.inHello = true) :
    dev.helloFailed.Orderly := by
  have hst := (h.hello hin).2
  have hcalled : { dev.call (.hello dev.phase false) with inHello := false }.Orderly :=
    ⟨h.disciplined.snoc trivial, (isEnabled_snoc _ _).trans h.enabled, h.up, h.le, h.self,
      fun h2 => (hellosSince_snoc _ _).trans (h.hellos h2),
      fun h1 => absurd (show dev.linkState = 1 from h1) (by omega), nofun⟩
  have herror := hcalled.error (show 1 < dev.linkState by omega) rfl
  have hhello : { dev.call (.hello dev.phase false) with inHello := false }.error.inHello = false :=
    error_inHello _
  rw [LinkDev.helloFailed]
  dsimp only
  split
  · exact herror.leave_false hhello true
  · exact herror.finish hhello

lemma WorkStep.orderly {dev' : LinkDev} {peerDone : Bool}
    (hstep : WorkStep peerDone event dev dev') (h : dev.Orderly)
    (hev : dev.event = some event) : dev'.Orderly := by
  cases hstep with
  | quiesce hin => exact h.quiesce hin
  | reset hin hst ok => exact (h.reset hin hst).leave_false hin ok
  | start hin =>
    exact h.linkSetState (by omega) (by omega) (by decide) hin (fun h5 => absurd h5 (by decide))
  | sendVersion hin =>
    exact h.linkSetState (by omega) (by omega) (by decide) hin (fun h5 => absurd h5 (by decide))
  | chooseVersion hin hst => exact h.chooseVersion hin hst
  | move hin =>
    refine h.linkSetState (by omega) (by omega) (by omega) hin fun _ => ?_
    by_contra hself
    have := (h.self (by omega)).mp (by simpa using hself)
    omega
  | wait hin ok => exact h.leave_false hin ok
  | fail hin _ ok =>
    exact (h.error (by omega) hin).leave_false (dev.error_inHello.trans hin) ok
  | abandon hin => exact (h.error (by omega) hin).finish (dev.error_inHello.trans hin)
  | helloBegin _ hst => exact h.helloBegin hev hst
  | helloDone hin hphase => exact h.helloDone hin hphase
  | helloFailed hin => exact h.helloFailed hin
  | up hin _ _ hself _ ok => exact h.leave_true hin ((h.self (by omega)).mp hself) ok

lemma start_orderly : start.Orderly :=
  ⟨.nil, rfl, nofun, by decide, fun h => absurd h (by decide), fun _ => rfl, fun h =>
    absurd h (by decide), nofun⟩

end LinkDev

lemma devStep_orderly {dev dev' : LinkDev} {ev : LinkEvent} (h : dev.Orderly)
    (hstep : devStep dev ev dev') : dev'.Orderly := by
  cases ev with
  | poll =>
    cases hstep
    exact ⟨h.disciplined, h.enabled, h.up, h.le, h.self, h.hellos, h.quiesced, h.hello⟩
  | begin =>
    simp only [devStep, LinkEvent.apply] at hstep
    split at hstep
    · cases hstep
      exact ⟨h.disciplined, h.enabled, h.up, h.le, h.self, h.hellos, h.quiesced,
        fun hh => ⟨rfl, (h.hello hh).2⟩⟩
    · cases hstep
  | step =>
    obtain ⟨event, hev, hwork⟩ := LinkDev.linkWorkStep_workStep hstep
    exact hwork.orderly h hev
  | error =>
    simp only [devStep, LinkEvent.apply] at hstep
    split at hstep
    next hidle =>
      cases hstep
      exact h.error (lt_trans (by decide) hidle.2) (h.idle hidle.1)
    · cases hstep

/-- Whatever one side sees of its peer and whatever fails, the calls of its upper layer are in
order. -/
theorem calls_disciplined {dev : LinkDev} (hrun : Reaches devStep LinkDev.start dev) :
    Disciplined dev.calls :=
  (hrun.invariant LinkDev.start_orderly fun _ _ _ h hstep => devStep_orderly h hstep).disciplined

/-- A peer that is ever one state ahead, an upper layer that cannot be enabled, and a reset. -/
def failedEnable : List LinkEvent :=
  [.begin, .step false true, .step false true, .poll 4, .begin, .step false true,
    .step false true, .step false true,
    .poll 6, .begin, .step false true, .step false true, .step false true,
      .poll 8, .begin, .step false true,
    .step false true, .step false true, .step false true, .step false true,
      .poll 10, .begin, .step false true,
    .step false true, .step false true, .step false true, .step false true,
      .poll 11, .begin, .step true false,
    .begin, .step true true, .step true true]

theorem calls_disciplined_failedEnable :
    ∃ dev, Reaches devStep LinkDev.start dev ∧ Disciplined dev.calls ∧
      dev.calls = [.hello 0 true, .hello 1 true, .hello 2 true, .hello 3 true,
        .enable false, .disable, .quiesce,
        .reset] :=
  have hrun : Reaches devStep LinkDev.start _ := Reaches.of_foldlM (l := failedEnable) rfl
  ⟨_, hrun, calls_disciplined hrun, rfl⟩

end Ntrdma
