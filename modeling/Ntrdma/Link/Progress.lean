import Ntrdma.Link.Pair

/-!
# Progress of a side

What the link work does to the state of a side and to what it writes to its peer, without the calls
of the upper layer (`LinkDev.Progress`). A side goes back to the beginning, is reset, goes on to the
next state, stays, or is in a hello phase; it goes on only if the state of the peer it goes by is
its own or the next.
-/

namespace Ntrdma
open Lib

namespace LinkDev

structure Back (dev dev' : LinkDev) : Prop where
  st : dev'.linkState ≤ 1
  sess : dev'.resetCnt = dev.resetCnt
  poll : dev'.pollMsg = dev.pollMsg
  ev : dev'.event = none ∨ dev'.event = dev.event
  notIn : dev'.inHello = false
  out : dev'.out = dev.out ++ [⟨dev.resetCnt, .ping dev'.linkState⟩]

/-- What a step of the link work does to a side that goes by the state `event` of its peer. -/
inductive Progress (event : Nat) (dev dev' : LinkDev) : Prop where
  | back (h : Back dev dev')
  | reset (hst : dev.linkState = 1) (hst' : dev'.linkState = 2)
    (hsess : dev'.resetCnt = dev.resetCnt + 1)
      (hpoll : dev'.pollMsg = dev.pollMsg) (hev : dev'.event = none) (hin : dev'.inHello = false)
      (hout : dev'.out = dev.out ++ [⟨dev'.resetCnt, .ping 2⟩])
  | next (hge : 2 ≤ dev.linkState) (hle : dev.linkState ≤ 6)
    (hst : dev'.linkState = dev.linkState + 1)
      (he : dev.linkState = 2 ∨ event = dev.linkState ∨ event = dev.linkState + 1)
      (hsess : dev'.resetCnt = dev.resetCnt) (hpoll : dev'.pollMsg = dev.pollMsg)
        (hev : dev'.event = dev.event)
      (hin : dev'.inHello = false) (flag : List Stamped)
        (hflag : ∀ w ∈ flag, w = ⟨dev.resetCnt, .done false⟩)
      (hout : dev'.out = dev.out ++ flag ++ [⟨dev.resetCnt, .ping dev'.linkState⟩])
  | stay (hst : dev'.linkState = dev.linkState) (hsess : dev'.resetCnt = dev.resetCnt)
      (hpoll : dev'.pollMsg = dev.pollMsg) (hev : dev'.event = none) (hin : dev'.inHello = false)
      (hwas : dev.inHello = false) (hout : dev'.out = dev.out)
  | helloBegin (hge : 7 ≤ dev.linkState) (hst : dev'.linkState = dev.linkState)
      (he : event = dev.linkState ∨ event = dev.linkState + 1)
        (hsess : dev'.resetCnt = dev.resetCnt)
      (hpoll : dev'.pollMsg = dev.pollMsg) (hev : dev'.event = dev.event)
        (hin : dev'.inHello = true)
      (hwas : dev.inHello = false)
      (hout : dev'.out = dev.out ++
        if dev.linkState ≤ 9 then [⟨dev.resetCnt, .hello (dev.linkState - 7) false⟩] else [])
  | helloDone (hge : 7 ≤ dev.linkState) (hle : dev.linkState ≤ 10)
    (hst : dev'.linkState = dev.linkState + 1)
      (hsess : dev'.resetCnt = dev.resetCnt) (hpoll : dev'.pollMsg = dev.pollMsg)
        (hev : dev'.event = dev.event)
      (hin : dev'.inHello = false) (hwas : dev.inHello = true)
      (hout : dev'.out = dev.out ++
        [⟨dev.resetCnt, if dev.linkState ≤ 9 then .hello
          (dev.linkState - 7) true else .done true⟩] ++
        [⟨dev.resetCnt, .ping dev'.linkState⟩])

section
variable {dev dev' : LinkDev} {event : Nat} {peerDone : Bool}

lemma leave_false_eq (dev : LinkDev) (ok : Bool) :
    ∃ linkIsUp calls, dev.leave false ok = { dev with linkIsUp, calls, event := none } := by
  rw [leave, linkUpdate_false_eq]
  split
  · exact ⟨_, _, rfl⟩
  · exact ⟨_, _, rfl⟩

lemma leave_true_eq (dev : LinkDev) (ok : Bool) :
    ∃ linkIsUp calls, dev.leave true ok = { dev with linkIsUp, calls, event := none } ∨
      dev.leave true ok = { { dev with linkIsUp, calls }.error with event := none } := by
  rw [leave, linkUpdate]
  split
  · exact ⟨_, _, .inl rfl⟩
  · cases ok
    · exact ⟨_, _, .inr rfl⟩
    · exact ⟨_, _, .inl rfl⟩

lemma progress_error (dev dev₀ : LinkDev) (hst : 2 ≤ dev₀.linkState) (hin : dev₀.inHello = false)
    (hsess : dev₀.resetCnt = dev.resetCnt) (hpoll : dev₀.pollMsg = dev.pollMsg)
    (hout : dev₀.out = dev.out) (linkIsUp : Bool) (calls : List CtxCall) :
    Progress event dev { dev₀.error with linkIsUp, calls, event := none } := by
  rw [error_eq hst]
  refine .back ⟨Nat.zero_le _, hsess, hpoll, .inl rfl, hin, ?_⟩
  rw [← hout, ← hsess]
  rfl

lemma error_linkIsUp (dev : LinkDev) : dev.error.linkIsUp = dev.linkIsUp := by
  rw [error]
  split <;> rfl

lemma leave_false_linkIsUp (dev : LinkDev) (ok : Bool) : (dev.leave false ok).linkIsUp = false := by
  rw [leave, linkUpdate_false_eq]
  split
  · rfl
  next hup => simpa using hup

lemma WorkStep.comesUp (hstep : WorkStep peerDone event dev dev') (h : dev.Orderly)
    (hdown : dev.linkIsUp = false) (hup : dev'.linkIsUp = true) :
    peerDone = true ∧ dev.linkState = 11 ∧
      event = dev.linkState := by
  have hsame (hkeep : dev'.linkIsUp = dev.linkIsUp) : False :=
    absurd (hup.symm.trans (hkeep.trans hdown)) nofun
  have hleave (dev₀ : LinkDev) (ok : Bool) (heq : dev' = dev₀.leave false ok) : False := by
    rw [heq, leave_false_linkIsUp] at hup
    cases hup
  cases hstep with
  | quiesce =>
    refine (hsame ?_).elim
    rw [LinkDev.quiesce, linkUpdate_false_eq, hdown]
    exact hdown
  | reset _ _ ok => exact (hleave _ ok rfl).elim
  | start => exact (hsame rfl).elim
  | sendVersion => exact (hsame rfl).elim
  | chooseVersion => exact (hsame rfl).elim
  | move => exact (hsame rfl).elim
  | wait _ ok => exact (hleave _ ok rfl).elim
  | fail _ _ ok => exact (hleave _ ok rfl).elim
  | abandon => exact (hsame dev.error_linkIsUp).elim
  | helloBegin =>
    obtain ⟨out, heq⟩ := dev.helloBegin_eq
    exact (hsame (by rw [heq])).elim
  | helloDone hin =>
    obtain ⟨out, heq⟩ := dev.helloDone_eq (h.hello hin).2
    exact (hsame (by rw [heq])).elim
  | helloFailed =>
    simp only [LinkDev.helloFailed] at hup hsame hleave
    split at hup
    next hfirst => exact (hleave _ true (if_pos hfirst)).elim
    next => exact absurd (hup.symm.trans ((error_linkIsUp _).trans hdown)) nofun
  | up _ _ hpeer hself he => exact ⟨hpeer, (h.self (by omega)).mp hself, he⟩

lemma WorkStep.progress (hstep : WorkStep peerDone event dev dev') (h : dev.Orderly) :
    Progress event dev dev' := by
  cases hstep with
  | quiesce hin =>
    rw [LinkDev.quiesce, linkUpdate_false_eq]
    split
    · exact .back ⟨le_rfl, rfl, rfl, .inr rfl, hin, rfl⟩
    · exact .back ⟨le_rfl, rfl, rfl, .inr rfl, hin, rfl⟩
  | reset hin hst ok =>
    obtain ⟨linkIsUp, calls, heq⟩ := dev.reset.leave_false_eq ok
    rw [heq]
    exact .reset hst rfl rfl rfl rfl hin rfl
  | start hin hst =>
    exact .next hst.ge (by omega) (hst ▸ rfl) (.inl hst) rfl rfl rfl hin
      [] nofun (by rw [List.append_nil]; rfl)
  | sendVersion hin hst =>
    exact .next (by omega) (by omega) (hst ▸ rfl) (by omega) rfl rfl rfl hin
      [] nofun (by rw [List.append_nil]; rfl)
  | chooseVersion hin hst =>
    exact .next (by omega) (by omega) (hst ▸ rfl) (by omega) rfl rfl rfl hin
      [⟨dev.resetCnt, .done false⟩]
      (fun _ => List.mem_singleton.mp) rfl
  | move hin =>
    exact .next (by omega) (by omega) rfl (by omega) rfl rfl rfl hin
      [] nofun (by rw [List.append_nil]; rfl)
  | wait hin ok =>
    obtain ⟨linkIsUp, calls, heq⟩ := dev.leave_false_eq ok
    rw [heq]
    exact .stay rfl rfl rfl rfl hin hin rfl
  | fail hin _ ok =>
    obtain ⟨linkIsUp, calls, heq⟩ := dev.error.leave_false_eq ok
    rw [heq]
    exact progress_error dev dev (by omega) hin rfl rfl rfl linkIsUp calls
  | abandon hin => exact progress_error dev dev (by omega) hin rfl rfl rfl _ _
  | helloBegin hin hst he =>
    have hphase : dev.linkState - 7 ≤ 2 ↔ dev.linkState ≤ 9 := by omega
    have hbegin : dev.helloBegin = { dev with
        inHello := true
        out := dev.out ++ if dev.linkState ≤ 9 then
          [⟨dev.resetCnt, .hello (dev.linkState - 7) false⟩] else [] } := by
      simp only [LinkDev.helloBegin, phase_eq, hphase]
      split
      · rfl
      · rw [List.append_nil]
    rw [hbegin]
    exact .helloBegin hst rfl he rfl rfl rfl rfl hin rfl
  | helloDone hin hphase =>
    have hst := (h.hello hin).2
    rw [phase_eq] at hphase
    have hnext : 8 + (dev.linkState - 7) = dev.linkState + 1 := by omega
    have hlast : dev.linkState - 7 = 3 ↔ ¬dev.linkState ≤ 9 := by omega
    have hwrite : dev.linkState - 7 ≤ 2 ↔ dev.linkState ≤ 9 := by omega
    simp only [LinkDev.helloDone, phase_eq, hnext, hlast, hwrite]
    by_cases h9 : dev.linkState ≤ 9
    · simp only [h9, if_true, not_true_eq_false, if_false]
      exact .helloDone hst (by omega) rfl rfl rfl rfl rfl hin (by rw [if_pos h9]; rfl)
    · simp only [h9, if_false, not_false_eq_true, if_true]
      exact .helloDone hst (by omega) rfl rfl rfl rfl rfl hin (by rw [if_neg h9]; rfl)
  | helloFailed hin =>
    have hst : 2 ≤ dev.linkState := le_trans (by decide) (h.hello hin).2
    let failed := { dev.call (.hello dev.phase false) with inHello := false }
    have hfailed (linkIsUp : Bool) (calls : List CtxCall) :
        Progress event dev { failed.error with linkIsUp, calls, event := none } :=
      progress_error dev failed hst rfl rfl rfl rfl linkIsUp calls
    simp only [LinkDev.helloFailed]
    split
    · obtain ⟨linkIsUp, calls, heq⟩ := failed.error.leave_false_eq true
      rw [heq]
      exact hfailed linkIsUp calls
    · exact hfailed _ _
  | up hin _ _ _ _ ok =>
    obtain ⟨linkIsUp, calls, heq | heq⟩ := dev.leave_true_eq ok
    · rw [heq]
      exact .stay rfl rfl rfl rfl hin hin rfl
    · rw [heq]
      exact progress_error dev { dev with linkIsUp, calls }
        (show 2 ≤ dev.linkState by omega) hin rfl rfl rfl _ _

end

lemma Progress.of_reset {dev dev' : LinkDev} {event : Nat} (hprog : Progress event dev dev')
    (hsess : dev'.resetCnt ≠ dev.resetCnt) : dev'.linkState = 2 ∧ dev'.event = none ∧
      dev'.inHello = false := by
  cases hprog with
  | back hback => exact absurd hback.sess hsess
  | reset _ hst' _ _ hev hin => exact ⟨hst', hev, hin⟩
  | next _ _ _ _ hsess' => exact absurd hsess' hsess
  | stay _ hsess' => exact absurd hsess' hsess
  | helloBegin _ _ _ hsess' => exact absurd hsess' hsess
  | helloDone _ _ _ hsess' => exact absurd hsess' hsess

section
variable {dev dev' : LinkDev} {event : Nat}

lemma Back.out_append (h : Back dev dev') : ∃ ws, dev'.out = dev.out ++ ws ∧
    ∀ w ∈ ws, w.sess = dev'.resetCnt :=
  ⟨_, h.out, fun w hw => by rw [List.mem_singleton.mp hw, h.sess]⟩

lemma Progress.out_append (hprog : Progress event dev dev') :
    ∃ ws, dev'.out = dev.out ++ ws ∧ ∀ w ∈ ws, w.sess = dev'.resetCnt := by
  cases hprog with
  | back hback => exact hback.out_append
  | reset _ _ _ _ _ _ hout => exact ⟨_, hout, fun w hw => by rw [List.mem_singleton.mp hw]⟩
  | next _ _ _ _ hsess _ _ _ _ hflag hout =>
    refine ⟨_, hout.trans (List.append_assoc ..), fun w hw => ?_⟩
    obtain hmem | hmem := List.mem_append.mp hw
    · rw [hflag w hmem, hsess]
    · rw [List.mem_singleton.mp hmem, hsess]
  | stay _ _ _ _ _ _ hout => exact ⟨[], hout.trans (List.append_nil _).symm, nofun⟩
  | helloBegin _ _ _ hsess _ _ _ _ hout =>
    refine ⟨_, hout, fun w hw => ?_⟩
    split at hw
    · rw [List.mem_singleton.mp hw, hsess]
    · cases hw
  | helloDone _ _ _ hsess _ _ _ _ hout =>
    refine ⟨_, hout.trans (List.append_assoc ..), fun w hw => ?_⟩
    obtain hmem | hmem := List.mem_append.mp hw
    · rw [List.mem_singleton.mp hmem, hsess]
    · rw [List.mem_singleton.mp hmem, hsess]

lemma Progress.kept (hprog : Progress event dev dev') :
    dev'.pollMsg = dev.pollMsg ∧ (dev'.event = none ∨ dev'.event = dev.event) := by
  cases hprog with
  | back h => exact ⟨h.poll, h.ev⟩
  | reset | stay => exact ⟨‹_›, .inl ‹_›⟩
  | next | helloBegin | helloDone => exact ⟨‹_›, .inr ‹_›⟩

lemma Progress.sess_le (hprog : Progress event dev dev') : dev.resetCnt ≤ dev'.resetCnt := by
  cases hprog with
  | back hback => exact hback.sess.ge
  | reset => omega
  | next _ _ _ _ hsess => exact hsess.ge
  | stay _ hsess => exact hsess.ge
  | helloBegin _ _ _ hsess => exact hsess.ge
  | helloDone _ _ _ hsess => exact hsess.ge

end

/-! ## The last announcement -/

/-- The state of the link is announced, and nothing but the output of a hello phase was written
since. -/
def Announced (dev : LinkDev) : Prop :=
  ∃ before after, dev.out = before ++ ⟨dev.resetCnt, .ping dev.linkState⟩ :: after ∧
    (∀ w ∈ after, w.write.msg? = none) ∧ (dev.inHello = false ∨ 10 ≤ dev.linkState → after = [])

section
variable {dev dev' : LinkDev} {event : Nat}

lemma announced_of_out {before : List Stamped}
    (h : dev.out = before ++ [⟨dev.resetCnt, .ping dev.linkState⟩]) : dev.Announced :=
  ⟨before, [], h, nofun, fun _ => rfl⟩

lemma Back.announced (h : Back dev dev') : dev'.Announced :=
  announced_of_out (h.out.trans (by rw [h.sess]))

lemma Progress.announced (hprog : Progress event dev dev') (h : dev.Announced) :
    dev'.Announced := by
  cases hprog with
  | back hback => exact hback.announced
  | reset _ hst' _ _ _ _ hout => exact announced_of_out (hout.trans (by rw [hst']))
  | next _ _ _ _ hsess _ _ _ _ _ hout => exact announced_of_out (hout.trans (by rw [hsess]))
  | stay hst hsess _ _ _ hwas hout =>
    obtain ⟨before, after, heq, hafter, hlast⟩ := h
    exact ⟨before, after, by rw [hout, hsess, hst, heq], hafter, fun _ => hlast (.inl hwas)⟩
  | helloBegin _ hst _ hsess _ _ hin hwas hout =>
    obtain ⟨before, after, heq, hafter, hlast⟩ := h
    obtain rfl := hlast (.inl hwas)
    refine ⟨before,
      _, by rw [hout, hsess, hst, heq, List.append_assoc, List.singleton_append], ?_, ?_⟩
    · split
      · exact fun w hw => List.mem_singleton.mp hw ▸ rfl
      · exact nofun
    · rintro (hin' | hge')
      · exact absurd (hin.symm.trans hin') nofun
      · exact if_neg (by omega)
  | helloDone _ _ _ hsess _ _ _ _ hout => exact announced_of_out (hout.trans (by rw [hsess]))

lemma Announced.lastPing_eq (h : dev.Announced) : lastPing dev.out = dev.linkState := by
  obtain ⟨before, after, heq, hafter, -⟩ := h
  rw [heq]
  exact lastWritten_append_cons rfl hafter

end

end LinkDev

namespace Link
variable {s t : Link} {x : Bool}

lemma Current.lt_view {before after : List Stamped} {w : Stamped} (h : s.Current x)
    (hout : (s (!x)).dev.out = before ++ w :: after) (hw : w.write.msg? ≠ none) :
    before.length < (s x).view := by
  by_contra hle
  rw [not_lt] at hle
  have hmem : w ∈ (s (!x)).dev.out.drop (s x).view := by
    rw [hout, List.drop_append_of_le_length hle]
    exact List.mem_append_right _ (List.mem_cons_self ..)
  exact hw (h w hmem)

lemma Current.lastPing_arrived (h : s.Current x) :
    lastPing (s.arrived x) = lastPing (s (!x)).dev.out := by
  conv_rhs => rw [← List.take_append_drop (s x).view (s (!x)).dev.out]
  exact (lastWritten_append h).symm

/-! ## Actions of a side -/

inductive Moved (s : Link) (x : Bool) (a : Act) (n : LinkNode) : Prop where
  | arrive (hlt : (s x).view < (s (!x)).dev.out.length)
    (heq : n = { s x with view := (s x).view + 1 })
  | poll (ha : a = .poll)
      (heq :
        n =
        { s x with dev := { (s x).dev with pollMsg := lastPing (s.arrived x) }, polled := true })
  | lose (ha : a = .lose) (heq : n = { s x with dev := { (s x).dev with pollMsg := 0 } })
  | begin (ha : a = .begin) (hidle : (s x).dev.event = none)
      (heq : n = { s x with dev := { (s x).dev with event := some (s x).dev.pollMsg } })
  | error (hback : LinkDev.Back (s x).dev n.dev) (heq : n = { s x with dev := n.dev })
  | work (event : Nat) (hev : (s x).dev.event = some event)
    (hprog : LinkDev.Progress event (s x).dev n.dev)
      (heq : n = s.record x n.dev)

variable {dev : LinkDev}

lemma record_reset (h : dev.resetCnt ≠ (s x).dev.resetCnt) :
    s.record x dev = ⟨dev, (s x).view, (s (!x)).dev.out.length, false, []⟩ := if_pos h

lemma record_kept (h : dev.resetCnt = (s x).dev.resetCnt) :
    (s.record x dev).view = (s x).view ∧ (s.record x dev).mark = (s x).mark ∧
      (s.record x dev).polled = (s x).polled := by
  rw [record, if_neg (not_not_intro h)]
  split
  · exact ⟨rfl, rfl, rfl⟩
  · exact ⟨rfl, rfl, rfl⟩

variable {a : Act} {n : LinkNode}

lemma act_moved (h : s.act x a = some n) (ho : (s x).dev.Orderly) : s.Moved x a n := by
  cases a with
  | arrive =>
    simp only [act] at h
    split at h
    next hlt => exact .arrive hlt (Option.some.inj h).symm
    next => cases h
  | poll => exact .poll rfl (Option.some.inj h).symm
  | lose => exact .lose rfl (Option.some.inj h).symm
  | begin =>
    obtain ⟨dev, hdev, rfl⟩ := Option.map_eq_some_iff.mp h
    simp only [LinkEvent.apply] at hdev
    split at hdev
    next hidle =>
      cases hdev
      exact .begin rfl (Option.isNone_iff_eq_none.mp hidle) rfl
    next => cases hdev
  | step =>
    obtain ⟨dev, hdev, rfl⟩ := Option.map_eq_some_iff.mp h
    obtain ⟨event, hev, hwork⟩ := LinkDev.linkWorkStep_workStep hdev
    exact .work event hev (by rw [record_dev]; exact hwork.progress ho) (by rw [record_dev])
  | error =>
    obtain ⟨dev, hdev, rfl⟩ := Option.map_eq_some_iff.mp h
    simp only [LinkEvent.apply] at hdev
    split at hdev
    next hidle =>
      cases hdev
      refine .error ?_ rfl
      rw [LinkDev.error_eq (lt_trans (by decide) hidle.2)]
      exact ⟨Nat.zero_le _, rfl, rfl, .inr rfl, ho.idle hidle.1, rfl⟩
    next => cases hdev

/-- What an action adds to the writes of a side is of the session it is then in. -/
lemma Moved.out_append (hmoved : s.Moved x a n) :
    ∃ ws, n.dev.out = (s x).dev.out ++ ws ∧ ∀ w ∈ ws, w.sess = n.dev.resetCnt := by
  cases hmoved with
  | arrive _ heq => exact ⟨[], heq ▸ (List.append_nil _).symm, nofun⟩
  | poll _ heq => exact ⟨[], heq ▸ (List.append_nil _).symm, nofun⟩
  | lose _ heq => exact ⟨[], heq ▸ (List.append_nil _).symm, nofun⟩
  | begin _ _ heq => exact ⟨[], heq ▸ (List.append_nil _).symm, nofun⟩
  | error hback => exact hback.out_append
  | work _ _ hprog => exact hprog.out_append

lemma Moved.sess_le (hmoved : s.Moved x a n) : (s x).dev.resetCnt ≤ n.dev.resetCnt := by
  cases hmoved with
  | arrive _ heq => rw [heq]
  | poll _ heq => rw [heq]
  | lose _ heq => rw [heq]
  | begin _ _ heq => rw [heq]
  | error hback => exact hback.sess.ge
  | work _ _ hprog => exact hprog.sess_le

lemma Moved.announced (hmoved : s.Moved x a n) (h : (s x).dev.Announced) : n.dev.Announced := by
  cases hmoved with
  | arrive _ heq => exact heq ▸ h
  | poll _ heq => exact heq ▸ h
  | lose _ heq => exact heq ▸ h
  | begin _ _ heq => exact heq ▸ h
  | error hback => exact hback.announced
  | work _ _ hprog => exact hprog.announced h

end Link

end Ntrdma
