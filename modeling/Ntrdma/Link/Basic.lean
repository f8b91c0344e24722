import Mathlib.Tactic

/-!
# The state machine of the link

Model of the link work of `ntc_ntb_msi.c`, by which two hosts bring the link between them up: each
announces its state to the other (the *ping*), and moves on when what it last saw of the other's
state allows it, through an exchange of versions and addresses and the hello phases of the upper
layer. An error on either side takes it back to the beginning.

C → Lean naming (drop the `ntc_ntb_` prefix): `ntc_ntb_error` → `error`, `ntc_ntb_link_update` →
`linkUpdate`, `ntc_ntb_quiesce` → `quiesce`, and so on; `ntc_ctx_*` are the constructors of
`CtxCall`. A call of `ntc_ntb_link_work` reads the announced state of the peer once and then falls
through the cases of its switch. The peer goes on meanwhile, so the call is cut into steps
(`linkWorkStep`): one for each case that is entered, and two for a hello phase, which takes time.

The upper layer is that of `ntrdma_hello.c`: phases 0 to 2 write an output for the peer, phase 3
says that all is done, and there are no more. What can fail (the memory windows, the versions, the
doorbells, a hello phase, the enabling of the upper layer) succeeds as an argument of the step says,
and another one says if the hardware gives a valid address for the doorbells of the peer. Versions,
addresses and doorbells themselves are left out.
-/

namespace Ntrdma

/-- The states of the link (C `NTC_NTB_LINK_QUIESCE`, …). From `linkHello` on, a state names the
hello phase that was completed last. -/
@[match_pattern] abbrev linkQuiesce : Nat := 0
@[match_pattern] abbrev linkReset : Nat := 1
@[match_pattern] abbrev linkEnabled : Nat := 2
@[match_pattern] abbrev linkStart : Nat := 3
@[match_pattern] abbrev linkVerSent : Nat := 4
@[match_pattern] abbrev linkVerChosen : Nat := 5
@[match_pattern] abbrev linkDbConfigured : Nat := 6
@[match_pattern] abbrev linkCommitted : Nat := 7
@[match_pattern] abbrev linkHello : Nat := 8

inductive CtxCall where
  | hello (phase : Nat) (ok : Bool)
  | enable (ok : Bool)
  | disable
  | quiesce
  | reset
  deriving DecidableEq, Repr

/-- A write to the peer: the announced state, the flag `done`, or the output of a hello phase, in
part or as a whole. -/
inductive LinkWrite where
  | ping (msg : Nat)
  | done (flag : Bool)
  | hello (phase : Nat) (whole : Bool)
  deriving DecidableEq, Repr

structure Stamped where
  sess : Nat
  write : LinkWrite
  deriving DecidableEq, Repr

/-- One side of the link (C `struct ntc_ntb_dev`), with the calls of the upper layer and the writes
to the peer. `event` is the `link_event` of the call of `ntc_ntb_link_work` under way, which may be
in `ntc_ctx_hello` (`inHello`). -/
structure LinkDev where
  linkState : Nat
  selfInfoDone : Bool
  linkIsUp : Bool
  pollMsg : Nat
  resetCnt : Nat
  event : Option Nat
  inHello : Bool
  calls : List CtxCall
  out : List Stamped

namespace LinkDev

def call (dev : LinkDev) (c : CtxCall) : LinkDev := { dev with calls := dev.calls ++ [c] }

def write (dev : LinkDev) (w : LinkWrite) : LinkDev :=
    { dev with out := dev.out ++ [⟨dev.resetCnt, w⟩] }

def linkSetState (dev : LinkDev) (state : Nat) : LinkDev :=
    { dev with linkState := state }.write (.ping state)

/-- C `ntc_ntb_error`, without the call of `schedule_work`: the work may run at any time. -/
def error (dev : LinkDev) : LinkDev :=
  if dev.linkState > linkReset then dev.linkSetState linkQuiesce else dev

/-- C `ntc_ntb_link_update`, with what `ntc_ctx_enable` returns. -/
def linkUpdate (dev : LinkDev) (linkUp ok : Bool) : LinkDev :=
  if dev.linkIsUp = linkUp then dev
  else
    let dev := { dev with linkIsUp := linkUp }
    if linkUp then
      let dev := dev.call (.enable ok)
      if ok then dev else dev.error
    else dev.call .disable

def quiesce (dev : LinkDev) : LinkDev :=
  ((dev.linkUpdate false true).call .quiesce).linkSetState linkReset

def reset (dev : LinkDev) : LinkDev :=
  let dev := dev.call .reset
  { dev with resetCnt := dev.resetCnt + 1 }.linkSetState linkEnabled

/-- C `ntc_ntb_choose_version_and_send_addr`, where all goes well. -/
def chooseVersion (dev : LinkDev) : LinkDev :=
  { dev.write (.done false) with selfInfoDone := false }.linkSetState linkVerChosen

/-- The hello phase that is next (C `dev->link_state + 1 - NTC_NTB_LINK_HELLO`). -/
def phase (dev : LinkDev) : Nat := dev.linkState + 1 - linkHello

/-- The call of `ntc_ctx_hello`. Phases 0 to 2 begin to write their output. -/
def helloBegin (dev : LinkDev) : LinkDev :=
  let dev := { dev with inHello := true }
  if dev.phase ≤ 2 then dev.write (.hello dev.phase false) else dev

/-- What `ntc_ntb_hello` does after the phase succeeded; phase 3 returns 1. -/
def helloDone (dev : LinkDev) : LinkDev :=
  let phase := dev.phase
  let dev := { dev.call (.hello phase true) with inHello := false }
  let dev := if phase ≤ 2 then dev.write (.hello phase true) else dev
  let dev := if phase = 3 then { dev.write (.done true) with selfInfoDone := true } else dev
  dev.linkSetState (linkHello + phase)

/-- The end of `ntc_ntb_link_work` (the label `out`). -/
def leave (dev : LinkDev) (linkUp ok : Bool) : LinkDev :=
    { dev.linkUpdate linkUp ok with event := none }

/-- The `return` in the loop of `ntc_ntb_link_work`, after an error. -/
def abandon (dev : LinkDev) : LinkDev := { dev.error with event := none }

/-- After a phase failed: at `NTC_NTB_LINK_COMMITTED` the work goes on to `out`, from the loop it
returns. -/
def helloFailed (dev : LinkDev) : LinkDev :=
  let first := dev.linkState = linkCommitted
  let dev := { dev.call (.hello dev.phase false) with inHello := false }
  if first then dev.error.leave false true else dev.abandon

/-- The part of `ntc_ntb_link_work` from `NTC_NTB_LINK_HELLO` on: one round of the loop, or what
follows it. -/
def helloLoop (peerDone ok : Bool) (event : Nat) (dev : LinkDev) : LinkDev :=
  if !(peerDone && dev.selfInfoDone) then
    if event + 1 = dev.linkState then dev.leave false ok
    else if event = dev.linkState ∨ event = dev.linkState + 1 then dev.helloBegin
    else dev.abandon
  else
    if event = dev.linkState then dev.leave true ok
    else if event + 1 = dev.linkState then dev.leave false ok
    else dev.error.leave false ok

/-- A side waits for a peer one state behind, goes on with one in the same state or one ahead, and
takes all else for an error. -/
def keepStep (event : Nat) (ok : Bool) (dev dev' : LinkDev) : LinkDev :=
  if event + 1 = dev.linkState then dev.leave false ok
  else if event = dev.linkState ∨ event = dev.linkState + 1 then dev'
  else dev.error.leave false ok

/-- C `ntc_ntb_db_config_and_recv_addr` with the test of its result. For an address that is not
valid it returns what `ntb_peer_db_addr` returned, which is no error: the state stays and the work
leaves. -/
def dbConfigure (ok dbAddr : Bool) (dev : LinkDev) : LinkDev :=
  if !ok then dev.error.leave false ok
  else if dbAddr then dev.linkSetState linkDbConfigured
  else dev.leave false ok

/-- The next step of `ntc_ntb_link_work`. -/
def linkWorkStep (peerDone ok dbAddr : Bool) (dev : LinkDev) : Option LinkDev :=
  match dev.event with
  | none => none
  | some event =>
    if dev.inHello then some (if ok ∧ dev.phase ≤ 3 then dev.helloDone else dev.helloFailed)
    else
      some <| match dev.linkState with
        | linkQuiesce => dev.quiesce
        | linkReset => dev.reset.leave false ok
        | linkEnabled => if ok then dev.linkSetState linkStart else dev.leave false ok
        | linkStart =>
          if event = linkStart ∨ event = linkVerSent then dev.linkSetState
            linkVerSent else dev.leave false ok
        | linkVerSent => dev.keepStep event ok
          (if ok then dev.chooseVersion else dev.error.leave false ok)
        | linkVerChosen => dev.keepStep event ok (dev.dbConfigure ok dbAddr)
        | linkDbConfigured => dev.keepStep event ok (dev.linkSetState linkCommitted)
        | linkCommitted => dev.keepStep event ok dev.helloBegin
        | _ => dev.helloLoop peerDone ok event

/-- What a step of the link work can do, given the state of the peer that it goes by. -/
inductive WorkStep (peerDone : Bool) (event : Nat) (dev : LinkDev) : LinkDev → Prop where
  | quiesce (hin : dev.inHello = false) (hst : dev.linkState = 0) :
    WorkStep peerDone event dev dev.quiesce
  | reset (hin : dev.inHello = false) (hst : dev.linkState = 1) (ok : Bool) :
    WorkStep peerDone event dev (dev.reset.leave false ok)
  | start (hin : dev.inHello = false) (hst : dev.linkState = 2) :
    WorkStep peerDone event dev (dev.linkSetState 3)
  | sendVersion (hin : dev.inHello = false) (hst : dev.linkState = 3)
      (he : event = 3 ∨ event = 4) : WorkStep peerDone event dev (dev.linkSetState 4)
  | chooseVersion (hin : dev.inHello = false) (hst : dev.linkState = 4)
      (he : event = 4 ∨ event = 5) : WorkStep peerDone event dev dev.chooseVersion
  | move (hin : dev.inHello = false) (hst : dev.linkState = 5 ∨ dev.linkState = 6)
      (he : event = dev.linkState ∨ event = dev.linkState + 1) :
    WorkStep peerDone event dev (dev.linkSetState (dev.linkState + 1))
  | wait (hin : dev.inHello = false) (ok : Bool) :
    WorkStep peerDone event dev (dev.leave false ok)
  | fail (hin : dev.inHello = false) (hst : 4 ≤ dev.linkState) (ok : Bool) :
    WorkStep peerDone event dev (dev.error.leave false ok)
  | abandon (hin : dev.inHello = false) (hst : 8 ≤ dev.linkState) :
    WorkStep peerDone event dev dev.abandon
  | helloBegin (hin : dev.inHello = false) (hst : 7 ≤ dev.linkState)
      (he : event = dev.linkState ∨ event = dev.linkState + 1) :
        WorkStep peerDone event dev dev.helloBegin
  | helloDone (hin : dev.inHello = true) (hphase : dev.phase ≤ 3) :
    WorkStep peerDone event dev dev.helloDone
  | helloFailed (hin : dev.inHello = true) : WorkStep peerDone event dev dev.helloFailed
  | up (hin : dev.inHello = false) (hst : 8 ≤ dev.linkState) (hpeer : peerDone = true)
      (hself : dev.selfInfoDone = true) (he : event = dev.linkState) (ok : Bool) :
    WorkStep peerDone event dev (dev.leave true ok)

section
variable {dev dev' dev'' : LinkDev} {event : Nat} {peerDone ok dbAddr : Bool}

lemma keepStep_workStep (hin : dev.inHello = false) (hst : 4 ≤ dev.linkState)
    (hgo : event = dev.linkState ∨ event = dev.linkState + 1 → WorkStep peerDone event dev dev') :
    WorkStep peerDone event dev (dev.keepStep event ok dev') := by
  rw [keepStep]
  split
  · exact .wait hin ok
  · split
    next he => exact hgo he
    next => exact .fail hin hst ok

lemma helloLoop_workStep (hin : dev.inHello = false) (hst : 8 ≤ dev.linkState) :
    WorkStep peerDone event dev (dev.helloLoop peerDone ok event) := by
  rw [helloLoop]
  split
  · split
    · exact .wait hin ok
    · split
      next he => exact .helloBegin hin (by omega) he
      next => exact .abandon hin hst
  next hdone =>
    simp only [Bool.not_eq_true', Bool.not_eq_false, Bool.and_eq_true] at hdone
    split
    next he => exact .up hin hst hdone.1 hdone.2 he ok
    next =>
      split
      · exact .wait hin ok
      · exact .fail hin (by omega) ok

lemma linkWorkStep_workStep (h : dev.linkWorkStep peerDone ok dbAddr = some dev') :
    ∃ event, dev.event = some event ∧ WorkStep peerDone event dev dev' := by
  unfold linkWorkStep at h
  split at h
  · cases h
  next event hev =>
    refine ⟨event, hev, ?_⟩
    split at h
    next hin =>
      cases h
      split
      next hok => exact .helloDone hin hok.2
      next => exact .helloFailed hin
    next hin =>
      rw [Bool.not_eq_true] at hin
      cases h
      split
      next hst => exact .quiesce hin hst
      next hst => exact .reset hin hst ok
      next hst =>
        split
        · exact .start hin hst
        · exact .wait hin ok
      next hst =>
        split
        next he => exact .sendVersion hin hst he
        · exact .wait hin ok
      next hst =>
        refine keepStep_workStep hin hst.ge fun he => ?_
        split
        · exact .chooseVersion hin hst (by rwa [hst] at he)
        · exact .fail hin hst.ge ok
      next hst =>
        refine keepStep_workStep hin (by omega) fun he => ?_
        rw [dbConfigure]
        split
        · exact .fail hin (by omega) ok
        · split
          · have hmove : WorkStep peerDone event dev _ := .move hin (.inl hst) he
            rwa [hst] at hmove
          · exact .wait hin ok
      next hst =>
        refine keepStep_workStep hin (by omega) fun he => ?_
        have hmove : WorkStep peerDone event dev _ := .move hin (.inr hst) he
        rwa [hst] at hmove
      next hst => exact keepStep_workStep hin (by omega) fun he => .helloBegin hin hst.ge he
      next h0 h1 h2 h3 h4 h5 h6 h7 =>
        have hne : dev.linkState ≠ 0 ∧ dev.linkState ≠ 1 ∧ dev.linkState ≠ 2 ∧ dev.linkState ≠ 3 ∧
          dev.linkState ≠ 4 ∧ dev.linkState ≠ 5 ∧ dev.linkState ≠ 6 ∧ dev.linkState ≠ 7 :=
          ⟨h0, h1, h2, h3, h4, h5, h6, h7⟩
        exact helloLoop_workStep hin (by omega)

end

def start : LinkDev := ⟨linkEnabled, false, false, linkQuiesce, 0, none, false,
    [], [⟨0, .ping linkEnabled⟩]⟩

end LinkDev

/-- The poll timer sees a state or takes the link for lost, the link work begins or goes on, or a
reset is requested. -/
inductive LinkEvent where
  | poll (msg : Nat)
  | begin
  | step (peerDone ok : Bool) (dbAddr : Bool := true)
  | error
  deriving DecidableEq, Repr

def LinkEvent.apply (dev : LinkDev) : LinkEvent → Option LinkDev
  | poll msg => some { dev with pollMsg := msg }
  | begin => if dev.event.isNone then some { dev with event := some dev.pollMsg } else none
  | step peerDone ok dbAddr => dev.linkWorkStep peerDone ok dbAddr
  | error => if dev.event.isNone ∧ dev.linkState > linkEnabled then some dev.error else none

def devStep (dev : LinkDev) (ev : LinkEvent) (dev' : LinkDev) : Prop := ev.apply dev = some dev'

end Ntrdma
