import Ntrdma.Cm.Message
import Ntrdma.Cm.Send
import Ntrdma.Lib.Run

/-!
# Connections of a queue pair

Model of the state of a connection (`ntrdma_cm_state`, `cm_id`) and of everything that changes it:
`ntrdma_connect` and `ntrdma_accept`, which sleep without the lock while their command is under way,
the handlers `ntrdma_cm_handle_rep` and `ntrdma_cm_handle_reject`, which read `qp->cm_id` before
they take the lock, `ntrdma_cm_kill` and `ntrdma_cm_qp_shutdown`. What a function does under the
lock is one step.

Two things depend on the attempts of a queue pair being kept apart: the references on its `cm_id`
(`cmRefs_balanced`) and the outcomes of the calls of `ntrdma_connect` (`connect_oneOutcome`). The
end of a call and the handlers only look at the state, so they take the attempt of a later call for
their own.

A `cm_id` is a number; `refs` counts the references that the queue pair took and dropped. Whether a
`cm_id` has an event handler is a parameter. A `NULL` pointer that is followed ends the run
(`crashed`). The changes to the state of the queue pair itself, which do not depend on the
connection, are left out.
-/

namespace Ntrdma
open Function Lib

inductive CmState where
  | idle
  | established
  | connecting
  | killing
  deriving DecidableEq, Repr

/-- The connection of a queue pair (C `struct ntrdma_qp`), its references on each `cm_id`, and the
events. -/
structure CmQp where
  state : CmState
  cmId : Option Nat
  refs : Nat → Int
  events : List (Nat × IwCmEventKind)
  crashed : Bool

def negEinval : UInt32 := -22

def negEhostunreach : UInt32 := -113

namespace CmQp
variable (qp : CmQp)

def addRef (id : Nat) : CmQp := { qp with refs := update qp.refs id (qp.refs id + 1) }

def remRef (id : Nat) : CmQp := { qp with refs := update qp.refs id (qp.refs id - 1) }

def fire (id : Nat) (event : IwCmEventKind) : CmQp :=
    { qp with events := qp.events ++ [(id, event)] }

/-- A `NULL` pointer is followed. -/
def crash : CmQp := { qp with crashed := true }

/-- The first locked section of `ntrdma_connect`: what it returns, or `none` where it sends its
command. -/
def connect (id : Nat) (linkUp : Bool) (privateDataLen : Nat) : Option UInt32 × CmQp :=
  if qp.state ≠ .idle then (some negEinval, qp)
  else if !linkUp then (some negEhostunreach, qp)
  else
    let qp := { qp with state := .connecting }
    let qp :=
      match qp.cmId with
      | none => qp
      | some old => qp.remRef old
    let qp := { qp with cmId := some id }.addRef id
    if privateDataLen > privateDataMaxLen then
      -- the pointer stays
      (some negEinval, { qp.remRef id with state := .idle })
    else (none, qp)

/-- What `ntrdma_connect` does after its command ended with `rc`, with the result. -/
def connectEnd (id : Nat) (rc : UInt32) : UInt32 × CmQp :=
  if rc = 0 then (0, qp)
  else if qp.state = .connecting then (rc, { qp.remRef id with cmId := none, state := .idle })
  else (0, qp)

def accept (id : Nat) : CmQp := { qp.addRef id with cmId := some id }

variable (hasHandler : Nat → Bool)

def acceptEnd (id : Nat) : CmQp :=
  if qp.state ≠ .idle then qp
  else
    let qp := { qp with state := .established }
    if hasHandler id then qp.fire id .established else qp.crash

/-- The locked section of `ntrdma_cm_handle_rep`, with the pointer that was read before. -/
def handleRep : Option Nat → CmQp
  | none => if qp.state ≠ .connecting then qp else qp.crash
  | some id =>
    if qp.state ≠ .connecting then qp
    else if hasHandler id then { qp.fire id .connectReply with state := .established } else qp.crash

def handleReject : Option Nat → CmQp
  | none => if qp.state ≠ .connecting then qp else qp.crash
  | some id =>
    if qp.state ≠ .connecting then qp
    else
      let qp := if hasHandler id then qp.fire id .connectReply else qp
      { qp.remRef id with state := .idle, cmId := none }

/-- C `ntrdma_cm_qp_shutdown`. -/
def shutdown : CmQp :=
  if qp.state = .idle then { qp with state := .killing }
  else if qp.state ≠ .connecting then qp
  else
    match qp.cmId with
    | none => qp.crash
    | some id =>
      -- `ntrdma_cm_fire_abort`
      let qp := if hasHandler id then qp.fire id .connectReply else qp
      { qp.remRef id with cmId := none, state := .killing }

/-- C `ntrdma_cm_kill`, where `err` is the result of the handler of the disconnect event. -/
def kill (err : Bool) : CmQp :=
  if qp.state ≠ .established then qp
  else
    let qp := { qp with state := .killing }
    match qp.cmId with
    | none => qp
    | some id =>
      if !hasHandler id then qp
      else
        let qp := qp.fire id .disconnect
        if err then qp
        else
          -- `ntrdma_cm_fire_close`
          { (qp.fire id .close).remRef id with cmId := none }

end CmQp

/-! ## Calls and commands -/

inductive ConnectPhase where
  | sleeping
  | returned (rc : UInt32)
  deriving DecidableEq, Repr

def ConnectPhase.after : Option UInt32 → ConnectPhase
  | none => sleeping
  | some rc => returned rc

structure ConnectCall where
  cmId : Nat
  phase : ConnectPhase
  deriving DecidableEq, Repr

/-- The commands for a connecting queue pair. A reply with status `-ENETUNREACH` is handled as a
reject. -/
inductive ReplyKind where
  | rep
  | reject
  deriving DecidableEq, Repr

/-- The queue pair, the calls made, and the handlers that read `qp->cm_id` and wait for the lock. -/
structure CmSys where
  qp : CmQp
  connects : Nat → Option ConnectCall
  accepts : Nat → Option Nat
  handlers : Nat → Option (ReplyKind × Option Nat)
  ids : List Nat

inductive CmAct where
  | connect (call id : Nat) (linkUp : Bool) (privateDataLen : Nat)
  | connectEnd (call : Nat) (rc : UInt32)
  | accept (call id : Nat)
  | acceptEnd (call : Nat) (rc : UInt32)
  | recv (handler : Nat) (kind : ReplyKind)
  | handle (handler : Nat)
  | kill (err : Bool)
  | shutdown
  deriving DecidableEq, Repr

def ReplyKind.handle (hasHandler : Nat → Bool) (qp : CmQp) (read : Option Nat) : ReplyKind → CmQp
  | rep => qp.handleRep hasHandler read
  | reject => qp.handleReject hasHandler read

namespace CmSys

def apply (hasHandler : Nat → Bool) (s : CmSys) : CmAct → Option CmSys
  | .connect call id linkUp privateDataLen =>
    if s.qp.crashed || (s.connects call).isSome then none
    else
      let out := s.qp.connect id linkUp privateDataLen
      some { s with
        qp := out.2
        connects := update s.connects call (some ⟨id, .after out.1⟩)
        ids := id :: s.ids }
  | .connectEnd call rc =>
    if s.qp.crashed then none
    else
      match s.connects call with
      | some ⟨id, .sleeping⟩ =>
        let out := s.qp.connectEnd id rc
        some { s with
          qp := out.2, connects := update s.connects call (some ⟨id, .returned out.1⟩) }
      | _ => none
  | .accept call id =>
    if s.qp.crashed || (s.accepts call).isSome then none
    else
      some { s with
        qp := s.qp.accept id
        accepts := update s.accepts call (some id)
        ids := id :: s.ids }
  | .acceptEnd call rc =>
    if s.qp.crashed then none
    else
      match s.accepts call with
      | none => none
      | some id =>
        let qp := if rc = 0 then s.qp.acceptEnd hasHandler id else s.qp
        some { s with qp, accepts := update s.accepts call none }
  | .recv handler kind =>
    if s.qp.crashed || (s.handlers handler).isSome then none
    else some { s with handlers := update s.handlers handler (some (kind, s.qp.cmId)) }
  | .handle handler =>
    if s.qp.crashed then none
    else
      match s.handlers handler with
      | none => none
      | some (kind, read) =>
        some { s with
          qp := kind.handle hasHandler s.qp read, handlers := update s.handlers handler none }
  | .kill err => if s.qp.crashed then none else some { s with qp := s.qp.kill hasHandler err }
  | .shutdown => if s.qp.crashed then none else some { s with qp := s.qp.shutdown hasHandler }

/-- A queue pair that was created (C `ntrdma_qp_init`). -/
def start : CmSys := ⟨⟨.idle, none, fun _ => 0, [], false⟩, fun _ => none,
    fun _ => none, fun _ => none, []⟩

end CmSys

def cmStep (hasHandler : Nat → Bool) (s : CmSys) (act : CmAct) (t : CmSys) : Prop :=
  s.apply hasHandler act = some t

inductive CmMove (hasHandler : Nat → Bool) (s : CmSys) : CmAct → CmSys → Prop where
  | connect {call id linkUp privateDataLen} : s.connects call = none →
    CmMove hasHandler s (.connect call id linkUp privateDataLen)
      { s with
        qp := (s.qp.connect id linkUp privateDataLen).2
        connects := update s.connects call
          (some ⟨id, .after (s.qp.connect id linkUp privateDataLen).1⟩)
        ids := id :: s.ids }
  | connectEnd {call rc id} : s.connects call = some ⟨id, .sleeping⟩ →
    CmMove hasHandler s (.connectEnd call rc)
      { s with
        qp := (s.qp.connectEnd id rc).2
        connects := update s.connects call (some ⟨id, .returned (s.qp.connectEnd id rc).1⟩) }
  | accept {call id} :
    CmMove hasHandler s (.accept call id)
      { s with
        qp := s.qp.accept id
        accepts := update s.accepts call (some id)
        ids := id :: s.ids }
  | acceptEnd {call rc id} : s.accepts call = some id →
    CmMove hasHandler s (.acceptEnd call rc)
      { s with
        qp := if rc = 0 then s.qp.acceptEnd hasHandler id else s.qp
        accepts := update s.accepts call none }
  | recv {handler kind} :
    CmMove hasHandler s (.recv handler kind)
      { s with handlers := update s.handlers handler (some (kind, s.qp.cmId)) }
  | handle {handler kind read} : s.handlers handler = some (kind, read) →
    CmMove hasHandler s (.handle handler)
      { s with
        qp := ReplyKind.handle hasHandler s.qp read kind
        handlers := update s.handlers handler none }
  | kill {err} : CmMove hasHandler s (.kill err) { s with qp := s.qp.kill hasHandler err }
  | shutdown : CmMove hasHandler s .shutdown { s with qp := s.qp.shutdown hasHandler }

variable {hasHandler : Nat → Bool} {s t : CmSys} {act : CmAct}

lemma cmStep.move (h : cmStep hasHandler s act t) : CmMove hasHandler s act t := by
  cases act with
  | connect =>
    simp only [cmStep, CmSys.apply] at h
    split at h <;> cases h
    next hnew =>
      simp only [Bool.or_eq_true, not_or, Option.not_isSome_iff_eq_none] at hnew
      exact .connect hnew.2
  | connectEnd =>
    simp only [cmStep, CmSys.apply] at h
    split at h
    · cases h
    · split at h <;> cases h
      exact .connectEnd ‹_›
  | accept =>
    simp only [cmStep, CmSys.apply] at h
    split at h <;> cases h
    exact .accept
  | acceptEnd =>
    simp only [cmStep, CmSys.apply] at h
    split at h
    · cases h
    · split at h <;> cases h
      exact .acceptEnd ‹_›
  | recv =>
    simp only [cmStep, CmSys.apply] at h
    split at h <;> cases h
    exact .recv
  | handle =>
    simp only [cmStep, CmSys.apply] at h
    split at h
    · cases h
    · split at h <;> cases h
      exact .handle ‹_›
  | kill =>
    simp only [cmStep, CmSys.apply] at h
    split at h <;> cases h
    exact .kill
  | shutdown =>
    simp only [cmStep, CmSys.apply] at h
    split at h <;> cases h
    exact .shutdown

/-- The end of a call and the handler of a command find `qp->cm_id` as they left it or read it. -/
def CmSys.OwnAttempt (s : CmSys) : CmAct → Prop
  | .connectEnd call rc => ∀ id, s.connects call = some ⟨id, .sleeping⟩ → rc ≠ 0 →
    s.qp.state = .connecting → s.qp.cmId = some id
  | .handle handler => ∀ kind read, s.handlers handler = some (kind, read) →
    s.qp.state = .connecting → s.qp.cmId = read
  | _ => True

/-! ## References -/

/-- The queue pair has one reference on the `cm_id` it points to and none on any other. -/
def CmQp.Balanced (qp : CmQp) : Prop := ∀ id, qp.refs id = if qp.cmId = some id then 1 else 0

/-- No call is refused for its private data, accepts while there is a `cm_id`, or ends another's
attempt. -/
def CmSys.Tidy (s : CmSys) : CmAct → Prop
  | .connect _ _ linkUp privateDataLen =>
    s.qp.state = .idle → linkUp = true → privateDataLen ≤ privateDataMaxLen
  | .accept _ _ => s.qp.cmId = none
  | act => s.OwnAttempt act

def TidyStep (hasHandler : Nat → Bool) (s : CmSys) (act : CmAct) (t : CmSys) : Prop :=
  cmStep hasHandler s act t ∧ s.Tidy act

namespace CmQp
variable {qp : CmQp} {hasHandler : Nat → Bool}

lemma Balanced.of_eq {qp' : CmQp} (h : qp.Balanced) (hrefs : qp'.refs = qp.refs)
    (hid : qp'.cmId = qp.cmId) : qp'.Balanced := by
  intro id
  rw [hrefs, hid]
  exact h id

variable {id : Nat}

lemma Balanced.remRef (h : qp.Balanced) (hid : qp.cmId = some id) :
    Balanced { qp.remRef id with cmId := none } := by
  intro id'
  by_cases heq : id' = id
  · subst heq
    simp [CmQp.remRef, h id', hid]
  · have hne : qp.cmId ≠ some id' := by
      rw [hid]
      exact fun he => heq (Option.some.inj he).symm
    simp [CmQp.remRef, update_of_ne heq, h id', hne]

lemma Balanced.addRef (h : qp.Balanced) (hid : qp.cmId = none) :
    Balanced { qp.addRef id with cmId := some id } := by
  intro id'
  by_cases heq : id' = id
  · subst heq
    simp [CmQp.addRef, h id', hid]
  · have hne : some id ≠ some id' := fun he => heq (Option.some.inj he).symm
    simp [CmQp.addRef, update_of_ne heq, h id', hid, hne]

lemma Balanced.connect (h : qp.Balanced) {linkUp : Bool} {privateDataLen : Nat}
    (hlen : qp.state = .idle → linkUp = true → privateDataLen ≤ privateDataMaxLen) :
    (qp.connect id linkUp privateDataLen).2.Balanced := by
  unfold CmQp.connect
  split
  · exact h
  next hidle =>
    split
    · exact h
    next hup =>
      simp only [Nat.not_lt.mpr (hlen (not_not.mp hidle) (by simpa using hup)), if_false]
      -- the old pointer goes first, then the new one is as good as on a queue pair without
      cases hold : qp.cmId with
      | none => exact (h.addRef hold).of_eq rfl rfl
      | some => exact ((h.remRef hold).addRef rfl).of_eq rfl rfl

lemma Balanced.connectEnd (h : qp.Balanced) {rc : UInt32}
    (hown : rc ≠ 0 → qp.state = .connecting → qp.cmId = some id) :
    (qp.connectEnd id rc).2.Balanced := by
  unfold CmQp.connectEnd
  split
  · exact h
  · next hrc =>
    split
    · next hstate => exact (h.remRef (hown hrc hstate)).of_eq rfl rfl
    · exact h

lemma Balanced.acceptEnd (h : qp.Balanced) (id : Nat) : (qp.acceptEnd hasHandler id).Balanced := by
  unfold CmQp.acceptEnd
  split
  · exact h
  · split <;> exact h.of_eq rfl rfl

lemma Balanced.handle (h : qp.Balanced) {read : Option Nat} (kind : ReplyKind)
    (hown : qp.state = .connecting → qp.cmId = read) :
    (kind.handle hasHandler qp read).Balanced := by
  cases kind with
  | rep =>
    cases read <;> simp only [ReplyKind.handle, CmQp.handleRep] <;> split
    · exact h
    · exact h.of_eq rfl rfl
    · exact h
    · split <;> exact h.of_eq rfl rfl
  | reject =>
    cases read <;> simp only [ReplyKind.handle, CmQp.handleReject] <;> split
    · exact h
    · exact h.of_eq rfl rfl
    · exact h
    · next hstate =>
      have hid := hown (not_not.mp hstate)
      split <;> exact (h.remRef hid).of_eq rfl rfl

lemma Balanced.shutdown (h : qp.Balanced) : (qp.shutdown hasHandler).Balanced := by
  unfold CmQp.shutdown
  split
  · exact h.of_eq rfl rfl
  · split
    · exact h
    · split
      · exact h.of_eq rfl rfl
      · next hid => split <;> exact (h.remRef hid).of_eq rfl rfl

lemma Balanced.kill (h : qp.Balanced) (err : Bool) : (qp.kill hasHandler err).Balanced := by
  unfold CmQp.kill
  split
  · exact h
  · simp only
    split
    · exact h.of_eq rfl rfl
    · next hid =>
      split
      · exact h.of_eq rfl rfl
      · split
        · exact h.of_eq rfl rfl
        · exact (h.remRef hid).of_eq rfl rfl

end CmQp

lemma CmSys.balanced_step (h : s.qp.Balanced) (hstep : TidyStep hasHandler s act t) :
    t.qp.Balanced := by
  obtain ⟨hstep, htidy⟩ := hstep
  cases hstep.move with
  | connect => exact h.connect htidy
  | connectEnd hcall => exact h.connectEnd (htidy _ hcall)
  | accept => exact h.addRef htidy
  | acceptEnd =>
    split
    · exact h.acceptEnd _
    · exact h
  | recv => exact h
  | handle hread => exact h.handle _ (htidy _ _ hread)
  | kill => exact h.kill _
  | shutdown => exact h.shutdown

/-- **References balance** in every run whose steps are tidy. -/
theorem cmRefs_balanced {hasHandler : Nat → Bool} {s : CmSys}
    (h : Reaches (TidyStep hasHandler) .start s) : s.qp.Balanced :=
  h.invariant (I := fun s => s.qp.Balanced) (fun _ => rfl) fun _ _ _ => CmSys.balanced_step

def allHandlers : Nat → Bool := fun _ => true

def connectedRun : List CmAct :=
  [.connect 1 10 true 4, .recv 1 .rep, .handle 1, .connectEnd 1 0, .kill false]

/-- The steps that are tidy in every state, but for the handlers, which are looked at. -/
def tidyApply (s : CmSys) (act : CmAct) : Option CmSys :=
  match act with
  | .connect _ _ _ privateDataLen =>
    if privateDataLen ≤ privateDataMaxLen then s.apply allHandlers act else none
  | .handle handler =>
    if (s.handlers handler).all fun h => h.2 = s.qp.cmId then s.apply allHandlers act else none
  | .connectEnd _ rc => if rc = 0 then s.apply allHandlers act else none
  | .recv _ _ | .kill _ | .shutdown => s.apply allHandlers act
  | _ => none

lemma CmSys.cmId_eq_read (s : CmSys) {handler : Nat} {kind : ReplyKind} {read : Option Nat}
    (h : ((s.handlers handler).all fun h => h.2 = s.qp.cmId) = true)
    (hread : s.handlers handler = some (kind, read)) : s.qp.cmId = read := by
  rw [hread] at h
  exact (of_decide_eq_true h).symm

lemma tidyApply_tidyStep (s : CmSys) (act : CmAct) (t : CmSys) (h : tidyApply s act = some t) :
    TidyStep allHandlers s act t := by
  cases act <;> simp only [tidyApply, reduceCtorEq] at h
  case connect =>
    split at h
    · exact ⟨h, fun _ _ => ‹_›⟩
    · cases h
  case connectEnd =>
    split at h
    · exact ⟨h, fun _ _ hrc => absurd ‹_› hrc⟩
    · cases h
  case handle =>
    split at h
    · next hall => exact ⟨h, fun kind read hread _ => s.cmId_eq_read hall hread⟩
    · cases h
  all_goals exact ⟨h, trivial⟩

theorem cmRefs_balanced_connected : ∃ s, Reaches (TidyStep allHandlers) .start s ∧
    s.qp.events = [(10, .connectReply), (10, .disconnect), (10, .close)] ∧ s.qp.Balanced := by
  obtain ⟨s, hrun, hs⟩ := Reaches.exists_of_foldlM (s := CmSys.start)
    (p := fun s => s.qp.events == [(10, .connectReply), (10, .disconnect),
      (10, .close)]) connectedRun
    tidyApply_tidyStep (by decide +kernel)
  exact ⟨s, hrun, eq_of_beq hs, cmRefs_balanced hrun⟩

/-- A refused connect leaves the pointer without its reference; an accept keeps the one it replaces;
a handler drops the one it read during another attempt. -/
theorem cmRefs_unbalanced :
    (∃ s, [CmAct.connect 1 10 true 200, .connect 2 20 true 4].foldlM
      (CmSys.apply allHandlers) .start =
        some s ∧ s.qp.cmId = some 20 ∧ s.qp.refs 20 = 1 ∧ s.qp.refs 10 = -1) ∧
      (∃ s, [CmAct.accept 1 10, .accept 2 20].foldlM (CmSys.apply allHandlers) .start = some s ∧
        s.qp.cmId = some 20 ∧ s.qp.refs 20 = 1 ∧ s.qp.refs 10 = 1) ∧
      ∃ s, [CmAct.connect 1 10 true 4, .recv 1 .reject,
        .connectEnd 1 negEtime, .connect 2 20 true 4,
        .handle 1].foldlM (CmSys.apply allHandlers) .start = some s ∧
        s.qp.cmId = none ∧ s.qp.refs 20 = 1 ∧ s.qp.refs 10 = -1 :=
  ⟨⟨_, rfl, by decide, by decide, by decide⟩, ⟨_, rfl, by decide, by decide, by decide⟩,
    ⟨_, rfl, by decide, by decide, by decide⟩⟩

/-! ## Outcomes -/

def CmQp.replies (qp : CmQp) (id : Nat) : Nat := qp.events.count (id, .connectReply)

def CmSys.OneOutcome (s : CmSys) : Prop :=
  ∀ call id rc, s.connects call = some ⟨id, .returned rc⟩ →
    (rc ≠ 0 → s.qp.replies id = 0) ∧ (rc = 0 → s.qp.replies id ≤ 1)

/-- What a step must not do: use a `cm_id` again, or end an attempt that is not its own. -/
def CmSys.Separate (s : CmSys) : CmAct → Prop
  | .connect _ id _ _ => id ∉ s.ids
  | .accept _ id => id ∉ s.ids
  | act => s.OwnAttempt act

def SeparateStep (hasHandler : Nat → Bool) (s : CmSys) (act : CmAct) (t : CmSys) : Prop :=
  cmStep hasHandler s act t ∧ s.Separate act

/-- The attempt of the `cm_id` is the one the queue pair is at. -/
def CmQp.Live (qp : CmQp) (id : Nat) : Prop := qp.state = .connecting ∧ qp.cmId = some id

/-- The call has at most one reply, none while its attempt goes on, and none if it returned an
error. -/
structure CmQp.CallOk (qp : CmQp) (id : Nat) (phase : ConnectPhase) : Prop where
  once : qp.replies id ≤ 1
  live : qp.Live id → qp.replies id = 0
  failed : ∀ rc, phase = .returned rc → rc ≠ 0 → qp.replies id = 0 ∧ ¬ qp.Live id

/-- Every call is in order, and a `cm_id` that no call has used has no reply and is not pointed
to. -/
structure CmSys.Inv (s : CmSys) : Prop where
  calls : ∀ call id phase, s.connects call = some ⟨id, phase⟩ → id ∈ s.ids ∧ s.qp.CallOk id phase
  unused : ∀ id, id ∉ s.ids → s.qp.replies id = 0 ∧ s.qp.cmId ≠ some id

/-- A step settles nothing, or the attempt that goes on: a reply is fired for its `cm_id`. -/
structure CmQp.Settles (qp qp' : CmQp) : Prop where
  cmId : qp'.cmId = qp.cmId ∨ qp'.cmId = none
  replies : (∀ id, qp'.replies id = qp.replies id ∧ (qp'.Live id → qp.Live id)) ∨
    ∃ id, qp.Live id ∧ ∀ id', ¬ qp'.Live id' ∧
      qp'.replies id' = qp.replies id' + if id' = id then 1 else 0

namespace CmQp
variable {qp qp' : CmQp} {hasHandler : Nat → Bool} {id : Nat}

lemma replies_fire (qp : CmQp) (id id' : Nat) :
    (qp.fire id .connectReply).replies id' = qp.replies id' + if id' = id then 1 else 0 := by
  by_cases h : id' = id
  · simp [replies, fire, List.count_append, h]
  · simp [replies, fire, List.count_append, h, Ne.symm h]

lemma replies_fire_other {event : IwCmEventKind} (qp : CmQp) (id id' : Nat)
    (h : event ≠ .connectReply) : (qp.fire id event).replies id' = qp.replies id' := by
  simp [replies, fire, List.count_append, h]

lemma Settles.of_over (hstate : qp'.state ≠ .connecting)
    (hevents : ∀ id, qp'.replies id = qp.replies id) (hid : qp'.cmId = qp.cmId ∨ qp'.cmId = none) :
    qp.Settles qp' :=
  ⟨hid, .inl fun id => ⟨hevents id, fun h => absurd h.1 hstate⟩⟩

lemma Settles.of_fire (hasHandler : Nat → Bool) (hlive : qp.Live id)
    (hstate : qp'.state ≠ .connecting)
    (hevents : qp'.events = (if hasHandler id then qp.fire id .connectReply else qp).events)
    (hid : qp'.cmId = qp.cmId ∨ qp'.cmId = none) : qp.Settles qp' := by
  cases hh : hasHandler id with
  | false =>
    rw [hh, if_neg Bool.false_ne_true] at hevents
    exact .of_over hstate (fun _ => by rw [CmQp.replies, hevents]; rfl) hid
  | true =>
    rw [hh, if_pos rfl] at hevents
    refine ⟨hid, .inr ⟨id, hlive, fun id' => ⟨fun h => hstate h.1, ?_⟩⟩⟩
    rw [← replies_fire, CmQp.replies, hevents]
    rfl

lemma Settles.refl (qp : CmQp) : qp.Settles qp := ⟨.inl rfl, .inl fun _ => ⟨rfl, fun h => h⟩⟩

lemma settles_crash (qp : CmQp) : qp.Settles qp.crash := ⟨.inl rfl, .inl fun _ => ⟨rfl, fun h => h⟩⟩

lemma settles_acceptEnd (qp : CmQp) (hasHandler : Nat → Bool) (id : Nat) :
    qp.Settles (qp.acceptEnd hasHandler id) := by
  unfold acceptEnd
  split
  · exact .refl qp
  · split
    · exact .of_over nofun (fun _ => replies_fire_other _ _ _ nofun) (.inl rfl)
    · exact .of_over nofun (fun _ => rfl) (.inl rfl)

lemma settles_handle (qp : CmQp) (hasHandler : Nat → Bool) {read : Option Nat} (kind : ReplyKind)
    (hown : qp.state = .connecting → qp.cmId = read) :
    qp.Settles (kind.handle hasHandler qp read) := by
  cases kind with
  | rep =>
    cases read <;> simp only [ReplyKind.handle, handleRep] <;> split
    · exact .refl qp
    · exact qp.settles_crash
    · exact .refl qp
    · next id hstate =>
      have hstate := not_not.mp hstate
      split
      next hh =>
        exact .of_fire hasHandler ⟨hstate, hown hstate⟩
          nofun (by rw [if_pos hh]) (.inl rfl)
      · exact qp.settles_crash
  | reject =>
    cases read <;> simp only [ReplyKind.handle, handleReject] <;> split
    · exact .refl qp
    · exact qp.settles_crash
    · exact .refl qp
    · next id hstate =>
      have hstate := not_not.mp hstate
      exact .of_fire hasHandler ⟨hstate, hown hstate⟩ nofun rfl (.inr rfl)

lemma settles_shutdown (qp : CmQp) (hasHandler : Nat → Bool) :
    qp.Settles (qp.shutdown hasHandler) := by
  unfold shutdown
  split
  · exact .of_over nofun (fun _ => rfl) (.inl rfl)
  · split
    · exact .refl qp
    · next hstate =>
      split
      · exact qp.settles_crash
      · next id hid => exact .of_fire hasHandler ⟨not_not.mp hstate, hid⟩ nofun rfl (.inr rfl)

lemma settles_kill (qp : CmQp) (hasHandler : Nat → Bool) (err : Bool) : qp.Settles
    (qp.kill hasHandler err) := by
  unfold kill
  split
  · exact .refl qp
  · simp only
    split
    · exact .of_over nofun (fun _ => rfl) (.inl rfl)
    · split
      · exact .of_over nofun (fun _ => rfl) (.inl rfl)
      · split
        · exact .of_over nofun (fun _ => replies_fire_other _ _ _ nofun) (.inl rfl)
        · next id _ _ _ =>
          have hclose (qp : CmQp) (id' : Nat) :
              ((qp.fire id .disconnect).fire id .close).replies id' = qp.replies id' := by
            rw [replies_fire_other _ _ _ (by decide), replies_fire_other _ _ _ (by decide)]
          exact .of_over nofun (hclose { qp with state := .killing }) (.inr rfl)

lemma connectEnd_replies (qp : CmQp) (id : Nat) (rc : UInt32) (id' : Nat) :
    (qp.connectEnd id rc).2.replies id' = qp.replies id' := by
  unfold connectEnd
  split
  · rfl
  · split <;> rfl

lemma settles_connectEnd (qp : CmQp) (id : Nat) (rc : UInt32) :
    qp.Settles (qp.connectEnd id rc).2 := by
  unfold connectEnd
  split
  · exact .refl qp
  · split
    · exact .of_over nofun (fun _ => rfl) (.inr rfl)
    · exact .refl qp

variable {rc : UInt32}

lemma connectEnd_fails (h : (qp.connectEnd id rc).1 ≠ 0) :
    rc ≠ 0 ∧ qp.state = .connecting ∧ ∀ id', ¬ (qp.connectEnd id rc).2.Live id' := by
  unfold connectEnd at h ⊢
  split at h
  · exact absurd rfl h
  · next hrc =>
    split at h
    · next hstate =>
      rw [if_neg hrc, if_pos hstate]
      exact ⟨hrc, hstate, fun _ hlive => absurd hlive.1 nofun⟩
    · exact absurd rfl h

lemma connect_replies (qp : CmQp) (id : Nat) (linkUp : Bool) (privateDataLen : Nat) (id' : Nat) :
    (qp.connect id linkUp privateDataLen).2.replies id' = qp.replies id' := by
  unfold connect
  split
  · rfl
  · split
    · rfl
    · cases hold : qp.cmId <;> simp only <;> split <;> rfl

/-- Where a call begins, its `cm_id` is the only one that the queue pair points to from then on. -/
lemma connect_cmId (qp : CmQp) (id : Nat) (linkUp : Bool) (privateDataLen : Nat) :
    (qp.connect id linkUp privateDataLen).2 = qp ∨
      (qp.connect id linkUp privateDataLen).2.cmId = some id := by
  unfold connect
  split
  · exact .inl rfl
  · split
    · exact .inl rfl
    · cases hold : qp.cmId <;> simp only <;> split <;> exact .inr rfl

lemma connect_fails {linkUp : Bool} {privateDataLen : Nat}
    (h : (qp.connect id linkUp privateDataLen).1 = some rc) :
    (qp.connect id linkUp privateDataLen).2 = qp ∨
      (qp.connect id linkUp privateDataLen).2.state = .idle := by
  unfold connect at h ⊢
  split
  · exact .inl rfl
  · next hstate =>
    split
    · exact .inl rfl
    · next hlink =>
      rw [if_neg hstate, if_neg hlink] at h
      by_cases hlen : privateDataLen > privateDataMaxLen
      · simp [if_pos hlen]
      · simp [if_neg hlen] at h

variable {phase : ConnectPhase}

lemma CallOk.mono (h : qp.CallOk id phase) (hreplies : qp'.replies id = qp.replies id)
    (hlive : qp'.Live id → qp.Live id) : qp'.CallOk id phase where
  once := by rw [hreplies]; exact h.once
  live := fun hl => by rw [hreplies]; exact h.live (hlive hl)
  failed := fun rc hphase hrc => by
    rw [hreplies]
    exact ⟨(h.failed rc hphase hrc).1, fun hl => (h.failed rc hphase hrc).2 (hlive hl)⟩

lemma CallOk.settles (h : qp.CallOk id phase) (hsettles : qp.Settles qp') :
    qp'.CallOk id phase := by
  obtain hsame | ⟨id', hlive, hfired⟩ := hsettles.replies
  · exact h.mono (hsame id).1 (hsame id).2
  · obtain ⟨hover, hreplies⟩ := hfired id
    by_cases heq : id = id'
    · subst heq
      rw [if_pos rfl, h.live hlive] at hreplies
      refine ⟨hreplies.le, fun hl => absurd hl hover, fun rc hphase hrc => ?_⟩
      exact absurd hlive (h.failed rc hphase hrc).2
    · rw [if_neg heq] at hreplies
      exact h.mono hreplies fun hl => absurd hl hover

end CmQp

namespace CmSys
variable {hasHandler : Nat → Bool} {s t : CmSys}

lemma Inv.settles (h : s.Inv) (hsettles : s.qp.Settles t.qp) (hids : t.ids = s.ids)
    (hcalls : ∀ call id phase, t.connects call = some ⟨id, phase⟩ →
      id ∈ s.ids ∧ t.qp.CallOk id phase) : t.Inv := by
  refine ⟨fun call id phase hcall => by rw [hids]; exact hcalls call id phase hcall,
    fun id hid => ?_⟩
  rw [hids] at hid
  obtain ⟨hnone, hpoint⟩ := h.unused id hid
  constructor
  · obtain hsame | ⟨id', hlive, hfired⟩ := hsettles.replies
    · rw [(hsame id).1, hnone]
    · have hne : id ≠ id' := fun heq => hpoint (heq ▸ hlive.2)
      rw [(hfired id).2, hnone, if_neg hne]
  · obtain hid' | hid' := hsettles.cmId
    · rwa [hid']
    · rw [hid']
      exact nofun

lemma Inv.of_settles (h : s.Inv) (hsettles : s.qp.Settles t.qp) (hids : t.ids = s.ids)
    (hconnects : t.connects = s.connects) : t.Inv := by
  refine h.settles hsettles hids fun call id phase hcall => ?_
  rw [hconnects] at hcall
  exact ⟨(h.calls call id phase hcall).1, (h.calls call id phase hcall).2.settles hsettles⟩

lemma Inv.points (h : s.Inv) {id : Nat} (hnew : id ∉ s.ids) (qp : CmQp)
    (hreplies : ∀ id', qp.replies id' = s.qp.replies id') (hpoint : qp = s.qp ∨ qp.cmId = some id) :
    (∀ id' phase, id' ∈ s.ids → s.qp.CallOk id' phase → qp.CallOk id' phase) ∧
      ∀ id', id' ∉ id :: s.ids → qp.replies id' = 0 ∧ qp.cmId ≠ some id' := by
  refine ⟨fun id' phase hid' hok => hok.mono (hreplies id') fun hlive => ?_, fun id' hid' => ?_⟩
  · obtain rfl | hpoint := hpoint
    · exact hlive
    · obtain rfl := Option.some.inj (hpoint.symm.trans hlive.2)
      exact absurd hid' hnew
  · rw [List.mem_cons, not_or] at hid'
    obtain ⟨hnone, hold⟩ := h.unused id' hid'.2
    refine ⟨(hreplies id').trans hnone, ?_⟩
    obtain rfl | hpoint := hpoint
    · exact hold
    · rw [hpoint]
      exact fun heq => hid'.1 (Option.some.inj heq).symm

lemma Inv.connect (h : s.Inv) {call id privateDataLen : Nat} {linkUp : Bool} (hnew : id ∉ s.ids) :
    CmSys.Inv { s with
      qp := (s.qp.connect id linkUp privateDataLen).2
      connects := update s.connects call
        (some ⟨id, .after (s.qp.connect id linkUp privateDataLen).1⟩)
      ids := id :: s.ids } := by
  have hreplies := s.qp.connect_replies id linkUp privateDataLen
  obtain ⟨hcalls, hunused⟩ := h.points hnew _ hreplies (s.qp.connect_cmId id linkUp privateDataLen)
  obtain ⟨hnone, hpoint⟩ := h.unused id hnew
  refine ⟨fun call' id' phase hcall => ?_, hunused⟩
  dsimp only at hcall
  by_cases heq : call' = call
  · rw [heq, update_self] at hcall
    cases hcall
    refine ⟨List.mem_cons_self, ?_, fun _ => ?_, fun rc hphase _ => ?_⟩
    · rw [hreplies, hnone]
      exact Nat.zero_le _
    · rw [hreplies, hnone]
    · refine ⟨by rw [hreplies, hnone], fun hlive => ?_⟩
      obtain ⟨rc', hrc⟩ : ∃ rc', (s.qp.connect id linkUp privateDataLen).1 = some rc' := by
        cases hout : (s.qp.connect id linkUp privateDataLen).1 with
        | none => rw [hout] at hphase; cases hphase
        | some rc' => exact ⟨rc', rfl⟩
      obtain hsame | hidle := CmQp.connect_fails hrc
      · rw [hsame] at hlive
        exact hpoint hlive.2
      · exact absurd (hidle.symm.trans hlive.1) nofun
  · rw [update_of_ne heq] at hcall
    obtain ⟨hid, hok⟩ := h.calls call' id' phase hcall
    exact ⟨List.mem_cons_of_mem _ hid, hcalls id' phase hid hok⟩

lemma Inv.connectEnd (h : s.Inv) {call id : Nat} {rc : UInt32}
    (hcall : s.connects call = some ⟨id, .sleeping⟩)
    (hown : rc ≠ 0 → s.qp.state = .connecting → s.qp.cmId = some id) :
    CmSys.Inv { s with
      qp := (s.qp.connectEnd id rc).2
      connects := update s.connects call (some ⟨id, .returned (s.qp.connectEnd id rc).1⟩) } := by
  have hsettles := s.qp.settles_connectEnd id rc
  refine h.settles hsettles rfl fun call' id' phase hcall' => ?_
  dsimp only at hcall'
  by_cases heq : call' = call
  · rw [heq, update_self] at hcall'
    cases hcall'
    obtain ⟨hid, hok⟩ := h.calls call id _ hcall
    refine ⟨hid, (hok.settles hsettles).once, (hok.settles hsettles).live,
      fun rc' hphase hrc' => ?_⟩
    cases hphase
    obtain ⟨hrc, hstate, hover⟩ := CmQp.connectEnd_fails hrc'
    -- the attempt that the call ends is its own, so no reply was fired for it
    have hnone := hok.live ⟨hstate, hown hrc hstate⟩
    exact ⟨(s.qp.connectEnd_replies id rc id).trans hnone, hover id⟩
  · rw [update_of_ne heq] at hcall'
    exact ⟨(h.calls call' id' phase hcall').1, (h.calls call' id' phase hcall').2.settles hsettles⟩

lemma Inv.step {act : CmAct} (h : s.Inv) (hstep : SeparateStep hasHandler s act t) : t.Inv := by
  obtain ⟨hstep, hseparate⟩ := hstep
  cases hstep.move with
  | connect => exact h.connect hseparate
  | connectEnd hcall => exact h.connectEnd hcall (hseparate _ hcall)
  | accept =>
    obtain ⟨hcalls, hunused⟩ := h.points hseparate (s.qp.accept _) (fun _ => rfl) (.inr rfl)
    refine ⟨fun call id phase hcall => ?_, hunused⟩
    obtain ⟨hid, hok⟩ := h.calls call id phase hcall
    exact ⟨List.mem_cons_of_mem _ hid, hcalls id phase hid hok⟩
  | acceptEnd =>
    refine h.of_settles ?_ rfl rfl
    split
    · exact s.qp.settles_acceptEnd hasHandler _
    · exact .refl s.qp
  | recv => exact h.of_settles (.refl s.qp) rfl rfl
  | handle hread =>
    exact h.of_settles (s.qp.settles_handle hasHandler _ (hseparate _ _ hread)) rfl rfl
  | kill => exact h.of_settles (s.qp.settles_kill hasHandler _) rfl rfl
  | shutdown => exact h.of_settles (s.qp.settles_shutdown hasHandler) rfl rfl

lemma Inv.oneOutcome (h : s.Inv) : s.OneOutcome := by
  intro call id rc hcall
  have hok := (h.calls call id _ hcall).2
  exact ⟨fun hrc => (hok.failed rc rfl hrc).1, fun _ => hok.once⟩

end CmSys

/-- **One outcome per connect** where each call has a `cm_id` of its own and ends its own
attempt. -/
theorem connect_oneOutcome {hasHandler : Nat → Bool} {s : CmSys}
    (h : Reaches (SeparateStep hasHandler) .start s) : s.OneOutcome := by
  have hinv := h.invariant (I := CmSys.Inv) ⟨nofun, fun _ _ =>
    ⟨rfl, nofun⟩⟩ fun _ _ _ => CmSys.Inv.step
  exact hinv.oneOutcome

/-- A connection is refused, and the queue pair is connected again with another `cm_id`. -/
def retriedRun : List CmAct :=
  [.connect 1 10 true 4, .recv 1 .reject, .handle 1, .connectEnd 1 0, .connect 2 20 true 4,
    .connectEnd 2 negEtime]

def separateApply (s : CmSys) (act : CmAct) : Option CmSys :=
  match act with
  | .connect _ id _ _ => if id ∈ s.ids then none else s.apply allHandlers act
  | .handle handler =>
    if (s.handlers handler).all fun h => h.2 = s.qp.cmId then s.apply allHandlers act else none
  | .connectEnd call rc =>
    if rc = 0 ∨ s.qp.cmId = (s.connects call).map ConnectCall.cmId then
      s.apply allHandlers act else none
  | .recv _ _ | .kill _ | .shutdown => s.apply allHandlers act
  | _ => none

lemma separateApply_separateStep (s : CmSys) (act : CmAct) (t : CmSys)
    (h : separateApply s act = some t) : SeparateStep allHandlers s act t := by
  cases act <;> simp only [separateApply, reduceCtorEq] at h
  case connect =>
    split at h
    · cases h
    · exact ⟨h, ‹_›⟩
  case connectEnd =>
    split at h
    · next hown =>
      refine ⟨h, fun id hcall hrc _ => ?_⟩
      rw [hcall] at hown
      exact hown.resolve_left hrc
    · cases h
  case handle =>
    split at h
    · next hall => exact ⟨h, fun kind read hread _ => s.cmId_eq_read hall hread⟩
    · cases h
  all_goals exact ⟨h, trivial⟩

theorem connect_oneOutcome_retried : ∃ s, Reaches (SeparateStep allHandlers) .start s ∧
    s.connects 1 = some ⟨10, .returned 0⟩ ∧ s.connects 2 = some ⟨20, .returned negEtime⟩ ∧
    s.OneOutcome := by
  obtain ⟨s, hrun, hs⟩ := Reaches.exists_of_foldlM (s := CmSys.start)
    (p := fun s => s.connects 1 == some ⟨10, .returned 0⟩ && s.connects 2 ==
      some ⟨20, .returned negEtime⟩)
    retriedRun separateApply_separateStep (by decide +kernel)
  rw [Bool.and_eq_true] at hs
  exact ⟨s, hrun, eq_of_beq hs.1, eq_of_beq hs.2, connect_oneOutcome hrun⟩

/-- The second call begins during the first: an error after a reply, and a reply after an error. -/
theorem connect_both_outcomes :
    (∃ s, [CmAct.connect 1 10 true 4, .recv 1 .reject, .handle 1, .connect 2 20 true 4,
        .connectEnd 1 negEtime].foldlM (CmSys.apply allHandlers) .start = some s ∧
        s.connects 1 = some ⟨10, .returned negEtime⟩ ∧ s.qp.replies 10 = 1) ∧
      ∃ s, [CmAct.connect 1 10 true 4, .recv 1 .rep, .connectEnd 1 negEtime, .connect 2 20 true 4,
        .handle 1].foldlM (CmSys.apply allHandlers) .start = some s ∧
        s.connects 1 = some ⟨10, .returned negEtime⟩ ∧ s.qp.replies 10 = 1 :=
  ⟨⟨_, rfl, by decide, by decide⟩, ⟨_, rfl, by decide, by decide⟩⟩

end Ntrdma
