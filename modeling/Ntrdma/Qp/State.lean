import Ntrdma.Qp.Basic

/-!
# The state of a queue pair

Model of the functions that change the state of a queue pair and the flags of its abort:
`ntrdma_modify_qp_local`, by which the application moves a queue pair, `ntrmda_rqp_modify_local`,
which carries out the modification that a peer reports, `ntrdma_qp_reset` and
`ntrdma_qp_send_stall`.

Connection management, the remote buffers that a reset clears and the choice of a DMA channel are
left out. An attribute set comes with its mask, as in the call.
-/

namespace Ntrdma

/-- The bits of `enum ib_qp_attr_mask` that are looked at. -/
def qpMaskState : UInt32 := 0x1
def qpMaskCurState : UInt32 := 0x2
def qpMaskAccessFlags : UInt32 := 0x8
def qpMaskDestQpn : UInt32 := 0x100000

def qpMaskSupported : UInt32 := 0x13BFFB

/-- The attributes of `ntrdma_modify_qp` (C `struct ib_qp_attr` and its mask). -/
structure QpAttr where
  mask : UInt32
  qpState : QpState
  curQpState : QpState
  qpAccessFlags : UInt32
  destQpNum : UInt32

def QpAttr.has (attr : QpAttr) (bit : UInt32) : Bool := attr.mask &&& bit != 0

/-- A queue pair as the control path sees it (C `struct ntrdma_qp`). -/
structure QpObj where
  qp : Qp
  rqpKey : UInt32
  access : UInt32

/-- The peer's view of a queue pair as the control path sees it (C `struct ntrdma_rqp`). -/
structure RqpObj where
  rqp : Rqp
  qpKey : UInt32
  access : UInt32

/-- C `modify_qp_state`, where no other thread changed the state since the caller read it. -/
def modifyQpState (qp : Qp) (newState : QpState) : Qp :=
  let qp := { qp with state := newState }
  let qp :=
    if !isStateError newState then { qp with sendAborting := false, sendAbort := false } else qp
  { qp with recvAborting := false, recvAbort := false }

def modifyQpLocal (obj : QpObj) (attr : QpAttr) : Except Errno Unit × QpObj :=
  let curState := obj.qp.state
  if attr.has qpMaskCurState && attr.curQpState != curState then (.error .einval, obj)
  else if attr.mask &&& ~~~qpMaskSupported != 0 then (.error .einval, obj)
  else if attr.has qpMaskState &&
      (attr.qpState == .sqd && curState == .err || attr.qpState == curState) then (.ok (), obj)
  else
    let obj :=
      if attr.has qpMaskState then { obj with qp := modifyQpState obj.qp attr.qpState } else obj
    let obj := if attr.has qpMaskAccessFlags then { obj with access := attr.qpAccessFlags } else obj
    (.ok (), if attr.has qpMaskDestQpn then { obj with rqpKey := attr.destQpNum } else obj)

lemma modifyQpState_eq (qp : Qp) (newState : QpState) : modifyQpState qp newState =
    { qp with
      state := newState
      sendAborting := isStateError newState && qp.sendAborting
      sendAbort := isStateError newState && qp.sendAbort
      recvAborting := false
      recvAbort := false } := by
  rw [modifyQpState]
  cases isStateError newState <;> rfl

lemma modifyQpLocal_cases (obj : QpObj) (attr : QpAttr) :
    (modifyQpLocal obj attr).2.qp = obj.qp ∨
      attr.mask &&& ~~~qpMaskSupported = 0 ∧
      (attr.has qpMaskCurState = true → attr.curQpState = obj.qp.state) ∧
      attr.has qpMaskState = true ∧ attr.qpState ≠ obj.qp.state ∧
      (modifyQpLocal obj attr).2.qp = modifyQpState obj.qp attr.qpState := by
  simp only [modifyQpLocal]
  split
  · exact .inl rfl
  rename_i hcur
  split
  · exact .inl rfl
  rename_i hsupported
  split
  · exact .inl rfl
  rename_i hnew
  cases hmask : attr.has qpMaskState with
  | false =>
    refine .inl ?_
    rw [if_neg Bool.false_ne_true]
    split <;> split <;> rfl
  | true =>
    refine .inr ⟨by simpa using hsupported, by simpa using hcur, rfl, ?_, ?_⟩
    · rintro heq
      simp [hmask, heq] at hnew
    · rw [if_pos rfl]
      split <;> split <;> rfl

def moveToErrState (qp : Qp) : Qp := { qp with state := .err }

def qpReset (qp : Qp) : Qp :=
  { moveToErrState qp with sendAborting := true, recvAborting := true }

def qpSendStall (qp : Qp) : Qp :=
  if !isStateSendReady qp.state then
    { qp with
      sendAborting := if !qp.sendAbort then true else qp.sendAborting
      recvAborting := if !qp.recvAbort then true else qp.recvAborting }
  else { moveToErrState qp with sendAborting := true, recvAborting := true }

/-- The queue pairs of a host and its views of the queue pairs of the peer, by key
(`ntrdma_dev_qp_look_and_get`, `ntrdma_dev_rqp_look_and_get`). -/
structure Host where
  qps : UInt32 → Option QpObj
  rqps : UInt32 → Option RqpObj

def Host.setQp (host : Host) (key : UInt32) (obj : QpObj) : Host :=
  { host with qps := Function.update host.qps key (some obj) }

def Host.setRqp (host : Host) (key : UInt32) (obj : RqpObj) : Host :=
  { host with rqps := Function.update host.rqps key (some obj) }

def rqpModifyLocal (host : Host) (srcQpKey access : UInt32) (newState : QpState)
    (destQpKey : UInt32) : Except Errno Unit × Host :=
  match host.rqps srcQpKey with
  | none => (.error .einval, host)
  | some robj =>
    let robj := { robj with rqp := { robj.rqp with state := newState } }
    let robj := if access ≠ 0 then { robj with access } else robj
    let robj := if !isStateError newState then { robj with qpKey := destQpKey } else robj
    let host := host.setRqp srcQpKey robj
    if isStateError newState && robj.qpKey == destQpKey then
      match host.qps destQpKey with
      | none => (.ok (), host)
      | some obj =>
        (.ok (), host.setQp destQpKey { obj with qp := { obj.qp with state := newState } })
    else (.ok (), host)

def Host.qpReset (host : Host) (key : UInt32) : Host :=
  match host.qps key with
  | none => host
  | some obj =>
    let host :=
      match host.rqps obj.rqpKey with
      | none => host
      | some robj => host.setRqp obj.rqpKey { robj with rqp := { robj.rqp with state := .err } }
    host.setQp key { obj with qp := Ntrdma.qpReset obj.qp }

end Ntrdma
