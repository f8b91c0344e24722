import Ntrdma.Cmd.Basic
import Ntrdma.Qp.State

/-!
# Commands received from the peer

Model of `ntrdma_cmd_recv` and its handlers. A handler fills a slot of the response ring that still
holds an earlier response, so whatever it does not write is sent back as it was.

What the kernel answers (allocations, the table of remote resources) is a parameter. So is what the
handlers of connection management return.
-/

namespace Ntrdma

/-! ## The device -/

/-- A memory region of the peer as the control path sees it (C `struct ntrdma_rmr`). -/
structure RmrObj where
  pdKey : UInt32
  access : UInt32
  addr : UInt64
  len : UInt64
  sgCount : UInt32
  sgList : Nat → RemoteBuf

/-- What the commands of the peer change (C `struct ntrdma_dev`). -/
structure CmdDev where
  host : Host
  rmrs : UInt32 → Option RmrObj
  ntc : NtcDev

/-- The buffers and the doorbell that `ntrdma_rqp_init` allocates, as the response describes
them. -/
structure RqpBufs where
  recvWqeBuf : RemoteBufDesc
  sendWqeBuf : RemoteBufDesc
  sendVbellIdx : UInt32

structure RecvEnv where
  alloc : Bool
  rqpBufs : Except Errno RqpBufs
  vecSet : Except Errno Unit
  cmConnectReq : CmdIwCm → UInt32
  cmRep : CmdIwCm → UInt32
  cmReject : CmdIwCm → UInt32

/-- A command that was handled: what the handler returned, the response and the device. -/
structure CmdDone where
  rc : Except Errno Unit
  rsp : Rsp
  dev : CmdDev

def CmdDone.reply (rsp : Rsp) : Except Errno Unit × CmdDev → CmdDone
  | (.ok (), dev) => ⟨.ok (), rsp.setStatus 0, dev⟩
  | (.error e, dev) => ⟨.error e, rsp.setStatus (~~~0), dev⟩

/-! ## The handlers -/

def cmdRecvNone (dev : CmdDev) (hdr : CmdHdr) (rsp : Rsp) : CmdDone :=
  ⟨.ok (), { rsp with hdr := ⟨cmdNone, 0, hdr.cmdId⟩ }, dev⟩

/-- C `ntc_remote_buf_unmap` of the elements that were mapped before an error. -/
def unmapSgs (sgList : Nat → RemoteBuf) (pos i : Nat) : Nat → RemoteBuf :=
  fun k => if pos ≤ k ∧ k < pos + i then ⟨0, 0⟩ else sgList k

/-- The loop that maps the elements; an append checks that an element is not mapped yet. -/
def mapSgs (ntc : NtcDev) (check : Bool) (sgDescList : Nat → RemoteBufDesc) (pos : Nat) :
    Nat → Nat → (Nat → RemoteBuf) → Except Errno Unit × (Nat → RemoteBuf)
  | 0, _, sgList => (.ok (), sgList)
  | n + 1, i, sgList =>
    if check && (sgList (pos + i)).dmaAddr != 0 then (.error .einval, unmapSgs sgList pos i)
    else
      match ntcRemoteBufMap ntc (sgDescList i) with
      | .error e => (.error e, unmapSgs (Function.update sgList (pos + i) ⟨0, 0⟩) pos i)
      | .ok buf => mapSgs ntc check sgDescList pos n (i + 1) (Function.update sgList (pos + i) buf)

def rmrInit (pdKey access : UInt32) (addr len : UInt64) (sgCount : UInt32) : RmrObj :=
  ⟨pdKey, access, addr, len, sgCount, fun _ => ⟨0, 0⟩⟩

def mrCreate (env : RecvEnv) (dev : CmdDev) (cmd : CmdMrCreate) (caps : MrCaps := driverCaps) :
    Except Errno Unit × CmdDev :=
  match sanityMrCreate cmd caps with
  | .error e => (.error e, dev)
  | .ok () =>
    if !env.alloc then (.error .enomem, dev)
    else
      let rmr := rmrInit cmd.pdKey cmd.access cmd.mrAddr cmd.mrLen cmd.sgCap
      match mapSgs dev.ntc false cmd.sgDescList 0 cmd.sgCount.toNat 0 rmr.sgList with
      | (.error e, _) => (.error e, dev)
      | (.ok (), sgList) =>
        match env.vecSet with
        | .error e => (.error e, dev)
        | .ok () =>
          (.ok (),
          { dev with rmrs := Function.update dev.rmrs cmd.mrKey (some { rmr with sgList }) })

def cmdRecvMrCreate (env : RecvEnv) (dev : CmdDev) (hdr : CmdHdr) (cmd : CmdMrCreate) (rsp : Rsp) :
    CmdDone :=
  .reply (rsp.head hdr.cmdId cmdMrCreate cmd.mrKey) (mrCreate env dev cmd)

def mrDelete (dev : CmdDev) (cmd : CmdMrDelete) : Except Errno Unit × CmdDev :=
  match dev.rmrs cmd.mrKey with
  | none => (.error .einval, dev)
  | some _ => (.ok (), { dev with rmrs := Function.update dev.rmrs cmd.mrKey none })

def cmdRecvMrDelete (dev : CmdDev) (hdr : CmdHdr) (cmd : CmdMrDelete) (rsp : Rsp) : CmdDone :=
  .reply (rsp.head hdr.cmdId cmdMrDelete cmd.mrKey) (mrDelete dev cmd)

def mrAppend (dev : CmdDev) (cmd : CmdMrAppend) (caps : MrCaps := driverCaps) :
    Except Errno Unit × CmdDev :=
  match dev.rmrs cmd.mrKey with
  | none => (.error .einval, dev)
  | some rmr =>
    match sanityMrAppend cmd rmr.sgCount caps with
    | .error e => (.error e, dev)
    | .ok () =>
      let (rc, sgList) := mapSgs dev.ntc true cmd.sgDescList cmd.sgPos.toNat
        cmd.sgCount.toNat 0 rmr.sgList
      (rc, { dev with rmrs := Function.update dev.rmrs cmd.mrKey (some { rmr with sgList }) })

def cmdRecvMrAppend (dev : CmdDev) (hdr : CmdHdr) (cmd : CmdMrAppend) (rsp : Rsp) : CmdDone :=
  .reply (rsp.head hdr.cmdId cmdMrAppend cmd.mrKey) (mrAppend dev cmd)

def sendWqeSize (sgCap inlineCap : UInt32) : UInt64 :=
    48 + max (sgCap.toUInt64 * 16) inlineCap.toUInt64

def recvWqeSize (sgCap : UInt32) : UInt64 := 16 + sgCap.toUInt64 * 24

/-- C `ntrdma_rqp_init`: both rings start at the index the peer names, and hold nothing. -/
def rqpInit (cmd : CmdQpCreate) : RqpObj where
  rqp :=
    { Rqp.fresh cmd.sendWqeCap with
      state := .reset, sendCons := cmd.sendRingIdx, sendProd := cmd.sendRingIdx,
      recvCap := cmd.recvWqeCap, recvCons := cmd.recvRingIdx, recvProd := cmd.recvRingIdx,
      recvWqeSgCap := cmd.recvWqeSgCap }
  qpKey := ~~~0
  access := 0

def qpCreate (env : RecvEnv) (dev : CmdDev) (cmd : CmdQpCreate) : Except Errno (RqpBufs × CmdDev) :=
  match qpCreateSanity cmd with
  | .error e => .error e
  | .ok () =>
    if !env.alloc then .error .enomem
    else
      match ntcRemoteBufMap dev.ntc cmd.sendCqeBufDesc with
      | .error e => .error e
      | .ok _ =>
        match env.rqpBufs with
        | .error e => .error e
        | .ok bufs =>
          match env.vecSet with
          | .error e => .error e
          | .ok () => .ok (bufs, { dev with host := dev.host.setRqp cmd.qpKey (rqpInit cmd) })

def cmdRecvQpCreate (env : RecvEnv) (dev : CmdDev) (hdr : CmdHdr) (cmd : CmdQpCreate) (rsp : Rsp) :
    CmdDone :=
  let rsp := rsp.head hdr.cmdId cmdQpCreate cmd.qpKey
  match qpCreate env dev cmd with
  | .ok (bufs, dev) =>
    let rsp :=
      { rsp with
        recvWqeBufDesc := bufs.recvWqeBuf
        recvProdShift := cmd.recvWqeCap.toUInt64 * recvWqeSize cmd.recvWqeSgCap
        sendWqeBufDesc := bufs.sendWqeBuf
        sendProdShift := cmd.sendWqeCap.toUInt64 * sendWqeSize cmd.sendWqeSgCap cmd.sendWqeInlineCap
        sendVbellIdx := bufs.sendVbellIdx }
    ⟨.ok (), rsp.setStatus 0, dev⟩
  | .error e =>
    let rsp :=
      { rsp.setStatus (~~~0) with
        recvWqeBufDesc := ⟨0, 0⟩
        recvProdShift := 0
        sendWqeBufDesc := ⟨0, 0⟩
        sendProdShift := 0
        sendVbellIdx := 0 }
    ⟨.error e, rsp, dev⟩

def qpDelete (dev : CmdDev) (cmd : CmdQpDelete) : Except Errno Unit × CmdDev :=
  match dev.host.rqps cmd.qpKey with
  | none => (.error .einval, dev)
  | some robj =>
    let host :=
      match dev.host.qps robj.qpKey with
      | none => dev.host
      | some obj => dev.host.setQp robj.qpKey { obj with qp := qpSendStall obj.qp, rqpKey := ~~~0 }
    (.ok (), { dev with host := { host with rqps := Function.update host.rqps cmd.qpKey none } })

def cmdRecvQpDelete (dev : CmdDev) (hdr : CmdHdr) (cmd : CmdQpDelete) (rsp : Rsp) : CmdDone :=
  .reply (rsp.head hdr.cmdId cmdQpDelete cmd.qpKey) (qpDelete dev cmd)

def statusOf : Except Errno Unit → UInt32
  | .ok () => 0
  | .error e => e.status

/-- C `ntrdma_cmd_recv_qp_modify`. The check returns before the status is written. -/
def cmdRecvQpModify (dev : CmdDev) (hdr : CmdHdr) (cmd : CmdQpModify) (rsp : Rsp) : CmdDone :=
  let rsp := rsp.head hdr.cmdId cmdQpModify cmd.srcQpKey
  if cmd.access > maxSumAccessFlags then ⟨.error .einval, rsp, dev⟩
  else
    match qpStateOf cmd.state with
    | none => ⟨.error .einval, rsp, dev⟩
    | some newState =>
      let (rc, host) := rqpModifyLocal dev.host cmd.srcQpKey cmd.access newState cmd.destQpKey
      ⟨rc, rsp.setStatus (statusOf rc), { dev with host }⟩

/-- The status that the switch of `ntrdma_cmd_recv_cm` gives. -/
def cmStatus (env : RecvEnv) (cmd : CmdIwCm) : UInt32 :=
  if cmd.cmOp = 0 then env.cmConnectReq cmd
  else if cmd.cmOp = 1 then env.cmRep cmd
  else if cmd.cmOp = 2 then env.cmReject cmd
  else ~~~0

/-- C `ntrdma_cmd_recv_cm`, which returns zero whatever the status is. -/
def cmdRecvCm (env : RecvEnv) (dev : CmdDev) (hdr : CmdHdr) (cmd : CmdIwCm) (rsp : Rsp) : CmdDone :=
  let rsp := rsp.setStatus (cmStatus env cmd)
  ⟨.ok (), { rsp with hdr := { rsp.hdr with cmdId := hdr.cmdId } }, dev⟩

/-- C `ntrdma_cmd_recv`. A command that no handler takes leaves the slot as it is. -/
def cmdRecv (env : RecvEnv) (dev : CmdDev) (cmd : Cmd) (rsp : Rsp) : CmdDone :=
  if cmd.hdr.op = cmdNone then cmdRecvNone dev cmd.hdr rsp
  else if cmd.hdr.op = cmdMrCreate then cmdRecvMrCreate env dev cmd.hdr cmd.mrCreate rsp
  else if cmd.hdr.op = cmdMrDelete then cmdRecvMrDelete dev cmd.hdr cmd.mrDelete rsp
  else if cmd.hdr.op = cmdMrAppend then cmdRecvMrAppend dev cmd.hdr cmd.mrAppend rsp
  else if cmd.hdr.op = cmdQpCreate then cmdRecvQpCreate env dev cmd.hdr cmd.qpCreate rsp
  else if cmd.hdr.op = cmdQpDelete then cmdRecvQpDelete dev cmd.hdr cmd.qpDelete rsp
  else if cmd.hdr.op = cmdQpModify then cmdRecvQpModify dev cmd.hdr cmd.qpModify rsp
  else if cmd.hdr.op = cmdIwCm then cmdRecvCm env dev cmd.hdr cmd.iwCm rsp
  else ⟨.error .einval, rsp, dev⟩

/-! ## What is sent back -/

def CmdFailed (env : RecvEnv) (cmd : Cmd) (done : CmdDone) : Prop :=
  done.rc ≠ .ok () ∨ cmd.hdr.op = cmdIwCm ∧ cmStatus env cmd.iwCm ≠ 0

/-- The id and the status of the response are the same whatever the slot held. -/
def Answers (cmdId : UInt32) (recv : Rsp → CmdDone) : Prop :=
  ∃ status, ∀ slot, (recv slot).rsp.hdr.cmdId = cmdId ∧ (recv slot).rsp.hdr.status = status ∧
    ((recv slot).rc ≠ .ok () → status ≠ 0)

lemma statusOf_ne_zero {rc : Except Errno Unit} (h : rc ≠ .ok ()) : statusOf rc ≠ 0 := by
  cases rc with
  | ok => exact absurd rfl h
  | error e => exact e.status_ne_zero

section
variable (env : RecvEnv) (dev : CmdDev) (hdr : CmdHdr)

lemma CmdDone.reply_answers (op key : UInt32) (res : Except Errno Unit × CmdDev) :
    Answers hdr.cmdId fun slot => .reply (slot.head hdr.cmdId op key) res := by
  obtain ⟨rc, dev⟩ := res
  cases rc with
  | ok => exact ⟨0, fun slot => ⟨rfl, rfl, fun h => absurd rfl h⟩⟩
  | error => exact ⟨~~~0, fun slot => ⟨rfl, rfl, fun _ => by decide⟩⟩

lemma cmdRecvNone_answers : Answers hdr.cmdId (cmdRecvNone dev hdr) :=
  ⟨0, fun _ => ⟨rfl, rfl, fun h => absurd rfl h⟩⟩

lemma cmdRecvQpCreate_answers (cmd : CmdQpCreate) :
    Answers hdr.cmdId (cmdRecvQpCreate env dev hdr cmd) := by
  unfold cmdRecvQpCreate
  cases qpCreate env dev cmd with
  | ok => exact ⟨0, fun slot => ⟨rfl, rfl, fun h => absurd rfl h⟩⟩
  | error => exact ⟨~~~0, fun slot => ⟨rfl, rfl, fun _ => by decide⟩⟩

lemma cmdRecvCm_answers (cmd : CmdIwCm) : Answers hdr.cmdId (cmdRecvCm env dev hdr cmd) :=
  ⟨cmStatus env cmd, fun _ => ⟨rfl, rfl, fun h => absurd rfl h⟩⟩

lemma cmdRecvQpModify_answers_iff (cmd : CmdQpModify) :
    Answers hdr.cmdId (cmdRecvQpModify dev hdr cmd) ↔
      cmd.access ≤ maxSumAccessFlags ∧ (qpStateOf cmd.state).isSome := by
  -- a slot with status zero shows that a rejected command is answered with success
  have hstale : ∀ slot : Rsp, cmdRecvQpModify dev hdr cmd slot =
      ⟨.error .einval, slot.head hdr.cmdId cmdQpModify cmd.srcQpKey, dev⟩ →
      slot.hdr.status = 0 → ¬ Answers hdr.cmdId (cmdRecvQpModify dev hdr cmd) := by
    rintro slot hrecv hzero ⟨status, hall⟩
    obtain ⟨-, hstatus, hfailed⟩ := hall slot
    rw [hrecv] at hstatus hfailed
    exact hfailed nofun (hstatus.symm.trans hzero)
  let success : Rsp := ⟨⟨0, 0, 0⟩, 0, 0, ⟨0, 0⟩, 0, ⟨0, 0⟩, 0⟩
  by_cases haccess : cmd.access > maxSumAccessFlags
  · refine iff_of_false (hstale success ?_ rfl) fun h => absurd h.1 (UInt32.not_le.mpr haccess)
    simp only [cmdRecvQpModify, if_pos haccess]
  · cases hstate : qpStateOf cmd.state with
    | none =>
      refine iff_of_false (hstale success ?_ rfl) fun h => absurd h.2 Bool.false_ne_true
      simp only [cmdRecvQpModify, if_neg haccess, hstate]
    | some newState =>
      refine iff_of_true ?_ ⟨UInt32.not_lt.mp haccess, rfl⟩
      refine ⟨statusOf (rqpModifyLocal dev.host cmd.srcQpKey cmd.access newState cmd.destQpKey).1,
        fun slot => ?_⟩
      simp only [cmdRecvQpModify, if_neg haccess, hstate]
      exact ⟨rfl, rfl, statusOf_ne_zero⟩

lemma not_answers_unhandled (cmdId : UInt32) : ¬ Answers cmdId fun slot =>
    ⟨.error .einval, slot, dev⟩ := by
  rintro ⟨status, hall⟩
  have hid := (hall ⟨⟨0, 0, cmdId + 1⟩, 0, 0, ⟨0, 0⟩, 0, ⟨0, 0⟩, 0⟩).1
  rw [← UInt32.toNat_inj, UInt32.toNat_add] at hid
  have hlt := cmdId.toNat_lt
  have hone : (1 : UInt32).toNat = 1 := rfl
  omega

end

/-- A handler takes the command, and the access flags and state of a modification pass the check. -/
def Cmd.Handled (cmd : Cmd) : Prop :=
  cmd.hdr.op ∈ [cmdNone, cmdMrCreate, cmdMrDelete, cmdMrAppend,
    cmdQpCreate, cmdQpDelete, cmdQpModify,
    cmdIwCm] ∧
  (cmd.hdr.op = cmdQpModify →
    cmd.qpModify.access ≤ maxSumAccessFlags ∧ (qpStateOf cmd.qpModify.state).isSome)

section
variable (env : RecvEnv) (dev : CmdDev) (cmd : Cmd)

lemma cmdRecv_eq : cmdRecv env dev cmd =
    if cmd.hdr.op = cmdNone then cmdRecvNone dev cmd.hdr
    else if cmd.hdr.op = cmdMrCreate then cmdRecvMrCreate env dev cmd.hdr cmd.mrCreate
    else if cmd.hdr.op = cmdMrDelete then cmdRecvMrDelete dev cmd.hdr cmd.mrDelete
    else if cmd.hdr.op = cmdMrAppend then cmdRecvMrAppend dev cmd.hdr cmd.mrAppend
    else if cmd.hdr.op = cmdQpCreate then cmdRecvQpCreate env dev cmd.hdr cmd.qpCreate
    else if cmd.hdr.op = cmdQpDelete then cmdRecvQpDelete dev cmd.hdr cmd.qpDelete
    else if cmd.hdr.op = cmdQpModify then cmdRecvQpModify dev cmd.hdr cmd.qpModify
    else if cmd.hdr.op = cmdIwCm then cmdRecvCm env dev cmd.hdr cmd.iwCm
    else fun rsp => ⟨.error .einval, rsp, dev⟩ := by
  funext rsp
  simp only [ite_apply]
  rfl

lemma cmdRecv_answers_iff : Answers cmd.hdr.cmdId (cmdRecv env dev cmd) ↔ cmd.Handled := by
  -- an op whose handler answers every command
  have hop : ∀ {op : UInt32} {f g : Rsp → CmdDone},
      op ∈ [cmdNone, cmdMrCreate, cmdMrDelete, cmdMrAppend, cmdQpCreate, cmdQpDelete, cmdIwCm] →
      Answers cmd.hdr.cmdId f → (cmd.hdr.op ≠ op → (Answers cmd.hdr.cmdId g ↔ cmd.Handled)) →
      (Answers cmd.hdr.cmdId (if cmd.hdr.op = op then f else g) ↔ cmd.Handled) := by
    intro op f g hmem hf hg
    by_cases hop : cmd.hdr.op = op
    · rw [if_pos hop]
      refine iff_of_true hf ⟨?_, fun hmodify => ?_⟩
      · rw [hop]
        simp only [List.mem_cons, List.not_mem_nil, or_false] at hmem
        rcases hmem with rfl | rfl | rfl | rfl | rfl | rfl | rfl <;> decide
      · rw [hop] at hmodify
        subst hmodify
        exact absurd hmem (by decide)
    · rw [if_neg hop]
      exact hg hop
  rw [cmdRecv_eq]
  refine hop (by decide) (cmdRecvNone_answers dev cmd.hdr) fun hnone => ?_
  refine hop (by decide) (CmdDone.reply_answers ..) fun hcreate => ?_
  refine hop (by decide) (CmdDone.reply_answers ..) fun hdelete => ?_
  refine hop (by decide) (CmdDone.reply_answers ..) fun happend => ?_
  refine hop (by decide) (cmdRecvQpCreate_answers ..) fun hqcreate => ?_
  refine hop (by decide) (CmdDone.reply_answers ..) fun hqdelete => ?_
  by_cases hmodify : cmd.hdr.op = cmdQpModify
  · rw [if_pos hmodify, cmdRecvQpModify_answers_iff]
    exact ⟨fun h => ⟨by rw [hmodify]; decide, fun _ => h⟩, fun h => h.2 hmodify⟩
  rw [if_neg hmodify]
  refine hop (by decide) (cmdRecvCm_answers ..) fun hcm => ?_
  refine iff_of_false (not_answers_unhandled dev _) fun h => ?_
  simp [Cmd.Handled, hnone, hcreate, hdelete, happend, hqcreate, hqdelete, hmodify, hcm] at h

/-- The response has the id of the command, and a status other than zero if the command failed. -/
structure Answered : Prop where
  cmdId : ∀ slot, (cmdRecv env dev cmd slot).rsp.hdr.cmdId = cmd.hdr.cmdId
  status : ∀ slot, CmdFailed env cmd (cmdRecv env dev cmd slot) →
    (cmdRecv env dev cmd slot).rsp.hdr.status ≠ 0
  fresh : ∀ slot slot', (cmdRecv env dev cmd slot).rsp.hdr.status =
    (cmdRecv env dev cmd slot').rsp.hdr.status

lemma cmdRecv_cm (hcm : cmd.hdr.op = cmdIwCm) (slot : Rsp) :
    (cmdRecv env dev cmd slot).rsp.hdr.status = cmStatus env cmd.iwCm := by
  rw [cmdRecv_eq, hcm]
  rfl

lemma answered_iff_answers : Answered env dev cmd ↔
    Answers cmd.hdr.cmdId (cmdRecv env dev cmd) := by
  constructor
  · intro h
    let slot : Rsp := ⟨⟨0, 0, 0⟩, 0, 0, ⟨0, 0⟩, 0, ⟨0, 0⟩, 0⟩
    refine ⟨(cmdRecv env dev cmd slot).rsp.hdr.status, fun slot' =>
      ⟨h.cmdId slot', h.fresh slot' slot, ?_⟩⟩
    intro hfailed
    rw [h.fresh slot slot']
    exact h.status slot' (.inl hfailed)
  · rintro ⟨status, hall⟩
    refine ⟨fun slot => (hall slot).1, fun slot hfailed => ?_,
      fun slot slot' => (hall slot).2.1.trans (hall slot').2.1.symm⟩
    rcases hfailed with hfailed | ⟨hcm, hstatus⟩
    · rw [(hall slot).2.1]
      exact (hall slot).2.2 hfailed
    · rwa [cmdRecv_cm env dev cmd hcm]

/-- A response leaks nothing of the slot exactly if a handler takes the command and the fields of a
modification pass the check. -/
theorem cmdRecv_answered_iff : Answered env dev cmd ↔ cmd.Handled :=
  (answered_iff_answers env dev cmd).trans (cmdRecv_answers_iff env dev cmd)

end

def idleDev : CmdDev := ⟨⟨fun _ => none, fun _ => none⟩, fun _ => none,
    ⟨fun _ => ⟨0, 0, 0, 0⟩, fun _ _ => none⟩⟩

def easyEnv : RecvEnv := ⟨true, .ok ⟨⟨0, 0⟩, ⟨0, 0⟩, 8⟩, .ok (), fun _ => 0, fun _ => 0, fun _ => 0⟩

def modifyCmd (hdr : CmdHdr) (qpModify : CmdQpModify) : Cmd := { emptyCmd with hdr, qpModify }

def successSlot : Rsp := ⟨⟨cmdMrCreate, 0, 3⟩, 0, 0, ⟨0, 0⟩, 0, ⟨0, 0⟩, 0⟩

/-- A modification with unknown access flags is answered with the success of an earlier command, an
unknown op with its id too. -/
theorem cmdRecv_leaks :
    (cmdRecv easyEnv idleDev (modifyCmd ⟨cmdQpModify, 4, 0⟩ ⟨0, 0x81, 3, 0⟩) successSlot).rc =
      .error .einval ∧
    (cmdRecv easyEnv idleDev (modifyCmd ⟨cmdQpModify, 4, 0⟩ ⟨0, 0x81, 3, 0⟩) successSlot).rsp.hdr =
      ⟨cmdQpModify, 0, 4⟩ ∧
    (cmdRecv easyEnv idleDev (modifyCmd ⟨5, 4, 0⟩ ⟨0, 0, 0, 0⟩) successSlot).rc = .error .einval ∧
    (cmdRecv easyEnv idleDev (modifyCmd ⟨5, 4, 0⟩ ⟨0, 0, 0, 0⟩) successSlot).rsp.hdr =
      successSlot.hdr := by
  refine ⟨rfl, rfl, rfl, rfl⟩

end Ntrdma
