import Ntrdma.Wr.Basic

/-!
# Commands and responses

Model of `ntrdma_cmd.h`: the commands one host sends to its peer, the responses it gets back, and
the limits both sides go by.

`union ntrdma_cmd` is a structure that holds every view of the union, each read only by the handler
of its op. The members of `union ntrdma_rsp` start with the same fields, so a response is the
longest of them: `key` is `mr_key` or `qp_key`. The fields of a connection management command that
only its own handlers read are left out.
-/

namespace Ntrdma

/-- The op codes of the commands (C `NTRDMA_CMD_NONE`, …). -/
def cmdNone : UInt32 := 0
def cmdMrCreate : UInt32 := 0x08
def cmdMrDelete : UInt32 := 0x09
def cmdMrAppend : UInt32 := 0x0a
def cmdQpCreate : UInt32 := 0x0c
def cmdQpDelete : UInt32 := 0x0d
def cmdQpModify : UInt32 := 0x0e
def cmdIwCm : UInt32 := 0x0f

def maxSumAccessFlags : UInt32 := 0x80

def ibMrLimitBytes : UInt64 := 0x800000000

/-- C `IB_MR_LIMIT_BYTES >> PAGE_SHIFT`. -/
def ibMrLimitPages : UInt32 := 0x800000

def intelAlign : UInt64 := 16

def devVbellCount : UInt32 := 0x400

def cmdSize : UInt32 := 0x100

def sizeofCmdMrCreate : UInt32 := 56

def sizeofCmdMrAppend : UInt32 := 32

def sizeofRemoteBufDesc : UInt32 := 16

def cmdMrCreateSgCap : UInt32 := (cmdSize - sizeofCmdMrCreate) / sizeofRemoteBufDesc

def cmdMrAppendSgCap : UInt32 := (cmdSize - sizeofCmdMrAppend) / sizeofRemoteBufDesc

/-- How many descriptors fit into an `MR_CREATE` and into an `MR_APPEND`: at least one. -/
structure MrCaps where
  create : UInt32
  append : UInt32
  create_pos : 0 < create
  append_pos : 0 < append

/-- The capacities of the driver, which its functions have by default. -/
def driverCaps : MrCaps := ⟨cmdMrCreateSgCap, cmdMrAppendSgCap, by decide, by decide⟩

/-! ## Commands -/

structure CmdHdr where
  op : UInt32
  cmdId : UInt32
  cbP : UInt64

structure CmdMrCreate where
  mrKey : UInt32
  pdKey : UInt32
  access : UInt32
  mrAddr : UInt64
  mrLen : UInt64
  sgCap : UInt32
  sgCount : UInt32
  sgDescList : Nat → RemoteBufDesc

structure CmdMrDelete where
  mrKey : UInt32

structure CmdMrAppend where
  mrKey : UInt32
  sgPos : UInt32
  sgCount : UInt32
  sgDescList : Nat → RemoteBufDesc

structure CmdQpCreate where
  qpKey : UInt32
  pdKey : UInt32
  qpType : UInt32
  recvWqeCap : UInt32
  recvWqeSgCap : UInt32
  recvRingIdx : UInt32
  sendWqeCap : UInt32
  sendWqeSgCap : UInt32
  sendWqeInlineCap : UInt32
  sendRingIdx : UInt32
  sendCqeBufDesc : RemoteBufDesc
  sendConsShift : UInt64
  cmplVbellIdx : UInt32

structure CmdQpDelete where
  qpKey : UInt32

structure CmdQpModify where
  srcQpKey : UInt32
  access : UInt32
  state : UInt32
  destQpKey : UInt32

/-- C `struct ntrdma_iw_cm_cmd`, the fields that tell the handler and the queue pairs. -/
structure CmdIwCm where
  cmOp : UInt32
  qpNum : UInt32
  rqpNum : UInt32

structure Cmd where
  hdr : CmdHdr
  mrCreate : CmdMrCreate
  mrDelete : CmdMrDelete
  mrAppend : CmdMrAppend
  qpCreate : CmdQpCreate
  qpDelete : CmdQpDelete
  qpModify : CmdQpModify
  iwCm : CmdIwCm

def emptyCmd : Cmd :=
  ⟨⟨0, 0, 0⟩, ⟨0, 0, 0, 0, 0, 0, 0, fun _ => ⟨0, 0⟩⟩, ⟨0⟩, ⟨0, 0, 0, fun _ => ⟨0, 0⟩⟩,
    ⟨0, 0, 0, 0, 0, 0, 0, 0, 0, 0, ⟨0, 0⟩, 0, 0⟩, ⟨0⟩, ⟨0, 0, 0, 0⟩, ⟨0, 0, 0⟩⟩

/-! ## Responses -/

structure RspHdr where
  op : UInt32
  status : UInt32
  cmdId : UInt32

structure Rsp where
  hdr : RspHdr
  key : UInt32
  sendVbellIdx : UInt32
  recvWqeBufDesc : RemoteBufDesc
  recvProdShift : UInt64
  sendWqeBufDesc : RemoteBufDesc
  sendProdShift : UInt64

def Rsp.head (rsp : Rsp) (cmdId op key : UInt32) : Rsp :=
  { rsp with hdr := { rsp.hdr with cmdId, op }, key }

def Rsp.setStatus (rsp : Rsp) (status : UInt32) : Rsp := { rsp with hdr := { rsp.hdr with status } }

/-! ## The checks of the peer -/

def sanityMrCreate (cmd : CmdMrCreate) (caps : MrCaps := driverCaps) : Except Errno Unit :=
  if cmd.sgCap > ibMrLimitPages || cmd.sgCount > caps.create || cmd.sgCount > cmd.sgCap then
    .error .einval
  else if cmd.mrLen > ibMrLimitBytes then .error .einval
  else if cmd.mrAddr % intelAlign != 0 then .error .einval
  else if cmd.access > maxSumAccessFlags then .error .einval
  else .ok ()

/-- C `ntrdma_sanity_mr_append`, for a region with room for `rmrSgCount` elements. -/
def sanityMrAppend (cmd : CmdMrAppend) (rmrSgCount : UInt32) (caps : MrCaps := driverCaps) :
    Except Errno Unit :=
  if cmd.sgPos > ibMrLimitPages || cmd.sgCount > caps.append ||
      cmd.sgPos + cmd.sgCount < cmd.sgPos || cmd.sgPos +
        cmd.sgCount > rmrSgCount then .error .einval
  else .ok ()

def maxWqeSgCap : UInt32 := 128

def maxWqeCap : UInt32 := 4096

def qpNumTypes : UInt32 := 3

def qpCreateSanity (cmd : CmdQpCreate) : Except Errno Unit :=
  if cmd.qpType > qpNumTypes then .error .einval
  else if cmd.sendWqeCap > maxWqeCap || cmd.sendWqeSgCap > maxWqeSgCap ||
      cmd.sendRingIdx ≥ 2 * cmd.sendWqeCap then .error .einval
  else if cmd.recvWqeCap > maxWqeCap || cmd.recvWqeSgCap > maxWqeSgCap ||
      cmd.recvRingIdx ≥ 2 * cmd.recvWqeCap then .error .einval
  else if cmd.cmplVbellIdx > devVbellCount then .error .einval
  else .ok ()

/-- C `is_state_valid`, with the state it stands for. -/
def qpStateOf (state : UInt32) : Option QpState :=
  if state = 0 then some .reset
  else if state = 1 then some .init
  else if state = 2 then some .rtr
  else if state = 3 then some .rts
  else if state = 4 then some .sqd
  else if state = 5 then some .sqe
  else if state = 6 then some .err
  else none

end Ntrdma
