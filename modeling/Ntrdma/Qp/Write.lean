import Ntrdma.Qp.Basic
import Ntrdma.Zip.Exact
import Ntrdma.Zip.Imm

/-!
# Building a send entry and executing an RDMA write

Model of the functions that turn a work request into a send entry (`ntrdma_ib_send_to_wqe`,
`ntrdma_ib_send_to_inline_wqe`, `ntrdma_ib_send_to_wqe_sgl`) and of the one that executes the RDMA
write an entry describes (`ntrdma_qp_rdma_write`), and what the two together write.

A function that fills an entry returns the entry also when it fails, as the source fills the slot in
place. User memory gives `none` for an address that cannot be read.
-/

namespace Ntrdma
open Lib

/-- A work request (C `struct ib_send_wr` and `struct ib_rdma_wr`); `num_sge` is the length of the
list. -/
structure SendWr where
  wrId : UInt64
  opcode : UInt32
  sendFlags : UInt32
  immData : UInt32
  remoteAddr : UInt64
  rkey : UInt32
  sgList : List IbSge
  deriving DecidableEq, Repr

def sendOpcodeIsRdma (opcode : UInt32) : Bool :=
  opcode == wrRdmaWriteWithImm.toUInt32 || opcode == wrRdmaWrite.toUInt32 ||
    opcode == wrRdmaRead.toUInt32

/-- The loop of `ntrdma_ib_send_to_wqe` that adds up the inline data. -/
def ibInlineLen (availableSize : UInt64) : UInt64 → List IbSge → Except Errno UInt64
  | tailSize, [] => .ok tailSize
  | tailSize, sge :: rest =>
    let entrySize := sge.length.toUInt64
    if entrySize = 0 then ibInlineLen availableSize tailSize rest
    else if tailSize + entrySize < tailSize then .error .enomem
    else if availableSize < tailSize + entrySize then .error .enomem
    else ibInlineLen availableSize (tailSize + entrySize) rest

/-- The fields `ntrdma_ib_send_to_wqe` sets before its checks. -/
def SendWr.hdr (wr : SendWr) : SendWqe where
  ulpHandle := wr.wrId
  opCode := wr.opcode.toUInt16
  opStatus := 0
  recvKey := 0xFFFFFFFF
  rdmaSge :=
    { addr := if sendOpcodeIsRdma wr.opcode then wr.remoteAddr else 0
      length := 0
      lkey := if sendOpcodeIsRdma wr.opcode then wr.rkey else 0 }
  immData := wr.immData
  flags := wr.sendFlags
  count := 0
  tail := []

def ibSendToWqe (qp : Qp) (wr : SendWr) : Except Errno Unit × SendWqe :=
  let wqe := wr.hdr
  if sendOpcodeIsRdma wr.opcode && ibSgeReserved wqe.rdmaSge then (.error .einval, wqe)
  else if wqe.isInline then
    match ibInlineLen qp.sendWqeInlineCap.toUInt64 0 wr.sgList with
    | .error e => (.error e, wqe)
    | .ok tailSize => (.ok (), { wqe with count := tailSize.toUInt32 })
  else (.ok (), { wqe with count := .ofNat wr.sgList.length })

def copyFromUser (umem : UInt64 → Option UInt8) (addr : UInt64) (size : Nat) :
    Option (List UInt8) :=
  (span addr size).mapM umem

/-- The loop of `ntrdma_ib_send_to_inline_wqe`; `data` are the bytes copied so far. -/
def ibInlineCopy (umem : UInt64 → Option UInt8) (availableSize : Nat) :
    List UInt8 → List IbSge → Except Errno Unit × List UInt8
  | data, [] => (.ok (), data)
  | data, sge :: rest =>
    if data.length < availableSize then
      if sge.length = 0 then ibInlineCopy umem availableSize data rest
      else
        match copyFromUser umem sge.addr sge.length.toNat with
        | none => (.error .efault, data)
        | some bs => ibInlineCopy umem availableSize (data ++ bs) rest
    else (.ok (), data)

def ibSendToInlineWqe (umem : UInt64 → Option UInt8) (wqe : SendWqe) (sgList : List IbSge) :
    Except Errno Unit × SendWqe :=
  let (rc, data) := ibInlineCopy umem wqe.count.toNat [] sgList
  (rc, { wqe with tail := data })

def ibSendToWqeSgl : SendWqe → List IbSge → Except Errno Unit × SendWqe
  | wqe, [] => (.ok (), wqe)
  | wqe, sge :: rest =>
    let wqe := { wqe with tail := wqe.tail ++ sge.encode }
    if ibSgeReserved sge then (.error .einval, wqe) else ibSendToWqeSgl wqe rest

/-- The first part of `ntrdma_post_send_wqe`, which fills the tail of the entry. -/
def postSendFill (umem : UInt64 → Option UInt8) (wqe : SendWqe) (sgList : List IbSge) :
    Except Errno Unit × SendWqe :=
  if wqe.isInline then ibSendToInlineWqe umem wqe sgList else ibSendToWqeSgl wqe sgList

/-- The entry `ntrdma_post_send_locked` builds for a request, after its checks of the request. -/
def postSendBuild (qp : Qp) (umem : UInt64 → Option UInt8) (wr : SendWr) :
    Except Errno Unit × SendWqe :=
  match ibSendToWqe qp wr with
  | (.error e, wqe) => (.error e, wqe)
  | (.ok _, wqe) => postSendFill umem wqe wr.sgList

/-- The checks `ntrdma_post_send_locked` makes before it touches the slot. -/
def postSendCheck (qp : Qp) (wr : SendWr) : Bool :=
  wr.sgList.length ≤ qp.sendWqeSgCap.toNat && wr.opcode ≤ wrRdmaRead.toUInt32

/-- C `ntrdma_send_is_non_signaled_write`: the write is executed while it is posted. -/
def sendIsNonSignaledWrite (wqe : SendWqe) : Bool :=
  wqe.opCode == wrRdmaWrite && !isSignaled wqe.flags

def qpRdmaWrite (dev : Dev) (chan : Chan) (wqe : SendWqe) : Except Errno Unit × SendWqe × Chan :=
  let dmaWait := if isSignaled wqe.flags then .wait else .dontWait
  if ibSgeReserved wqe.rdmaSge then (.error .einval, wqe, chan)
  else
    let rdmaSge := RcvSge.direct { wqe.rdmaSge with length := 0xFFFFFFFF }
    let (rc, chan) :=
      if isInlineFlag wqe.flags then
        let (rc, chan) := zipRdmaImm dev chan [rdmaSge] (wqe.tail.take wqe.count.toNat) 0
        (rc.map fun _ => wqe.count, chan)
      else zipRdma dev chan [rdmaSge] wqe.sndSgList 0 dmaWait
    match rc with
    | .error e => (.error e, wqe, chan)
    | .ok rdmaLen => (.ok (), { wqe with rdmaSge := { wqe.rdmaSge with length := rdmaLen } }, chan)

/-- C `ntrdma_post_send_wqe`: the result says if the entry was sent. -/
def postSendWqe (dev : Dev) (umem : UInt64 → Option UInt8) (chan : Chan) (wqe : SendWqe)
    (sgList : List IbSge) : Except Errno Bool × SendWqe × Chan :=
  match postSendFill umem wqe sgList with
  | (.error e, wqe) => (.error e, wqe, chan)
  | (.ok _, wqe) =>
    if isSignaled wqe.flags || wqe.opCode != wrRdmaWrite then (.ok false, wqe, chan)
    else
      match qpRdmaWrite dev chan wqe with
      | (.error e, wqe, chan) => (.error e, wqe, chan)
      | (.ok _, wqe, chan) => (.ok true, wqe, chan)

end Ntrdma
