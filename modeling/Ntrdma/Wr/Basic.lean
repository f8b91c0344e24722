import Ntrdma.Lib.LittleEndian
import Ntrdma.Lib.Lockstep
import Ntrdma.Ntc.Dma

/-!
# Work queue and completion queue entries

Model of `ntrdma_wr.h`, `ntrdma_sg.h` and of the send entry of `ntrdma_ioctl.h`: the entries that
are stored in the rings, and the predicates on their operation codes, flags and states. Operation
codes and status codes are kept as the `u16` values that travel between the peers.

A send entry is a fixed header followed by a tail that holds either a list of `struct ib_sge` or
inline data; the tail is modelled as its bytes, since the two uses share it. `sg_count` and
`inline_len` are one field of a union and so one field here (`count`).
-/

namespace Ntrdma
open Lib

structure IbSge where
  addr : UInt64
  length : UInt32
  lkey : UInt32
  deriving DecidableEq, Repr

def reservedDmaLkey : UInt32 := 0xFFFF

def ibSgeReserved (sge : IbSge) : Bool := sge.lkey == reservedDmaLkey

def sizeofIbSge : Nat := 16

def IbSge.encode (sge : IbSge) : List UInt8 :=
  leBytes 8 sge.addr.toNat ++ leBytes 4 sge.length.toNat ++ leBytes 4 sge.lkey.toNat

def IbSge.decode (l : List UInt8) : IbSge where
  addr := .ofNat (leNat (l.take 8))
  length := .ofNat (leNat ((l.drop 8).take 4))
  lkey := .ofNat (leNat ((l.drop 12).take 4))

@[simp] lemma IbSge.length_encode (sge : IbSge) : sge.encode.length = 16 := by simp [encode]

lemma IbSge.decode_encode (sge : IbSge) (rest : List UInt8) :
    decode (sge.encode ++ rest) = sge := by
  have haddr := sge.addr.toNat_lt
  have hlength := sge.length.toNat_lt
  have hlkey := sge.lkey.toNat_lt
  have h1 : (sge.encode ++ rest).take 8 = leBytes 8 sge.addr.toNat := by
    simp only [encode, List.append_assoc]
    exact List.take_left' (length_leBytes _ _)
  have h2 : ((sge.encode ++ rest).drop 8).take 4 = leBytes 4 sge.length.toNat := by
    simp only [encode, List.append_assoc]
    rw [List.drop_left' (length_leBytes _ _)]
    exact List.take_left' (length_leBytes _ _)
  have h3 : ((sge.encode ++ rest).drop 12).take 4 = leBytes 4 sge.lkey.toNat := by
    simp only [encode, List.append_assoc]
    rw [← List.append_assoc, List.drop_left' (by simp)]
    exact List.take_left' (length_leBytes _ _)
  simp only [decode, h1, h2, h3]
  rw [leNat_leBytes _ _ (by omega), leNat_leBytes _ _ (by omega), leNat_leBytes _ _ (by omega)]
  simp

/-! ## Operation codes, status codes, flags and states -/

/-- C `IB_WR_RDMA_WRITE` .. `IB_WR_RDMA_READ`, with the codes of `ntrdma_wr.h`. -/
def wrRdmaWrite : UInt16 := 0
def wrRdmaWriteWithImm : UInt16 := 1
def wrSend : UInt16 := 2
def wrSendWithImm : UInt16 := 3
def wrRdmaRead : UInt16 := 4
def wrRecv : UInt16 := 5
def wrRecvInv : UInt16 := 6
def wrRecvImm : UInt16 := 7
def wrRecvRdma : UInt16 := 8
def wrSendInv : UInt16 := 9

/-- C `NTRDMA_WC_SUCCESS` and the error codes the data path sets. -/
def wcSuccess : UInt16 := 0
def wcErrAborted : UInt16 := 1
def wcErrCorrupt : UInt16 := 2
def wcErrOpcode : UInt16 := 3
def wcErrRecvNotReady : UInt16 := 4
def wcErrRecvMissing : UInt16 := 5
def wcErrRecvOverflow : UInt16 := 6
def wcErrRdmaKey : UInt16 := 7
def wcErrRdmaRange : UInt16 := 8
def wcErrRdmaAccess : UInt16 := 9
def wcErrLocPort : UInt16 := 10

def sendSignaled : UInt32 := 0x2
def sendInline : UInt32 := 0x8

def isSignaled (flags : UInt32) : Bool := flags &&& sendSignaled != 0

def isInlineFlag (flags : UInt32) : Bool := flags &&& sendInline != 0

def wrStatusNoRecv (opStatus : UInt16) : Bool :=
  opStatus == wcErrRecvNotReady || opStatus == wcErrRecvMissing

def wrCodeIsSend (opCode : UInt16) : Bool :=
  opCode == wrSend || opCode == wrSendInv || opCode == wrSendWithImm || opCode == wrRdmaWriteWithImm

def wrCodeIsRdma (opCode : UInt16) : Bool :=
  opCode == wrRdmaWriteWithImm || opCode == wrRdmaWrite || opCode == wrRdmaRead

def wrCodePushData (opCode : UInt16) : Bool :=
  opCode == wrSend || opCode == wrSendInv || opCode == wrSendWithImm ||
    opCode == wrRdmaWriteWithImm || opCode == wrRdmaWrite

def wrCodePullData (opCode : UInt16) : Bool := opCode == wrRdmaRead

/-- The states of a queue pair (C `enum ib_qp_state`, in its order). -/
inductive QpState where
  | reset
  | init
  | rtr
  | rts
  | sqd
  | sqe
  | err
  deriving DecidableEq, Repr

def isStateSendReady (state : QpState) : Bool := state == .rtr || state == .rts

def isStateRecvReady (state : QpState) : Bool := state == .rtr || state == .rts || state == .sqe

def isStateError (state : QpState) : Bool := state == .err || state == .sqe

def isStateOutOfReset (state : QpState) : Bool := !isStateError state && state != .reset

/-! ## Entries -/

/-- An entry of a send ring (C `struct ntrdma_send_wqe` and what follows it in its slot). -/
structure SendWqe where
  ulpHandle : UInt64
  opCode : UInt16
  opStatus : UInt16
  recvKey : UInt32
  rdmaSge : IbSge
  immData : UInt32
  flags : UInt32
  count : UInt32
  tail : List UInt8
  deriving DecidableEq, Repr

def sizeofSendWqe : Nat := 48

def SendWqe.isInline (wqe : SendWqe) : Bool :=
  wqe.opCode == wrRdmaWrite && isInlineFlag wqe.flags

def SendWqe.sndSge (wqe : SendWqe) (index : Nat) : IbSge :=
  .decode (wqe.tail.drop (sizeofIbSge * index))

/-- The list that `const_snd_sg_list(0, wqe)` and `wqe->sg_count` denote. -/
def SendWqe.sndSgList (wqe : SendWqe) : List IbSge := (List.range wqe.count.toNat).map wqe.sndSge

/-- A buffer allocated for the peer to write to (C `struct ntc_export_buf`). -/
structure ExportBuf where
  size : UInt64
  dmaAddr : UInt64
  deriving DecidableEq, Repr

/-- Where a shadow buffer is copied to: an address in a memory region, or a DMA buffer for the
reserved key. -/
inductive ShadowTarget where
  | mr (localKey : UInt32) (localAddr : UInt64)
  | dma (rcvDmaBuf : LocalBuf)
  deriving DecidableEq, Repr

structure Shadow where
  target : ShadowTarget
  expBuf : ExportBuf
  deriving DecidableEq, Repr

/-- An entry of a receive list (C `struct ntrdma_wr_rcv_sge`): it names a region, or holds the
descriptor of a shadow buffer. -/
inductive RcvSge where
  | direct (sge : IbSge)
  | shadow (shadow : Shadow) (expBufDesc : RemoteBufDesc)
  deriving DecidableEq, Repr

def RcvSge.len : RcvSge → UInt64
  | direct sge => sge.length.toUInt64
  | shadow _ desc => desc.size

def RcvSge.remoteKey : RcvSge → UInt32
  | direct sge => sge.lkey
  | shadow _ _ => reservedDmaLkey

def RcvSge.sgeAddr : RcvSge → UInt64
  | direct sge => sge.addr
  | shadow _ desc => desc.chanAddr

/-- C `exp_buf_desc` of the union in `struct ntrdma_wr_rcv_sge`; the size shares its bytes with the
length and the key. -/
def RcvSge.expBufDesc : RcvSge → RemoteBufDesc
  | direct sge => ⟨sge.addr, sge.length.toUInt64 + (sge.lkey.toUInt64 <<< 32)⟩
  | shadow _ desc => desc

lemma RcvSge.len_le_expBufDesc (sge : RcvSge) : sge.len.toNat ≤ sge.expBufDesc.size.toNat := by
  cases sge with
  | shadow => exact Nat.le_refl _
  | direct sge =>
    have hlength := sge.length.toNat_lt
    have hlkey := sge.lkey.toNat_lt
    simp only [RcvSge.len, RcvSge.expBufDesc, UInt64.toNat_add, UInt64.toNat_shiftLeft,
      UInt32.toNat_toUInt64, Nat.shiftLeft_eq]
    rw [show (32 : UInt64).toNat % 64 = 32 from rfl, Nat.mod_eq_of_lt (b := 2 ^ 64) (by omega)]
    omega

/-- An entry of a receive ring (C `struct ntrdma_recv_wqe`); `sg_count` is the length of the
list. -/
structure RecvWqe where
  ulpHandle : UInt64
  opCode : UInt16
  opStatus : UInt16
  rcvSgList : List RcvSge
  deriving DecidableEq, Repr

structure Cqe where
  ulpHandle : UInt64
  opCode : UInt16
  opStatus : UInt16
  rdmaLen : UInt32
  immData : UInt32
  flags : UInt32
  deriving DecidableEq, Repr

def accessRemoteWrite : UInt32 := 0x2

/-- A local memory region (C `struct ntrdma_mr`); its elements fit into the address space. -/
structure Mr where
  addr : UInt64
  access : UInt32
  sgList : List MrBuf
  fits : (sgList.map fun b => b.size.toNat).sum < 2 ^ 64

/-- A memory region of the peer (C `struct ntrdma_rmr`); its elements fit into the address space. -/
structure Rmr where
  addr : UInt64
  sgList : List RemoteBuf
  fits : (sgList.map fun b => b.size.toNat).sum < 2 ^ 64

def Mr.byte (mr : Mr) (a : UInt64) : Option UInt64 :=
  byteAt MrBuf.size MrBuf.dmaAddr mr.sgList mr.addr a

def Rmr.byte (rmr : Rmr) (a : UInt64) : Option UInt64 :=
  byteAt RemoteBuf.size RemoteBuf.dmaAddr rmr.sgList rmr.addr a

/-- What the copy engine reads of a device (C `struct ntrdma_dev`): the transport and the lookups
`ntrdma_dev_mr_look` and `ntrdma_dev_rmr_look`. -/
structure Dev where
  ntc : NtcDev
  mrLook : UInt32 → Option Mr
  rmrLook : UInt32 → Option Rmr

end Ntrdma
