import Ntrdma.Recv.Post
import Ntrdma.Zip.Memcpy

/-!
# Completing a receive

Model of `ntrdma_recv_wqe_sync`, `ntrdma_recv_wqe_cleanup`, `ntrdma_recv_fail` and
`ntrdma_recv_done`: the shadow buffers of a receive are copied to the memory of the application, the
shadows are freed, and the completion entry is written. The memory of a host is a function of the
DMA address.
-/

namespace Ntrdma
open Lib

def ExportBuf.content (buf : ExportBuf) (mem : UInt64 → UInt8) : List UInt8 :=
  (span buf.dmaAddr buf.size.toNat).map mem

/-- One shadow in `ntrdma_recv_wqe_sync`: the result and the byte stores made. -/
def shadowSync (dev : Dev) (mem : UInt64 → UInt8) (shadow : Shadow) :
    Except Errno Unit × List (UInt64 × UInt8) :=
  let src := shadow.expBuf.content mem
  match shadow.target with
  | .dma buf => (.ok (), (span buf.dmaAddr src.length).zip src)
  | .mr localKey localAddr => zipMemcpy dev localKey localAddr src

/-- C `min_t(int, rc, rc1)` of two results. The codes of errors are negative. -/
def rcMin : Except Errno Unit → Except Errno Unit → Except Errno Unit
  | .ok _, rc => rc
  | .error e, .ok _ => .error e
  | .error e, .error e' => .error (if e'.status < e.status then e' else e)

def recvSglSync (dev : Dev) :
    List RcvSge → Except Errno Unit → (UInt64 → UInt8) → Except Errno Unit × (UInt64 → UInt8)
  | [], rc, mem => (rc, mem)
  | .direct _ :: rest, rc, mem => recvSglSync dev rest rc mem
  | .shadow shadow _ :: rest, rc, mem =>
    let (rc1, stores) := shadowSync dev mem shadow
    recvSglSync dev rest (rcMin rc rc1) (applyStores mem stores)

/-- C `ntrdma_recv_wqe_sync`: the result and the memory after it. -/
def recvWqeSync (dev : Dev) (mem : UInt64 → UInt8) (wqe : RecvWqe) :
    Except Errno Unit × (UInt64 → UInt8) :=
  recvSglSync dev wqe.rcvSgList (.ok ()) mem

def recvWqeCleanup (wqe : RecvWqe) : RecvWqe := { wqe with rcvSgList := [] }

/-- C `ntrdma_recv_fail`: the completion entry, whose flags are not set, and the receive entry. -/
def recvFail (cqe : Cqe) (wqe : RecvWqe) (opStatus : UInt16) : Cqe × RecvWqe :=
  ({ cqe with ulpHandle := wqe.ulpHandle, opCode := wqe.opCode, opStatus,
              rdmaLen := 0, immData := 0 },
    recvWqeCleanup wqe)

def sendRecvOpcode (wqe : SendWqe) : UInt16 :=
  if wqe.opCode = wrSendInv then wrRecvInv
  else if wqe.opCode = wrSendWithImm then wrRecvImm
  else if wqe.opCode = wrRdmaWriteWithImm then wrRecvRdma
  else wrRecv

def sendRecvLen (wqe : SendWqe) : UInt32 :=
  if wqe.opCode = wrSend ∨ wqe.opCode = wrSendInv ∨
    wqe.opCode = wrSendWithImm then wqe.rdmaSge.length
  else 0

def sendRecvImm (wqe : SendWqe) : UInt32 :=
  if wqe.opCode = wrSendInv ∨ wqe.opCode = wrSendWithImm ∨ wqe.opCode = wrRdmaWriteWithImm then
    wqe.immData
  else 0

structure RecvDone where
  rc : Except Errno Unit
  cqe : Cqe
  wqe : RecvWqe
  mem : UInt64 → UInt8

def recvDone (dev : Dev) (mem : UInt64 → UInt8) (cqe : Cqe) (wqe : RecvWqe) (sendWqe : SendWqe) :
    RecvDone :=
  let (rc, mem) := recvWqeSync dev mem wqe
  { rc, mem
    cqe := { cqe with
      ulpHandle := wqe.ulpHandle, opCode := sendRecvOpcode sendWqe, opStatus := wcSuccess
      rdmaLen := sendRecvLen sendWqe, immData := sendRecvImm sendWqe }
    wqe := recvWqeCleanup wqe }

def sendFail (wqe : SendWqe) (opStatus : UInt16) : Cqe where
  ulpHandle := wqe.ulpHandle
  opCode := wqe.opCode
  opStatus := opStatus
  rdmaLen := 0
  immData := 0
  flags := wqe.flags

def sendDone (wqe : SendWqe) (rdmaLen : UInt32) : Cqe where
  ulpHandle := wqe.ulpHandle
  opCode := wqe.opCode
  opStatus := wcSuccess
  rdmaLen := rdmaLen
  immData := 0
  flags := wqe.flags

end Ntrdma
