import Ntrdma.Ring.Basic
import Ntrdma.Wr.Basic

/-!
# Queue pairs

Model of `struct ntrdma_qp` and `struct ntrdma_rqp`: the fields the data path reads and writes, and
the functions that open a range of a ring and store an index back.

A ring buffer is a function from positions to entries; positions from the capacity on are the memory
behind the buffer. The indices the peer writes into an exported buffer (`ntrdma_qp_send_cons`,
`ntrdma_rqp_send_prod`, `ntrdma_rqp_recv_prod`) are fields.

C → Lean naming (drop the `ntrdma_` prefix): `ntrdma_qp_send_post_get` → `Qp.sendPostGet`,
`ntrdma_qp_send_post_put` → `Qp.sendPostPut`, and likewise for `recv_post`, `send_prod`,
`recv_prod`, `recv_cons`, `send_cmpl`, `recv_cmpl` and the `ntrdma_rqp_` functions.
-/

namespace Ntrdma
open Ntrdma.Ring

/-- A queue pair (C `struct ntrdma_qp`). -/
structure Qp where
  state : QpState
  sendWqeSgCap : UInt32
  sendWqeInlineCap : UInt32
  sendCap : UInt32
  sendPost : UInt32
  sendProd : UInt32
  sendCmpl : UInt32
  sendWqe : Nat → SendWqe
  sendCqe : Nat → Cqe
  sendCons : UInt32
  sendAbort : Bool
  sendAborting : Bool
  sendAbortFirst : Bool
  recvCap : UInt32
  recvPost : UInt32
  recvProd : UInt32
  recvCons : UInt32
  recvCmpl : UInt32
  recvWqe : Nat → RecvWqe
  recvCqe : Nat → Cqe
  recvAbort : Bool
  recvAborting : Bool
  recvAbortFirst : Bool

/-- The peer's view of a queue pair (C `struct ntrdma_rqp`). -/
structure Rqp where
  state : QpState
  sendCap : UInt32
  sendCons : UInt32
  sendProd : UInt32
  sendWqe : Nat → SendWqe
  sendCqe : Nat → Cqe
  recvCap : UInt32
  recvCons : UInt32
  recvProd : UInt32
  recvWqe : Nat → RecvWqe
  recvWqeSgCap : UInt32

def Qp.sendPostGet (qp : Qp) : Bool × Range := produce qp.sendPost qp.sendCmpl qp.sendCap

def Qp.sendPostPut (qp : Qp) (pos base : UInt32) : Qp :=
  { qp with sendPost := update pos base qp.sendCap }

def Qp.sendProdGet (qp : Qp) : Range := consume qp.sendPost qp.sendProd qp.sendCap

def Qp.sendProdPut (qp : Qp) (pos base : UInt32) : Qp :=
  { qp with sendProd := update pos base qp.sendCap }

def Qp.sendCmplPut (qp : Qp) (pos base : UInt32) : Qp :=
  { qp with sendCmpl := update pos base qp.sendCap }

def Qp.recvPostGet (qp : Qp) : Bool × Range := produce qp.recvPost qp.recvCmpl qp.recvCap

def Qp.recvPostPut (qp : Qp) (pos base : UInt32) : Qp :=
  { qp with recvPost := update pos base qp.recvCap }

def Qp.recvProdGet (qp : Qp) : Range := consume qp.recvPost qp.recvProd qp.recvCap

def Qp.recvProdPut (qp : Qp) (pos base : UInt32) : Qp :=
  { qp with recvProd := update pos base qp.recvCap }

def Qp.recvConsGet (qp : Qp) : Range := consume qp.recvProd qp.recvCons qp.recvCap

def Qp.recvConsPut (qp : Qp) (pos base : UInt32) : Qp :=
  { qp with recvCons := update pos base qp.recvCap }

def Qp.recvCmplPut (qp : Qp) (pos base : UInt32) : Qp :=
  { qp with recvCmpl := update pos base qp.recvCap }

def Rqp.recvConsGet (rqp : Rqp) : Range := consume rqp.recvProd rqp.recvCons rqp.recvCap

def Rqp.recvConsPut (rqp : Rqp) (pos base : UInt32) : Rqp :=
  { rqp with recvCons := update pos base rqp.recvCap }

/-- The range of receives after its position moved: at its end, the index is stored and the next
range is opened. -/
def Rqp.recvNext (rqp : Rqp) (recv : Range) : Range × Rqp :=
  if recv.pos = recv.stop then
    let rqp := rqp.recvConsPut recv.pos recv.base
    (rqp.recvConsGet, rqp)
  else (recv, rqp)

def Qp.recvNext (qp : Qp) (recv : Range) : Range × Qp :=
  if recv.pos = recv.stop then
    let qp := qp.recvConsPut recv.pos recv.base
    (qp.recvConsGet, qp)
  else (recv, qp)

def Rqp.sendConsGet (rqp : Rqp) : Range := consume rqp.sendProd rqp.sendCons rqp.sendCap

def Rqp.sendConsPut (rqp : Rqp) (pos base : UInt32) : Rqp :=
  { rqp with sendCons := update pos base rqp.sendCap }

def Qp.fresh (cap : UInt32) : Qp where
  state := .rts
  sendWqeSgCap := 4
  sendWqeInlineCap := 8
  sendCap := cap
  sendPost := 0
  sendProd := 0
  sendCmpl := 0
  sendWqe _ := ⟨0, 0, 0, 0, ⟨0, 0, 0⟩, 0, 0, 0, []⟩
  sendCqe _ := ⟨0, 0, 0, 0, 0, 0⟩
  sendCons := 0
  sendAbort := false
  sendAborting := false
  sendAbortFirst := false
  recvCap := cap
  recvPost := 0
  recvProd := 0
  recvCons := 0
  recvCmpl := 0
  recvWqe _ := ⟨0, 0, 0, []⟩
  recvCqe _ := ⟨0, 0, 0, 0, 0, 0⟩
  recvAbort := false
  recvAborting := false
  recvAbortFirst := false

def Rqp.fresh (cap : UInt32) : Rqp where
  state := .rts
  sendCap := cap
  sendCons := 0
  sendProd := 0
  sendWqe _ := ⟨0, 0, 0, 0, ⟨0, 0, 0⟩, 0, 0, 0, []⟩
  sendCqe _ := ⟨0, 0, 0, 0, 0, 0⟩
  recvCap := cap
  recvCons := 0
  recvProd := 0
  recvWqe _ := ⟨0, 0, 0, []⟩
  recvWqeSgCap := 4

def Qp.setSendWqe (qp : Qp) (pos : UInt32) (wqe : SendWqe) : Qp :=
  { qp with sendWqe := Function.update qp.sendWqe pos.toNat wqe }

@[simp] lemma Qp.setSendWqe_sendCap (qp : Qp) (pos : UInt32) (wqe : SendWqe) :
    (qp.setSendWqe pos wqe).sendCap = qp.sendCap := rfl

@[simp] lemma Qp.setSendWqe_sendWqe (qp : Qp) (pos : UInt32) (wqe : SendWqe) :
    (qp.setSendWqe pos wqe).sendWqe = Function.update qp.sendWqe pos.toNat wqe := rfl

end Ntrdma
