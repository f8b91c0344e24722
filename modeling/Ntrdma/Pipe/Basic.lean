import Ntrdma.Qp.Flush
import Ntrdma.Ring.Portion

/-!
# A queue pair between two hosts

Model of the data path between two hosts as a system: host A posts and sends
(`ntrdma_post_send_locked`, `ntrdma_qp_send_work`) and polls its completions, host B posts receives
and sends them (`ntrdma_qp_recv_work`), processes what A sent (`ntrdma_rqp_send_work`) and polls its
receives, and the writes between the hosts arrive in the order of their requests. `ntrdma_post_send`
is a posting followed by calls of `ntrdma_qp_send_work`, and `ntrdma_post_recv` a posting followed
by one of `ntrdma_qp_recv_work`.

A call that gives up with an error, or that goes over to abort, is no step here. For the record the
state holds what was posted, sent, processed and polled, and the receives that either host took for
its sends.
-/

namespace Ntrdma
open Lib Ntrdma.Ring

/-! ## The receives that are taken -/

/-- The send of a round of the loop in `ntrdma_qp_send_work` with its receive. -/
def SendLoop.took (s : SendLoop) : List (SendWqe × RecvWqe) :=
  let wqe := s.qp.sendWqe s.pos.toNat
  if wrCodeIsSend wqe.opCode then
    match (sendWorkRecv s.rqp s.recv wqe).1 with
    | .ok recvWqe => [(wqe, recvWqe)]
    | .error _ => []
  else []

def sendLoopTook (dev : Dev) (stop : UInt32) : Nat → SendLoop → List (SendWqe × RecvWqe)
  | 0, _ => []
  | n + 1, s =>
    s.took ++
      match sendWorkRound dev s with
      | (false, _) => []
      | (true, s) => if s.pos = stop then [] else sendLoopTook dev stop n s

/-- The sends that a call of `ntrdma_qp_send_work` goes over, with their receives. -/
def sendWorkTook (dev : Dev) (qp : Qp) (rqp : Rqp) (chan : Chan) : List (SendWqe × RecvWqe) :=
  let r := qp.sendProdGet
  sendLoopTook dev r.stop (r.stop.toNat - r.pos.toNat)
    ⟨r.pos, rqp.recvConsGet, qp, rqp, chan, false, false⟩

def RqpLoop.took (s : RqpLoop) : List (SendWqe × RecvWqe) :=
  let wqe := s.rqp.sendWqe s.pos.toNat
  if wrCodeIsSend wqe.opCode then
    if wrStatusNoRecv wqe.opStatus ∨ wqe.recvKey ≠ s.recv.pos + s.recv.base ∨
      s.recv.pos = s.recv.stop then []
    else [(wqe, s.qp.recvWqe s.recv.pos.toNat)]
  else []

def rqpLoopTook (dev : Dev) (stop : UInt32) : Nat → RqpLoop → List (SendWqe × RecvWqe)
  | 0, _ => []
  | n + 1, s =>
    s.took ++
      match rqpWorkRound dev s with
      | (false, _) => []
      | (true, s) => if s.pos = stop then [] else rqpLoopTook dev stop n s

def rqpWorkTook (dev : Dev) (batch : UInt32) (qp : Qp) (rqp : Rqp) (mem : UInt64 → UInt8) :
    List (SendWqe × RecvWqe) :=
  let r := rqp.sendConsGet
  let stop := batchStop batch r
  rqpLoopTook dev stop (stop - r.pos).toNat ⟨r.pos, qp.recvConsGet, qp, rqp, mem, false, none⟩

/-! ## The system -/

/-- Two hosts with a queue pair between them, where A is in a poll, and the writes under way. -/
structure Pipe where
  aQp : Qp
  aRqp : Rqp
  bQp : Qp
  bRqp : Rqp
  phase : PollPhase
  sends : List (RingMsg SendWqe UInt32)
  cqes : List (RingMsg Cqe UInt32)
  recvs : List (RingMsg RecvWqe UInt32)
  posted : List SendWqe
  sent : List SendWqe
  done : List (SendWqe × Cqe)
  polled : List SendRecord
  recvPosted : List RecvWqe
  aTook : List (SendWqe × RecvWqe)
  bTook : List (SendWqe × RecvWqe)

inductive PollAct where
  | start
  | again
  | read (old : Cqe)
  | put

def PollAct.act : PollAct → SendAct
  | start => .start
  | again => .again
  | read old => .read old
  | put => .put

inductive PipeAct where
  | post (dev : Dev) (umem : UInt64 → Option UInt8) (chan : Chan) (wrs : List SendWr)
  | work (dev : Dev) (chan : Chan)
  | poll (act : PollAct)
  | sendArrives
  | rqpWork (dev : Dev) (batch : UInt32) (mem : UInt64 → UInt8) (chan : Chan)
  | cqeArrives
  | postRecv (dev : Dev) (sgCap : UInt32) (alloc : Nat → Nat → ShadowAlloc) (wrs : List RecvWr)
  | recvWork (chan : Chan)
  | recvArrives
  | pollRecv (room : Nat) (cqe : Cqe)

def Pipe.polling (s : Pipe) (seen : Nat) : SendPolling := ⟨s.aQp, s.phase, s.polled, s.posted, seen⟩

def Rqp.takeSend (rqp : Rqp) : RingMsg SendWqe UInt32 → Rqp
  | .copy start wqes => { rqp with sendWqe := store rqp.sendWqe start wqes }
  | .index idx => { rqp with sendProd := idx }

def Qp.takeCqe (qp : Qp) : RingMsg Cqe UInt32 → Qp
  | .copy start cqes => { qp with sendCqe := store qp.sendCqe start cqes }
  | .index idx => { qp with sendCons := idx }

def Rqp.takeRecv (rqp : Rqp) : RingMsg RecvWqe UInt32 → Rqp
  | .copy start wqes => { rqp with recvWqe := store rqp.recvWqe start wqes }
  | .index idx => { rqp with recvProd := idx }

/-- The entries that posting `n` receives left in the ring, from the first free slot on. -/
def newRecvs (qp qp' : Qp) (n : Nat) : List RecvWqe :=
  (List.range n).map fun k => qp'.recvWqe ((qp.recvPost.toNat + k) % qp.recvCap.toNat)

/-- What a call of `ntrdma_qp_recv_work` writes to the peer. -/
def RecvWork.msgs (qp : Qp) (res : RecvWork) : List (RingMsg RecvWqe UInt32) :=
  res.copies.map (fun c => .copy c.1.toNat (portion qp.recvWqe c.1 c.2)) ++
    res.idx.toList.map .index

def BatchOk (batch : UInt32) (r : Range) : Prop := 0 < batch.toNat ∧
    r.pos.toNat + batch.toNat < 2 ^ 32

instance (batch : UInt32) (r : Range) : Decidable (BatchOk batch r) :=
    inferInstanceAs (Decidable (_ ∧ _))

/-- A call of `ntrdma_qp_send_work` on A. Of the calls that send, those that got to the end of their
range did so without an error. -/
def Pipe.work (s : Pipe) (dev : Dev) (chan : Chan) : Option Pipe :=
  let res := sendWork dev s.aQp s.aRqp chan
  match res.sent with
  | none => if res.abort then none else some { s with aQp := res.qp, aRqp := res.rqp }
  | some r =>
    if res.reschedule then
      let wqes := portion res.qp.sendWqe r.start r.stop
      some { s with
        aQp := res.qp
        aRqp := res.rqp
        sends := s.sends ++ [.copy r.start.toNat wqes, .index r.idx]
        sent := s.sent ++ wqes
        aTook := s.aTook ++ sendWorkTook dev s.aQp s.aRqp chan }
    else none

/-- A call of `ntrdma_rqp_send_work` on B. -/
def Pipe.rqpWork (s : Pipe) (dev : Dev) (batch : UInt32) (mem : UInt64 → UInt8) (chan : Chan) :
    Option Pipe :=
  let res := rqpSendWork dev batch s.bQp s.bRqp mem chan
  if res.abort then none
  else
    match res.sent with
    | none => some { s with bQp := res.qp, bRqp := res.rqp }
    | some r =>
      let cqes := portion res.rqp.sendCqe r.start r.stop
      some { s with
        bQp := res.qp
        bRqp := res.rqp
        cqes := s.cqes ++ [.copy r.start.toNat cqes, .index r.idx]
        done := s.done ++ (portion s.bRqp.sendWqe r.start r.stop).zip cqes
        bTook := s.bTook ++ rqpWorkTook dev batch s.bQp s.bRqp mem }

def PipeAct.apply (s : Pipe) : PipeAct → Option Pipe
  | post dev umem chan wrs =>
    if isStateSendReady s.aQp.state then
      let res := postSendLocked dev umem s.aQp chan wrs
      some { s with
        aQp := res.qp
        posted :=
          s.posted ++ deferred ((wrs.take (wrs.length - res.bad.length)).map (wqeOf s.aQp umem)) }
    else none
  | work dev chan => s.work dev chan
  | poll act =>
    let res := act.act.apply (s.polling 0)
    if res.qp.sendAbort then none else some
      { s with aQp := res.qp, phase := res.phase, polled := res.out }
  | sendArrives =>
    match s.sends with
    | [] => none
    | msg :: rest => some { s with bRqp := s.bRqp.takeSend msg, sends := rest }
  | rqpWork dev batch mem chan =>
    if BatchOk batch s.bRqp.sendConsGet then s.rqpWork dev batch mem chan else none
  | cqeArrives =>
    match s.cqes with
    | [] => none
    | msg :: rest => some { s with aQp := s.aQp.takeCqe msg, cqes := rest }
  | postRecv dev sgCap alloc wrs =>
    if isStateOutOfReset s.bQp.state then
      let res := postRecvWrs dev sgCap alloc s.bQp wrs
      some { s with
        bQp := res.2.2
        recvPosted := s.recvPosted ++ newRecvs s.bQp res.2.2 (wrs.length - res.2.1.length) }
    else none
  | recvWork chan =>
    let res := Ntrdma.recvWork s.bQp chan
    if res.abort then none else some { s with bQp := res.qp, recvs := s.recvs ++ res.msgs s.bQp }
  | recvArrives =>
    match s.recvs with
    | [] => none
    | msg :: rest => some { s with aRqp := s.aRqp.takeRecv msg, recvs := rest }
  | pollRecv room cqe =>
    let res := pollBatch recvPoll (room + 1) s.bQp cqe
    if res.2.recvAbort then none else some { s with bQp := res.2 }

def pipeStep (s : Pipe) (act : PipeAct) (t : Pipe) : Prop := act.apply s = some t

def Pipe.start (aQp : Qp) (aRqp : Rqp) (bQp : Qp) (bRqp : Rqp) : Pipe :=
  ⟨aQp, aRqp, bQp, bRqp, .idle, [], [], [], [], [], [], [], [], [], []⟩

/-- The send rings have one capacity, their indices stand for one counter, and A is not in abort. -/
structure SendConnected (aQp : Qp) (bRqp : Rqp) (start : Nat) : Prop where
  cap : Cap aQp.sendCap
  same : bRqp.sendCap = aQp.sendCap
  post : Idx aQp.sendCap aQp.sendPost start
  prod : Idx aQp.sendCap aQp.sendProd start
  cons : Idx aQp.sendCap aQp.sendCons start
  cmpl : Idx aQp.sendCap aQp.sendCmpl start
  peerProd : Idx aQp.sendCap bRqp.sendProd start
  peerCons : Idx aQp.sendCap bRqp.sendCons start
  abort : aQp.sendAbort = false

/-- The receive rings of both hosts have one capacity and all their indices stand for one
counter. -/
structure RecvConnected (bQp : Qp) (aRqp : Rqp) (start : Nat) : Prop where
  cap : Cap bQp.recvCap
  same : aRqp.recvCap = bQp.recvCap
  post : Idx bQp.recvCap bQp.recvPost start
  prod : Idx bQp.recvCap bQp.recvProd start
  cons : Idx bQp.recvCap bQp.recvCons start
  cmpl : Idx bQp.recvCap bQp.recvCmpl start
  peerProd : Idx bQp.recvCap aRqp.recvProd start
  peerCons : Idx bQp.recvCap aRqp.recvCons start

end Ntrdma
