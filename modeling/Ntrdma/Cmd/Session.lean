import Ntrdma.Cmd.Pairing
import Ntrdma.Peer.SetUp

/-!
# Command rings across sessions

Model of the life of the command rings of two hosts over any number of sessions (`ntrdma_cmd.c`,
with the phases of `ntrdma_hello.c` that call it): phase 1 of the hello announces the own ring of
commands, phase 2 sets up the ring for the commands of the peer, phase 3 learns where it is,
`ntrdma_dev_cmd_reset` takes all of it back. A phase may fail at any of its calls, and a reset may
follow at any point.

Resets are counted. What a host wrote for the hello, and every index that is under way to it, has
the count of the session it belongs to, and an index of a session that the receiver has left does
not arrive. The invariant is about one host and what it took from the other: an own ring that was
not enabled since the reset is at index 0, and so is the ring for the peer while the peer, in the
session that it was set up for, was not enabled.
-/

namespace Ntrdma
open Lib Ntrdma.Ring

/-! ## The rings of a host -/

def rspSize : UInt32 := 0x40

structure CmdHelloPrep where
  recvBufDesc : RemoteBufDesc
  recvProdShift : UInt64

structure CmdRecvBuf where
  desc : RemoteBufDesc
  prod : UInt32

/-- The indices and buffers of `dev->cmd_send` and `dev->cmd_recv`, `none` where not mapped. The
peer writes `cons` and the index in `recvBuf`. -/
structure CmdRings where
  sendCap : UInt32
  prod : UInt32
  cmpl : UInt32
  cons : UInt32
  rspBufDesc : RemoteBufDesc
  sendVbell : UInt32
  recvVbell : UInt32
  peerCmdRecvBuf : Option RemoteBufDesc
  peerRecvProdShift : UInt64
  peerCmdRecvVbell : UInt32
  recvCap : UInt32
  recvCons : UInt32
  recvBuf : Option CmdRecvBuf
  peerCmdSendRspBuf : Option RemoteBufDesc
  peerSendConsShift : UInt64
  peerCmdSendVbell : UInt32
  isCmdPrep : Bool
  isCmdHelloDone : Bool

/-- What fails in a hello phase. -/
structure HelloEnv where
  early : Bool
  late : Bool
  map : Option Errno
  recvBuf : Option Errno
  rspBuf : Option Errno
  recvBufDesc : RemoteBufDesc

namespace CmdRings

/-- C `ntrdma_dev_cmd_init`. -/
def init (sendCap sendVbell recvVbell : UInt32) (rspBufDesc : RemoteBufDesc) : CmdRings :=
  ⟨sendCap, 0, 0, 0, rspBufDesc, sendVbell, recvVbell, none, 0, 0, 0, 0,
    none, none, 0, 0, false, false⟩

def recvProd (r : CmdRings) : UInt32 := (r.recvBuf.map CmdRecvBuf.prod).getD 0

def helloInfo (r : CmdRings) : CmdHelloInfo :=
  ⟨r.rspBufDesc, r.sendCap.toUInt64 * rspSize.toUInt64, r.sendCap, r.cons, r.sendVbell, r.recvVbell⟩

/-- The label `err_recv_buf` of `ntrdma_dev_cmd_hello_prep_unprep`, and what follows it. -/
def errRecvBuf (r : CmdRings) : CmdRings :=
  { r with
    cons := 0, cmpl := 0, prod := 0, recvCons := 0, recvCap := 0,
      peerCmdSendVbell := 0, peerCmdRecvVbell := 0
    peerCmdSendRspBuf := none }

/-- As `errRecvBuf`, from the label `err_recv_rsp_buf` on. -/
def errRecvRspBuf (r : CmdRings) : CmdRings := { r with recvBuf := none }.errRecvBuf

/-- C `ntrdma_dev_cmd_hello_prep_unprep`, preparing: what it returns, and the rings. -/
def prep (env : HelloEnv) (peerInfo : CmdHelloInfo) (r : CmdRings) : Option Errno × CmdRings :=
  if peerInfo.sendVbellIdx > devVbellCount || peerInfo.recvVbellIdx >
    devVbellCount then (some .eio, r)
  else if peerInfo.sendCap > maxCmds then (some .eio, r)
  else
    match env.map with
    | some e => (some e, r)
    | none =>
      let r := { r with
        peerCmdSendRspBuf := some peerInfo.sendRspBufDesc
        peerSendConsShift := peerInfo.sendConsShift
        peerCmdSendVbell := peerInfo.sendVbellIdx
        peerCmdRecvVbell := peerInfo.recvVbellIdx
        recvCap := peerInfo.sendCap
        recvCons := peerInfo.sendIdx }
      match env.recvBuf with
      | some e => (some e, r.errRecvBuf)
      | none =>
        let r := { r with recvBuf := some ⟨env.recvBufDesc, 0⟩ }
        match env.rspBuf with
        | some e => (some e, r.errRecvRspBuf)
        | none => (none, { r with isCmdPrep := true })

/-- C `ntrdma_dev_cmd_hello_prep_unprep`, taking the preparation back. -/
def unprep (r : CmdRings) : CmdRings :=
  if !r.isCmdPrep then r else { r with isCmdPrep := false }.errRecvRspBuf

/-- What C `ntrdma_dev_cmd_hello_prep` tells the peer. -/
def helloPrep (env : HelloEnv) (r : CmdRings) : CmdHelloPrep :=
  ⟨env.recvBufDesc, r.recvCap.toUInt64 * cmdSize.toUInt64⟩

def helloDone (env : HelloEnv) (peerPrep : CmdHelloPrep) (r : CmdRings) : Option Errno × CmdRings :=
  match env.map with
  | some e => (some e, r)
  | none =>
    (none, { r with
      peerCmdRecvBuf := some peerPrep.recvBufDesc
      peerRecvProdShift := peerPrep.recvProdShift
      isCmdHelloDone := true })

/-- C `ntrdma_dev_cmd_hello_done_undone`, taking it back. -/
def undone (r : CmdRings) : CmdRings :=
  if !r.isCmdHelloDone then r else { r with isCmdHelloDone := false, peerCmdRecvBuf := none }

def reset (r : CmdRings) : CmdRings := r.undone.unprep

end CmdRings

/-! ## Two hosts -/

/-- A host, whether it was enabled since the reset, its resets, the sessions of the peer it read,
and its output. -/
structure CmdNode where
  rings : CmdRings
  phases : Nat
  failed : Bool
  ready : Bool
  used : Bool
  resets : Nat
  infoSess : Option Nat
  prepSess : Option Nat
  outInfo : Option (Nat × CmdHelloInfo)
  outPrep : Option (Nat × CmdHelloPrep)

/-- An index written to a peer: the producer of the commands or the consumer of the responses. -/
inductive IdxWrite where
  | prod (idx : UInt32)
  | cons (idx : UInt32)
  deriving DecidableEq, Repr

structure IdxFlight where
  sess : Nat
  write : IdxWrite

namespace CmdNode

def start (rings : CmdRings) : CmdNode := ⟨rings, 0, false, false, false, 0, none, none, none, none⟩

def fail (n : CmdNode) : CmdNode := { n with failed := true }

def finish (env : HelloEnv) (n : CmdNode) : CmdNode :=
  if env.late then n.fail else { n with phases := n.phases + 1 }

/-- The command rings in `ntrdma_dev_hello_phase1`. -/
def announce (n : CmdNode) : CmdNode := { n with outInfo := some (n.resets, n.rings.helloInfo) }

/-- The command rings in `ntrdma_dev_hello_phase2`, with the output of the peer's phase 1. -/
def prepare (env : HelloEnv) (input : Nat × CmdHelloInfo) (n : CmdNode) : CmdNode :=
  match n.rings.prep env input.2 with
  | (some _, rings) => { n with rings }.fail
  | (none, rings) =>
    { n with rings, infoSess := some input.1,
             outPrep := some (n.resets, rings.helloPrep env) }.finish env

/-- The command rings in `ntrdma_dev_hello_phase3`, with the output of the peer's phase 2. -/
def learn (env : HelloEnv) (input : Nat × CmdHelloPrep) (n : CmdNode) : CmdNode :=
  match n.rings.helloDone env input.2 with
  | (some _, rings) => { n with rings }.fail
  | (none, rings) => { n with rings, prepSess := some input.1 }.finish env

/-- C `ntrdma_dev_hello`, of the next phase. An input that was never written fails the check of its
magic. -/
def hello (env : HelloEnv) (n peer : CmdNode) : CmdNode :=
  if env.early then n.fail
  else
    match n.phases with
    | 0 => n.finish env
    | 1 => n.announce.finish env
    | 2 =>
      match peer.outInfo with
      | none => n.fail
      | some input => n.prepare env input
    | 3 =>
      match peer.outPrep with
      | none => n.fail
      | some input => n.learn env input
    | _ => n.fail

def reset (n : CmdNode) : CmdNode :=
  { n with
    rings := n.rings.reset, phases := 0, failed := false, used := false, resets := n.resets + 1
    infoSess := none, prepSess := none }

def deliver (n : CmdNode) : IdxWrite → CmdNode
  | .prod idx => { n with rings.recvBuf := n.rings.recvBuf.map fun b => { b with prod := idx } }
  | .cons idx => { n with rings.cons := idx }

end CmdNode

inductive SessAct where
  | hello (env : HelloEnv)
  | enable
  | disable
  | reset
  | sendWork (prod cmpl : UInt32)
  | recvWork (cons : UInt32)
  | land (i : Nat)

/-- A host after an action, the writes under way to it and its writes to the peer. The link work
calls the phases in order, enables after the peer has completed its hello, and resets only while
disabled. An enabled host may leave its indices anywhere. -/
def SessAct.act (peer n : CmdNode) (toward : List IdxFlight) :
    SessAct → Option (CmdNode × List IdxFlight × List IdxFlight)
  | hello env => if n.failed ∨ 4 ≤ n.phases then none else some (n.hello env peer, toward, [])
  | enable =>
    if n.failed ∨ n.ready ∨ n.phases ≠ 4 ∨ peer.phases ≠ 4 then none
    else some ({ n with ready := true, used := true }, toward, [])
  | disable => some ({ n with ready := false }, toward, [])
  | reset => if n.ready then none else some (n.reset, toward, [])
  | sendWork prod cmpl =>
    match n.ready, n.prepSess with
    | true, some sess => some ({ n with rings.prod := prod, rings.cmpl := cmpl },
      toward, [⟨sess, .prod prod⟩])
    | _, _ => none
  | recvWork cons =>
    match n.ready, n.infoSess with
    | true, some sess =>
      if n.rings.recvProd = n.rings.recvCons then none
      else some ({ n with rings.recvCons := cons }, toward, [⟨sess, .cons cons⟩])
    | _, _ => none
  | land i =>
    match toward[i]? with
    | none => none
    | some f => if f.sess = n.resets then some (n.deliver f.write, toward.eraseIdx i, []) else none

structure CmdSess where
  node : Bool → CmdNode
  toward : Bool → List IdxFlight

namespace CmdSess

def apply (s : CmdSess) (a : Bool × SessAct) : Option CmdSess :=
  (a.2.act (s.node !a.1) (s.node a.1) (s.toward a.1)).map fun (n, own, sent) =>
    ⟨fun y => if y = a.1 then n else s.node y, fun y => if y = a.1 then own else s.toward y ++ sent⟩

def Step (s : CmdSess) (a : Bool × SessAct) (t : CmdSess) : Prop := s.apply a = some t

/-- Two hosts that were just loaded, each with a ring of its own capacity, doorbells and buffer. -/
def start (caps sendVbell recvVbell : Bool → UInt32) (rspBufDesc : Bool → RemoteBufDesc) :
    CmdSess :=
  ⟨fun x => .start (.init (caps x) (sendVbell x) (recvVbell x) (rspBufDesc x)), fun _ => []⟩

/-- Each side went through all phases, with what the other wrote in the session that it is in. -/
structure HelloComplete (s : CmdSess) : Prop where
  phases : ∀ x, (s.node x).phases = 4
  info : ∀ x, (s.node x).infoSess = some (s.node !x).resets
  prep : ∀ x, (s.node x).prepSess = some (s.node !x).resets

end CmdSess

/-- The ring of one host and the ring that the other set up for it are at the same place. -/
structure CmdRings.Agree (send recv : CmdRings) : Prop where
  cmpl : send.cmpl = send.prod
  cons : send.cons = send.prod
  recvCons : recv.recvCons = send.prod
  recvProd : recv.recvProd = send.prod
  cap : recv.recvCap = send.sendCap

/-- The sender and the receiver at these rings, with the lists emptied by
`ntrdma_dev_cmd_quiesce`. -/
def CmdSys.between (send recv : CmdRings) (buf recvBuf : Nat → Cmd) (rspBuf recvRspBuf : Nat → Rsp)
    (dev : CmdDev) : CmdSys where
  send := ⟨send.sendCap, [], [], buf, rspBuf, send.prod, send.cons, send.cmpl, false, [], 0, []⟩
  recv := ⟨recv.recvCap, recvBuf, recv.recvProd, recv.recvCons, recvRspBuf, dev, []⟩
  toPeer := []
  toHost := []

/-! ## The invariant -/

/-- What holds of the rings of a host whose own ring has capacity `cap`. -/
structure CmdNode.Own (cap : UInt32) (n : CmdNode) : Prop where
  sendCap : n.rings.sendCap = cap
  unused : n.used = false → n.rings.prod = 0 ∧ n.rings.cmpl = 0 ∧ n.rings.cons = 0
  used : n.used = true → n.phases = 4
  ready : n.ready = true → n.used = true
  prep : 3 ≤ n.phases → n.rings.isCmdPrep = true
  unprep : n.phases ≤ 2 → n.failed = false → n.rings.isCmdPrep = false
  noInfo : n.rings.isCmdPrep = false → n.infoSess = none
  bound : n.rings.isCmdPrep = true → n.rings.recvCap ≤ maxCmds
  outInfo : ∀ o ∈ n.outInfo, o.1 ≤ n.resets ∧ o.2.sendCap = cap ∧ o.2.sendIdx = 0
  outPrep : ∀ o ∈ n.outPrep, o.1 ≤ n.resets ∧ (o.1 = n.resets → n.rings.isCmdPrep = true)

/-- What holds of what a host took from its peer, whose own ring has capacity `cap`. -/
structure CmdNode.Took (cap : UInt32) (n peer : CmdNode) : Prop where
  info_le : ∀ sess ∈ n.infoSess, sess ≤ peer.resets
  prep_le : ∀ sess ∈ n.prepSess, sess ≤ peer.resets
  prep : n.prepSess = some peer.resets → peer.rings.isCmdPrep = true
  recvCap : n.rings.isCmdPrep = true → n.rings.recvCap = cap
  fresh : n.infoSess = some peer.resets → peer.used = false →
    n.rings.recvCons = 0 ∧ n.rings.recvProd = 0
  enabled : n.used = true → n.prepSess = some peer.resets → peer.phases = 4

/-- A write of the session that the receiver is in was made with enabled rings on both sides of
it. -/
structure IdxFlight.Ok (n peer : CmdNode) (f : IdxFlight) : Prop where
  le : f.sess ≤ n.resets
  prod : ∀ idx, f.write = .prod idx → f.sess = n.resets →
    n.rings.isCmdPrep = true ∧ (n.infoSess = some peer.resets → peer.used = true)
  cons : ∀ idx, f.write = .cons idx → f.sess = n.resets → n.used = true

structure CmdNode.Side (cap peerCap : UInt32) (n peer : CmdNode)
    (toward : List IdxFlight) : Prop where
  own : n.Own cap
  took : n.Took peerCap peer
  flights : ∀ f ∈ toward, f.Ok n peer

section
variable {cap peerCap : UInt32} {n n' peer : CmdNode} {toward : List IdxFlight}
    {env : HelloEnv} {r r' : CmdRings}

/-! ### What the peer sees of a step -/

structure CmdNode.Onward (n n' : CmdNode) : Prop where
  resets : n'.resets = n.resets
  prep : n.rings.isCmdPrep = true → n'.rings.isCmdPrep = true
  used : n.used = true → n'.used = true
  phases : n.phases = 4 → n'.phases = 4

lemma CmdNode.Onward.unused (h : n.Onward n') (hused : n'.used = false) : n.used = false := by
  by_contra hne
  rw [h.used (eq_true_of_ne_false hne)] at hused
  cases hused

lemma CmdNode.Took.onward (h : peer.Took cap n) (hn : n.Onward n') : peer.Took cap n' where
  info_le := hn.resets ▸ h.info_le
  prep_le := hn.resets ▸ h.prep_le
  prep hsess := hn.prep (h.prep (hn.resets ▸ hsess))
  recvCap := h.recvCap
  fresh hsess hused := h.fresh (hn.resets ▸ hsess) (hn.unused hused)
  enabled hused hsess := hn.phases (h.enabled hused (hn.resets ▸ hsess))

variable {f : IdxFlight}

lemma IdxFlight.Ok.onward (h : f.Ok peer n) (hn : n.Onward n') : f.Ok peer n' where
  le := h.le
  prod idx hw hsess := (h.prod idx hw hsess).imp_right fun hused hinfo =>
    hn.used (hused (hn.resets ▸ hinfo))
  cons := h.cons

lemma CmdNode.Side.onward (h : peer.Side cap peerCap n toward) (hn : n.Onward n') :
    peer.Side cap peerCap n' toward :=
  ⟨h.own, h.took.onward hn, fun f hf => (h.flights f hf).onward hn⟩

lemma IdxFlight.Ok.keep (h : f.Ok n peer) (hn : n.Onward n') (hinfo : n'.infoSess = n.infoSess) :
    f.Ok n' peer where
  le := hn.resets ▸ h.le
  prod idx hw hsess := by
    obtain ⟨hprep, hused⟩ := h.prod idx hw (hn.resets ▸ hsess)
    exact ⟨hn.prep hprep, hinfo ▸ hused⟩
  cons idx hw hsess := hn.used (h.cons idx hw (hn.resets ▸ hsess))

/-! ### The hello -/

lemma CmdNode.Own.unused_of_lt (h : n.Own cap) (hlt : n.phases < 4) : n.used = false := by
  by_contra hne
  have := h.used (eq_true_of_ne_false hne)
  omega

lemma CmdNode.Side.fail (h : n.Side cap peerCap peer toward) :
    n.fail.Side cap peerCap peer toward where
  own := { h.own with unprep := fun _ hf => absurd hf nofun }
  took := { h.took with }
  flights f hf := (h.flights f hf).keep ⟨rfl, id, id, id⟩ rfl

lemma CmdNode.Side.next (h : n.Side cap peerCap peer toward) (hlt : n.phases < 4)
    (hne : n.phases ≠ 2) :
    CmdNode.Side cap peerCap { n with phases := n.phases + 1 } peer toward where
  own := { h.own with
    used := fun hused => absurd (hused.symm.trans (h.own.unused_of_lt hlt)) nofun
    prep := fun hle => h.own.prep (by dsimp only at hle; omega)
    unprep := fun hle => h.own.unprep (by dsimp only at hle; omega) }
  took := { h.took with }
  flights f hf := (h.flights f hf).keep ⟨rfl, id, id, fun h4 => absurd h4 hlt.ne⟩ rfl

lemma CmdNode.Side.finish (h : n.Side cap peerCap peer toward) (hlt : n.phases < 4)
    (hne : n.phases ≠ 2) : (n.finish env).Side cap peerCap peer toward := by
  unfold CmdNode.finish
  split
  · exact h.fail
  · exact h.next hlt hne

lemma CmdNode.Side.announce (h : n.Side cap peerCap peer toward) (hlt : n.phases < 4) :
    n.announce.Side cap peerCap peer toward where
  own := { h.own with
    outInfo := by
      rintro o ⟨⟩
      exact ⟨Nat.le_refl _, h.own.sendCap, (h.own.unused (h.own.unused_of_lt hlt)).2.2⟩ }
  took := { h.took with }
  flights f hf := (h.flights f hf).keep ⟨rfl, id, id, id⟩ rfl

inductive CmdRings.PrepMove (env : HelloEnv) (peerInfo : CmdHelloInfo) (r : CmdRings) :
    Option Errno × CmdRings → Prop where
  | same (e : Errno) : PrepMove env peerInfo r (some e, r)
  | cleared (e : Errno) {r' : CmdRings} (cap : r'.sendCap = r.sendCap)
      (zero : r'.prod = 0 ∧ r'.cmpl = 0 ∧ r'.cons = 0) (prep : r'.isCmdPrep = r.isCmdPrep) :
      PrepMove env peerInfo r (some e, r')
  | done {r' : CmdRings} (cap : r'.sendCap = r.sendCap)
    (own : r'.prod = r.prod ∧ r'.cmpl = r.cmpl ∧ r'.cons = r.cons)
      (prep : r'.isCmdPrep = true) (bound : peerInfo.sendCap ≤ maxCmds)
        (recvCap : r'.recvCap = peerInfo.sendCap)
      (recvCons : r'.recvCons = peerInfo.sendIdx) (recvProd : r'.recvProd = 0) :
      PrepMove env peerInfo r (none, r')

lemma CmdRings.prep_move (env : HelloEnv) (peerInfo : CmdHelloInfo) (r : CmdRings) :
    PrepMove env peerInfo r (r.prep env peerInfo) := by
  unfold CmdRings.prep
  split
  · exact .same _
  · split
    · exact .same _
    next hcap =>
      split
      · exact .same _
      · split
        · exact .cleared _ rfl ⟨rfl, rfl, rfl⟩ rfl
        · split
          · exact .cleared _ rfl ⟨rfl, rfl, rfl⟩ rfl
          · exact .done rfl ⟨rfl, rfl, rfl⟩ rfl (UInt32.not_lt.mp hcap) rfl rfl rfl

variable {input : Nat × CmdHelloInfo}

lemma CmdNode.Side.prepared (h : n.Side cap peerCap peer toward) (hpeer : peer.Own peerCap)
    (hlt : n.phases ≤ 2) (hfailed : n.failed = false) (hin : peer.outInfo = some input)
    (hcap : r.sendCap = n.rings.sendCap)
    (hown : r.prod = n.rings.prod ∧ r.cmpl = n.rings.cmpl ∧ r.cons = n.rings.cons)
    (hprep : r.isCmdPrep = true) (hbound : input.2.sendCap ≤ maxCmds)
    (hrecvCap : r.recvCap = input.2.sendCap) (hrecvCons : r.recvCons = input.2.sendIdx)
    (hrecvProd : r.recvProd = 0) (out : CmdHelloPrep) {phases : Nat} {failed : Bool}
    (hend : phases ≤ 2 → failed = true) :
    CmdNode.Side cap peerCap
      { n with
        rings := r, infoSess := some input.1, outPrep := some (n.resets, out), phases :=
          phases, failed := failed }
      peer toward := by
  have hunused := h.own.unused_of_lt (by omega)
  have hunprep := h.own.unprep hlt hfailed
  obtain ⟨hle, hpeerCap, hidx⟩ := hpeer.outInfo input hin
  refine ⟨⟨hcap.trans h.own.sendCap, fun hu => ?_, fun hu => ?_, h.own.ready,
    fun _ => hprep, fun hp hf => ?_,
    fun hp => ?_, fun _ => hrecvCap ▸ hbound, h.own.outInfo, ?_⟩, ⟨?_, h.took.prep_le, h.took.prep,
    fun _ => hrecvCap.trans hpeerCap, fun _ _ => ⟨hrecvCons.trans hidx, hrecvProd⟩,
      fun hu => ?_⟩, fun f hf => ?_⟩
  · rw [hown.1, hown.2.1, hown.2.2]
    exact h.own.unused hu
  · exact absurd (hu.symm.trans hunused) nofun
  · exact absurd (hf.symm.trans (hend hp)) nofun
  · exact absurd (hp.symm.trans hprep) nofun
  · rintro o ⟨⟩
    exact ⟨Nat.le_refl _, fun _ => hprep⟩
  · rintro sess ⟨⟩
    exact hle
  · exact absurd (hu.symm.trans hunused) nofun
  · have hok := h.flights f hf
    refine ⟨hok.le, fun idx hw hsess => ?_, hok.cons⟩
    exact absurd ((hok.prod idx hw hsess).1.symm.trans hunprep) nofun

lemma CmdNode.Side.prepare (h : n.Side cap peerCap peer toward) (hpeer : peer.Own peerCap)
    (hphases : n.phases = 2) (hfailed : n.failed = false) (hin : peer.outInfo = some input) :
    (n.prepare env input).Side cap peerCap peer toward := by
  have hunprep := h.own.unprep hphases.le hfailed
  have hmove := CmdRings.prep_move env input.2 n.rings
  unfold CmdNode.prepare
  cases hprep : n.rings.prep env input.2 with
  | mk _ rings =>
    rw [hprep] at hmove
    cases hmove with
    | same => exact h.fail
    | cleared _ hcap hzero hkeep =>
      have hoff : rings.isCmdPrep = false := hkeep.trans hunprep
      refine CmdNode.Side.fail ⟨{ h.own with
        sendCap := hcap.trans h.own.sendCap, unused := fun _ => hzero, prep :=
          ?_, unprep := fun _ _ => hoff
        noInfo := fun _ => h.own.noInfo hunprep, bound := fun hp =>
          absurd (hp.symm.trans hoff) nofun
        outPrep := ?_ },
          { h.took with recvCap := fun hp => absurd (hp.symm.trans hoff) nofun, fresh := ?_ },
        fun f hf => ?_⟩
      · intro hle
        dsimp only at hle
        omega
      · intro o ho
        exact (h.own.outPrep o ho).imp_right fun hp hsess => hkeep.trans (hp hsess)
      · intro hinfo
        rw [h.own.noInfo hunprep] at hinfo
        cases hinfo
      · exact (h.flights f hf).keep ⟨rfl, fun hp => hkeep.trans hp, id, id⟩ rfl
    | done hcap hown hprep' hbound hrecvCap hrecvCons hrecvProd =>
      dsimp only
      unfold CmdNode.finish CmdNode.fail
      split
      · exact h.prepared hpeer hphases.le hfailed hin hcap hown hprep' hbound
          hrecvCap hrecvCons hrecvProd _
          fun _ => rfl
      · exact h.prepared hpeer hphases.le hfailed hin hcap hown hprep' hbound
          hrecvCap hrecvCons hrecvProd _
          fun hle => absurd hle (by dsimp only; omega)

lemma CmdNode.Side.learn (h : n.Side cap peerCap peer toward) (hpeer : peer.Own peerCap)
    (hphases : n.phases = 3) {input : Nat × CmdHelloPrep} (hin : peer.outPrep = some input) :
    (n.learn env input).Side cap peerCap peer toward := by
  obtain ⟨hle, hcur⟩ := hpeer.outPrep input hin
  have hunused := h.own.unused_of_lt (by omega)
  unfold CmdNode.learn CmdRings.helloDone
  cases env.map with
  | some => exact h.fail
  | none =>
    refine CmdNode.Side.finish ⟨{ h.own with },
      { h.took with prep_le := ?_, prep := ?_, enabled := ?_ },
      fun f hf => (h.flights f hf).keep ⟨rfl, id, id, id⟩ rfl⟩ ?_ ?_
    · rintro sess ⟨⟩
      exact hle
    · exact fun hsess => hcur (Option.some.inj hsess)
    · exact fun hu => absurd (hu.symm.trans hunused) nofun
    · exact hphases ▸ (by omega)
    · exact hphases ▸ (by omega)

lemma CmdNode.Side.hello (h : n.Side cap peerCap peer toward) (hpeer : peer.Own peerCap)
    (hlt : n.phases < 4) (hfailed : n.failed = false) :
    (n.hello env peer).Side cap peerCap peer toward := by
  unfold CmdNode.hello
  split
  · exact h.fail
  · split
    next h0 => exact h.finish hlt (by omega)
    next h1 => exact (h.announce hlt).finish hlt (by change n.phases ≠ 2; omega)
    next h2 =>
      split
      · exact h.fail
      next input hin => exact h.prepare hpeer h2 hfailed hin
    next h3 =>
      split
      · exact h.fail
      next input hin => exact h.learn hpeer h3 hin
    · exact h.fail

lemma CmdNode.Onward.finish (h : n.Onward n') (hlt : n.phases < 4) : n.Onward (n'.finish env) := by
  unfold CmdNode.finish
  split
  · exact { h with }
  · exact { h with phases := fun h4 => absurd h4 hlt.ne }

lemma CmdNode.prepare_onward (hlt : n.phases < 4) (input : Nat × CmdHelloInfo) : n.Onward
    (n.prepare env input) := by
  have hmove := CmdRings.prep_move env input.2 n.rings
  unfold CmdNode.prepare
  cases hprep : n.rings.prep env input.2 with
  | mk =>
    rw [hprep] at hmove
    cases hmove with
    | same => exact ⟨rfl, id, id, id⟩
    | cleared _ _ _ hkeep => exact ⟨rfl, fun hp => hkeep.trans hp, id, id⟩
    | done _ _ hprep' => exact .finish ⟨rfl, fun _ => hprep', id, id⟩ hlt

lemma CmdNode.learn_onward (hlt : n.phases < 4) (input : Nat × CmdHelloPrep) : n.Onward
    (n.learn env input) := by
  unfold CmdNode.learn CmdRings.helloDone
  cases env.map with
  | some => exact ⟨rfl, id, id, id⟩
  | none => exact .finish ⟨rfl, id, id, id⟩ hlt

lemma CmdNode.hello_onward (hlt : n.phases < 4) (env : HelloEnv) (peer : CmdNode) :
    n.Onward (n.hello env peer) := by
  have hfail : n.Onward n.fail := ⟨rfl, id, id, id⟩
  unfold CmdNode.hello
  split
  · exact hfail
  · split
    · exact .finish ⟨rfl, id, id, id⟩ hlt
    · exact .finish ⟨rfl, id, id, id⟩ hlt
    · split
      · exact hfail
      · exact prepare_onward hlt _
    · split
      · exact hfail
      · exact learn_onward hlt _
    · exact hfail

lemma CmdNode.hello_used (n : CmdNode) (env : HelloEnv) (peer : CmdNode) :
    (n.hello env peer).used = n.used := by
  unfold CmdNode.hello CmdNode.announce CmdNode.prepare CmdNode.learn CmdNode.finish CmdNode.fail
  repeat' split
  all_goals rfl

/-! ### The other steps -/

lemma CmdRings.undone_eq (r : CmdRings) : r.undone.isCmdPrep = r.isCmdPrep ∧
    r.undone.sendCap = r.sendCap ∧
    r.undone.prod = r.prod ∧ r.undone.cmpl = r.cmpl ∧ r.undone.cons = r.cons := by
  unfold CmdRings.undone
  split <;> exact ⟨rfl, rfl, rfl, rfl, rfl⟩

lemma CmdRings.reset_spec (r : CmdRings)
    (h : r.isCmdPrep = false → r.prod = 0 ∧ r.cmpl = 0 ∧ r.cons = 0) :
    r.reset.isCmdPrep = false ∧ r.reset.sendCap = r.sendCap ∧
      r.reset.prod = 0 ∧ r.reset.cmpl = 0 ∧ r.reset.cons = 0 := by
  obtain ⟨hprep, hcap, hprod, hcmpl, hcons⟩ := r.undone_eq
  unfold CmdRings.reset CmdRings.unprep
  split
  next hoff =>
    rw [Bool.not_eq_true'] at hoff
    rw [hcap, hprod, hcmpl, hcons]
    exact ⟨hoff, rfl, h (hprep ▸ hoff)⟩
  next hon => exact ⟨rfl, hcap, rfl, rfl, rfl⟩

lemma CmdNode.Own.unused_of_unprep (h : n.Own cap) (hprep : n.rings.isCmdPrep = false) :
    n.used = false := by
  by_contra hne
  have hphases := h.used (eq_true_of_ne_false hne)
  exact absurd (hprep.symm.trans (h.prep (by omega))) nofun

lemma CmdNode.Side.reset (h : n.Side cap peerCap peer toward) (hready : n.ready = false) :
    n.reset.Side cap peerCap peer toward := by
  obtain ⟨hoff, hcap, hzero⟩ := n.rings.reset_spec fun hp =>
    h.own.unused (h.own.unused_of_unprep hp)
  have hold {sess : Nat} (hle : sess ≤ n.resets) : sess ≠ n.reset.resets :=
    (Nat.lt_succ_of_le hle).ne
  refine ⟨⟨hcap.trans h.own.sendCap, fun _ => hzero, nofun, fun hr =>
    absurd (hr.symm.trans hready) nofun, ?_,
    fun _ _ => hoff, fun _ => rfl, fun hp => absurd (hp.symm.trans hoff) nofun,
      fun o ho => ?_, fun o ho => ?_⟩,
    ⟨nofun, nofun, nofun, fun hp => absurd (hp.symm.trans hoff) nofun,
      nofun, nofun⟩, fun f hf => ?_⟩
  · exact fun hle => absurd hle (by change ¬ 3 ≤ 0; omega)
  · obtain ⟨hle, hinfo⟩ := h.own.outInfo o ho
    exact ⟨Nat.le_succ_of_le hle, hinfo⟩
  · have hle := (h.own.outPrep o ho).1
    exact ⟨Nat.le_succ_of_le hle, fun hcur => absurd hcur (hold hle)⟩
  · have hle := (h.flights f hf).le
    exact ⟨Nat.le_succ_of_le hle, fun _ _ hcur => absurd hcur (hold hle),
      fun _ _ hcur => absurd hcur (hold hle)⟩

lemma CmdNode.Side.peer_reset (h : peer.Side peerCap cap n toward) :
    peer.Side peerCap cap n.reset toward := by
  have hold {o : Option Nat} (hle : ∀ sess ∈ o, sess ≤ n.resets) :
    o ≠ some n.reset.resets := fun ho =>
    absurd (hle _ ho) (Nat.not_succ_le_self _)
  refine ⟨h.own, ⟨fun sess hs => ?_, fun sess hs => ?_, fun hs => ?_, h.took.recvCap,
    fun hs => ?_, fun _ hs => ?_⟩,
    fun f hf => ?_⟩
  · exact Nat.le_succ_of_le (h.took.info_le sess hs)
  · exact Nat.le_succ_of_le (h.took.prep_le sess hs)
  · exact absurd hs (hold h.took.prep_le)
  · exact absurd hs (hold h.took.info_le)
  · exact absurd hs (hold h.took.prep_le)
  · have hok := h.flights f hf
    refine ⟨hok.le, fun idx hw hsess => ⟨(hok.prod idx hw hsess).1, fun hs => ?_⟩, hok.cons⟩
    exact absurd hs (hold h.took.info_le)

lemma CmdNode.Side.deliver (h : n.Side cap peerCap peer toward) (hok : f.Ok n peer)
    (hsess : f.sess = n.resets) : (n.deliver f.write).Side cap peerCap peer toward := by
  cases hw : f.write with
  | prod idx =>
    obtain ⟨-, hused⟩ := hok.prod idx hw hsess
    refine ⟨{ h.own with }, { h.took with fresh := fun hinfo hpeer => ?_ },
      fun f hf => (h.flights f hf).keep ⟨rfl, id, id, id⟩ rfl⟩
    exact absurd (hpeer.symm.trans (hused hinfo)) nofun
  | cons idx =>
    have hused := hok.cons idx hw hsess
    exact ⟨{ h.own with unused := fun hu => absurd (hu.symm.trans hused) nofun }, { h.took with },
      fun f hf => (h.flights f hf).keep ⟨rfl, id, id, id⟩ rfl⟩

lemma CmdNode.Side.work (h : n.Side cap peerCap peer toward) (hready : n.ready = true)
    (hcap : r.sendCap = n.rings.sendCap) (hprep : r.isCmdPrep = n.rings.isCmdPrep)
    (hrecvCap : r.recvCap = n.rings.recvCap)
    (hfresh : n.infoSess = some peer.resets → peer.used = false → r.recvCons = 0 ∧ r.recvProd = 0) :
    CmdNode.Side cap peerCap { n with rings := r } peer toward := by
  have hused := h.own.ready hready
  refine ⟨⟨hcap.trans h.own.sendCap, fun hu =>
    absurd (hu.symm.trans hused) nofun, h.own.used, h.own.ready,
    fun hp => hprep.trans (h.own.prep hp), fun hp hf => hprep.trans (h.own.unprep hp hf),
    fun hp => h.own.noInfo (hprep.symm.trans hp), fun hp => ?_, h.own.outInfo, fun o ho => ?_⟩,
    { h.took with recvCap := fun hp => ?_, fresh := hfresh }, fun f hf => ?_⟩
  · rw [hrecvCap]
    exact h.own.bound (hprep.symm.trans hp)
  · exact (h.own.outPrep o ho).imp_right fun hp hs => hprep.trans (hp hs)
  · exact hrecvCap.trans (h.took.recvCap (hprep.symm.trans hp))
  · exact (h.flights f hf).keep ⟨rfl, fun hp => hprep.trans hp, id, id⟩ rfl

lemma CmdNode.Side.send (h : peer.Side peerCap cap n toward) (hf : f.Ok peer n) :
    peer.Side peerCap cap n (toward ++ [f]) := by
  refine ⟨h.own, h.took, fun g hg => ?_⟩
  rcases List.mem_append.mp hg with hg | hg
  · exact h.flights g hg
  · rwa [List.mem_singleton.mp hg]

lemma SessAct.act_side {a : SessAct} {own sent out : List IdxFlight}
    (h : n.Side cap peerCap peer toward) (hp : peer.Side peerCap cap n out)
    (hact : a.act peer n toward = some (n', own, sent)) :
    n'.Side cap peerCap peer own ∧ peer.Side peerCap cap n' (out ++ sent) := by
  cases a with
  | hello env =>
    simp only [SessAct.act] at hact
    split at hact <;> cases hact
    next hgo =>
      rw [not_or, Bool.not_eq_true, Nat.not_le] at hgo
      rw [List.append_nil]
      exact ⟨h.hello hp.own hgo.2 hgo.1, hp.onward (CmdNode.hello_onward hgo.2 env peer)⟩
  | enable =>
    simp only [SessAct.act] at hact
    split at hact <;> cases hact
    next hgo =>
      simp only [not_or, not_not] at hgo
      have hon : n.Onward { n with ready := true, used := true } := ⟨rfl, id, fun _ => rfl, id⟩
      rw [List.append_nil]
      refine ⟨⟨{ h.own with unused := nofun, used := fun _ => hgo.2.2.1, ready := fun _ => rfl },
        { h.took with enabled := fun _ _ => hgo.2.2.2 }, fun f hf =>
          (h.flights f hf).keep hon rfl⟩, hp.onward hon⟩
  | disable =>
    cases hact
    have hon : n.Onward { n with ready := false } := ⟨rfl, id, id, id⟩
    rw [List.append_nil]
    exact ⟨⟨{ h.own with ready := nofun }, { h.took with }, fun f hf =>
      (h.flights f hf).keep hon rfl⟩, hp.onward hon⟩
  | reset =>
    simp only [SessAct.act] at hact
    split at hact <;> cases hact
    next hready =>
      rw [List.append_nil]
      exact ⟨h.reset (eq_false_of_ne_true hready), hp.peer_reset⟩
  | sendWork =>
    simp only [SessAct.act] at hact
    split at hact <;> cases hact
    next sess hready hsess =>
      refine ⟨h.work hready rfl rfl rfl h.took.fresh,
        .send ?_ ⟨?_, ?_, fun _ hw => absurd hw nofun⟩⟩
      · exact hp.onward ⟨rfl, id, id, id⟩
      · exact h.took.prep_le sess hsess
      · rintro idx - rfl
        exact ⟨h.took.prep hsess, fun _ => h.own.ready hready⟩
  | recvWork =>
    simp only [SessAct.act] at hact
    split at hact
    next sess hready hsess =>
      split at hact <;> cases hact
      next hne =>
        -- the ring for a peer that is not enabled yet is empty
        have hused (hcur : n.infoSess = some peer.resets) : peer.used = true := by
          by_contra hpeer
          obtain ⟨hcons, hprod⟩ := h.took.fresh hcur (eq_false_of_ne_true hpeer)
          exact hne (hprod.trans hcons.symm)
        refine ⟨h.work hready rfl rfl rfl fun hcur hpeer => ?_,
          .send ?_ ⟨?_, fun _ hw => absurd hw nofun, ?_⟩⟩
        · exact absurd (hpeer.symm.trans (hused hcur)) nofun
        · exact hp.onward ⟨rfl, id, id, id⟩
        · exact h.took.info_le sess hsess
        · rintro idx - rfl
          exact hused hsess
    · cases hact
  | land =>
    simp only [SessAct.act] at hact
    split at hact
    · cases hact
    next f hf =>
      split at hact <;> cases hact
      next hsess =>
        have hside := h.deliver (h.flights f (List.mem_of_getElem? hf)) hsess
        have hon : n.Onward (n.deliver f.write) := by cases f.write <;> exact ⟨rfl, id, id, id⟩
        rw [List.append_nil]
        exact ⟨⟨hside.own, hside.took, fun g hg => hside.flights g (List.mem_of_mem_eraseIdx hg)⟩,
          hp.onward hon⟩

end

/-! ## Every session -/

namespace CmdSess

def Inv (caps : Bool → UInt32) (s : CmdSess) : Prop :=
  ∀ x, (s.node x).Side (caps x) (caps !x) (s.node !x) (s.toward x)

section
variable {caps : Bool → UInt32} {s t : CmdSess} {x : Bool} {a : SessAct}

lemma Inv.step (h : s.Inv caps) (hstep : s.Step (x, a) t) : t.Inv caps := by
  obtain ⟨⟨n, own, sent⟩, hact, rfl⟩ := Option.map_eq_some_iff.mp hstep
  have hpeer := h !x
  rw [Bool.not_not] at hpeer
  obtain ⟨hside, hpeer'⟩ := SessAct.act_side (h x) hpeer hact
  intro y
  by_cases hy : y = x
  · subst hy
    simpa using hside
  · obtain rfl : y = !x := Bool.eq_not_of_ne hy
    simpa using hpeer'

lemma Inv.start (caps sendVbell recvVbell : Bool → UInt32) (rspBufDesc : Bool → RemoteBufDesc) :
    (start caps sendVbell recvVbell rspBufDesc).Inv caps := fun x => by
  exact ⟨⟨rfl, fun _ => ⟨rfl, rfl, rfl⟩, nofun, nofun, fun hle =>
    absurd hle (Nat.not_succ_le_zero 2),
    fun _ _ => rfl, fun _ => rfl, nofun, nofun, nofun⟩,
      ⟨nofun, nofun, nofun, nofun, nofun, nofun⟩, nofun⟩

lemma Inv.unused {env : HelloEnv} (h : s.Inv caps) (hstep : s.Step (x, .hello env) t)
    (hdone : t.HelloComplete) (y : Bool) : (t.node y).used = false := by
  obtain ⟨⟨n, own, sent⟩, hact, rfl⟩ := Option.map_eq_some_iff.mp hstep
  simp only [SessAct.act] at hact
  split at hact <;> cases hact
  next hgo =>
    rw [not_or, Nat.not_le] at hgo
    by_cases hy : y = x
    · simp only [hy, if_true, CmdNode.hello_used]
      exact (h x).own.unused_of_lt hgo.2
    · obtain rfl : y = !x := Bool.eq_not_of_ne hy
      have hprep := hdone.prep !x
      have hpeer := (h !x).took.enabled
      simp only [Bool.not_not, if_true, Bool.not_eq_self, if_false,
        (CmdNode.hello_onward hgo.2 env (s.node !x)).resets] at hprep hpeer ⊢
      by_contra hused
      exact hgo.2.ne (hpeer (eq_true_of_ne_false hused) hprep)

lemma Inv.agree (h : t.Inv caps) (hdone : t.HelloComplete) (hunused : ∀ y, (t.node y).used = false)
    (y : Bool) : CmdRings.Agree (t.node y).rings (t.node !y).rings ∧ (t.node y).rings.prod = 0 := by
  obtain ⟨hprod, hcmpl, hcons⟩ := (h y).own.unused (hunused y)
  have hpeer := h !y
  have hinfo := hdone.info !y
  rw [Bool.not_not] at hpeer hinfo
  obtain ⟨hrecvCons, hrecvProd⟩ := hpeer.took.fresh hinfo (hunused y)
  have hprep := hpeer.own.prep (by rw [hdone.phases]; omega)
  refine ⟨⟨hcmpl.trans hprod.symm, hcons.trans hprod.symm, hrecvCons.trans hprod.symm,
    hrecvProd.trans hprod.symm, ?_⟩, hprod⟩
  rw [hpeer.took.recvCap hprep, (h y).own.sendCap]

lemma between_eq_start {send recv : CmdRings} (h : CmdRings.Agree send recv) (hprod : send.prod = 0)
    (buf recvBuf : Nat → Cmd) (rspBuf recvRspBuf : Nat → Rsp) (dev : CmdDev) :
    CmdSys.between send recv buf recvBuf rspBuf recvRspBuf dev =
      .start send.sendCap buf recvBuf rspBuf recvRspBuf dev := by
  rw [CmdSys.between, CmdSys.start, h.cmpl, h.cons, h.recvCons, h.recvProd, h.cap, hprod]

/-- When the hello is complete on both sides, the ring of each host and the one that the other set
up for it agree, and commands are handled in the order in which they were prepared. -/
theorem cmdRings_agree {sendVbell recvVbell : Bool → UInt32} {rspBufDesc : Bool → RemoteBufDesc}
    {env : HelloEnv} (hrun : Reaches Step (start caps sendVbell recvVbell rspBufDesc) s)
    (hstep : s.Step (x, .hello env) t) (hdone : t.HelloComplete) (y : Bool) :
    CmdRings.Agree (t.node y).rings (t.node !y).rings ∧
      (0 < (t.node y).rings.sendCap → ∀ buf recvBuf rspBuf recvRspBuf dev u,
        Reaches cmdStep (.between (t.node y).rings (t.node !y).rings buf recvBuf
          rspBuf recvRspBuf dev) u →
        u.recv.Faithful (sndAt u.send.prepared)) := by
  have hs : s.Inv caps := hrun.invariant (I := Inv caps)
    (Inv.start caps sendVbell recvVbell rspBufDesc)
    fun _ a _ h hst => h.step (x := a.1) hst
  have ht := hs.step hstep
  obtain ⟨hagree, hprod⟩ := ht.agree hdone (hs.unused hstep hdone) y
  refine ⟨hagree, fun hpos buf recvBuf rspBuf recvRspBuf dev u hu => ?_⟩
  have hbound := (ht !y).own.bound ((ht !y).own.prep (by rw [hdone.phases]; omega))
  rw [hagree.cap, UInt32.le_iff_toNat_le] at hbound
  have hcap : Cap (t.node y).rings.sendCap :=
    ⟨UInt32.lt_iff_toNat_lt.mp hpos, by have : maxCmds.toNat = 16 := rfl; omega⟩
  rw [between_eq_start hagree hprod] at hu
  exact (hu.invariant (I := CmdSys.Inv) (.start hcap buf recvBuf rspBuf recvRspBuf dev)
    fun _ _ _ h hst => h.step hst).faithful

end

instance (s : CmdSess) : Decidable s.HelloComplete :=
  decidable_of_iff ((∀ x, (s.node x).phases = 4) ∧
    (∀ x, (s.node x).infoSess = some (s.node !x).resets) ∧
      ∀ x, (s.node x).prepSess = some (s.node !x).resets)
    ⟨fun h => ⟨h.1, h.2.1, h.2.2⟩, fun h => ⟨h.phases, h.info, h.prep⟩⟩

def helloOk : SessAct := .hello ⟨false, false, none, none, none, ⟨0, 0⟩⟩

def phases (k : Nat) : List (Bool × SessAct) :=
  (List.replicate k [(false, helloOk), (true, helloOk)]).flatten

/-- A command is under way at the first reset, the second hello fails, and the third lacks its last
phase. -/
def thirdSession : List (Bool × SessAct) :=
  phases 4 ++ [(false, .enable), (true, .enable), (false, .sendWork 3 0),
    (true, .land 0), (true, .recvWork 3),
    (false, .land 0), (false, .sendWork 4 3), (false, .disable), (true, .disable),
      (true, .reset), (false, .reset)] ++
  phases 2 ++ [(false, helloOk), (true, .hello ⟨false, false, none, none, some .enomem, ⟨0, 0⟩⟩),
    (false, .reset), (true, .reset)] ++ phases 3 ++ [(false, helloOk)]

theorem cmdRings_agree_third : ∃ s t, Reaches Step
    (start (fun _ => 16) (fun _ => 1) (fun _ => 2) fun _ => ⟨0, 0⟩) s ∧
    s.Step (true, helloOk) t ∧ t.HelloComplete ∧ (t.node true).resets = 2 ∧
    CmdRings.Agree (t.node false).rings (t.node true).rings := by
  obtain ⟨s, hs, hp⟩ := Reaches.exists_of_foldlM
    (s := start (fun _ => 16) (fun _ => 1) (fun _ => 2) fun _ => ⟨0, 0⟩)
    (p := fun s => (s.apply (true, helloOk)).any fun t =>
      t.HelloComplete ∧ (t.node true).resets = 2)
    thirdSession (fun s a t (h : s.apply a = some t) => (h : s.Step a t)) (by decide +kernel)
  obtain ⟨t, ht, hdone⟩ := (Option.any_eq_true ..).mp hp
  rw [decide_eq_true_eq] at hdone
  exact ⟨s, t, hs, ht, hdone.1, hdone.2, (cmdRings_agree hs ht hdone.1 false).1⟩

end CmdSess

end Ntrdma
