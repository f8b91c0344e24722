import Ntrdma.Cmd.Pairing
import Ntrdma.Cmd.QpCreate
import Ntrdma.Qp.Poll

/-!
# Ring indices that the peer writes

Three loops of the driver consume a ring up to an index that the peer writes into the memory of the
host: `ntrdma_cmd_recv_work` (the producer of the commands), `ntrdma_rqp_send_work` (the producer of
the sends) and the poll of the completed sends (the consumer of the sends). Nothing validates the
word that is read. This module follows which slots a call touches for any word, and says for which
words a call stays in its ring.

`ntrdma_ring_consume` gives an end beyond the capacity for a word above `2 * cap` found from the
upper half, and an end before the start for a word that moved backwards within the half of the own
index. The commands are gone over with `pos < end`, which stops at once in the second case; the
other two loops stop at `pos == end`, and go through the whole address space.
-/

namespace Ntrdma
open Lib Ntrdma.Ring

/-! ## The slots that a call touches -/

/-- The positions at which the loop of `ntrdma_cmd_recv_work` handles a command. -/
def recvSlots : Nat → UInt32 → List UInt32
  | 0, _ => []
  | n + 1, pos => pos :: recvSlots n (pos + 1)

/-- The slots of the command ring that a call of `ntrdma_cmd_recv_work` touches. -/
def cmdRecvSlots (s : CmdRecv) : List UInt32 :=
  let r := consume s.prod s.cons s.cap
  recvSlots (r.stop.toNat - r.pos.toNat) r.pos

def rqpWorkSlots (dev : Dev) (stop : UInt32) : Nat → RqpLoop → List UInt32
  | 0, _ => []
  | n + 1, s =>
    s.pos :: match rqpWorkRound dev s with
      | (false, _) => []
      | (true, s) => if s.pos = stop then [] else rqpWorkSlots dev stop n s

def rqpSendSlots (dev : Dev) (batch : UInt32) (qp : Qp) (rqp : Rqp) (mem : UInt64 → UInt8) :
    List UInt32 :=
  if !isStateSendReady rqp.state then []
  else
    let r := rqp.sendConsGet
    if r.pos = r.stop then []
    else if !isStateRecvReady qp.state then []
    else
      let stop := batchStop batch r
      rqpWorkSlots dev stop (stop - r.pos).toNat ⟨r.pos, qp.recvConsGet, qp, rqp, mem, false, none⟩

def pollSlots (ops : PollOps) (stop : UInt32) : Nat → Nat → UInt32 → Qp → Cqe → List UInt32
  | 0, _, _, _, _ => []
  | n + 1, room, pos, qp, cqe =>
    let (cqe, qp) := ops.pollCqe qp pos cqe
    let out := if cqeReported cqe then [cqe] else []
    pos :: if out.length = room ∨ pos + 1 = stop then []
      else pollSlots ops stop n (room - out.length) (pos + 1) qp cqe

def pollBatchSlots (ops : PollOps) (room : Nat) (qp : Qp) (cqe : Cqe) : List UInt32 :=
  match ops.pollStartAndGet qp with
  | (.error _, _) => []
  | (.ok r, qp) => pollSlots ops r.stop (r.stop - r.pos).toNat room r.pos qp cqe

/-- The slots are those of the ring, each at most once, and so is the index that is left behind. -/
structure InRing (cap : UInt32) (slots : List UInt32) (own : UInt32) : Prop where
  slot : ∀ pos ∈ slots, pos < cap
  count : slots.length ≤ cap.toNat
  below : Below cap own

inductive Consumer where
  | cmdRecv
  | rqpSend
  | sendPoll
  deriving DecidableEq, Repr

/-- A call with an own index and the word of the peer, the slots it touches and the index it leaves.
In abort the poll goes by the posting index. -/
inductive Consumer.Calls (cap own word : UInt32) : Consumer → List UInt32 → UInt32 → Prop where
  | cmdRecv (env : Nat → RecvEnv) (s : CmdRecv) (hcap : s.cap = cap) (hown : s.cons = own)
      (hword : s.prod = word) : Calls cap own word .cmdRecv (cmdRecvSlots s)
        (cmdRecvWork env s).1.cons
  | rqpSend (dev : Dev) (qp : Qp) (rqp : Rqp) (mem : UInt64 → UInt8) (chan : Chan)
    (hcap : rqp.sendCap = cap)
      (hown : rqp.sendCons = own) (hword : rqp.sendProd = word) :
    Calls cap own word .rqpSend (rqpSendSlots dev qpBatchSize qp rqp mem)
      (rqpSendWork dev qpBatchSize qp rqp mem chan).rqp.sendCons
  | sendPoll (room : Nat) (qp : Qp) (cqe : Cqe) (M P : Nat) (hcap : qp.sendCap = cap)
      (hown : qp.sendCmpl = own) (hword : qp.sendCons = word) (hcmpl : Idx cap own M)
      (hpost : Idx cap qp.sendPost P) (hle : M ≤ P) (hfull : P ≤ M + cap.toNat) :
    Calls cap own word .sendPoll (pollBatchSlots Ntrdma.sendPoll room qp cqe)
      (pollBatch Ntrdma.sendPoll room qp cqe).2.sendCmpl

def Consumer.Safe (cap own word : UInt32) : Consumer → Prop
  | cmdRecv => own < cap ∨ word.toNat ≤ 2 * cap.toNat
  | _ => if own < cap then own ≤ word
    else word < cap ∨ own ≤ word ∧
      (word.toNat ≤ 2 * cap.toNat ∨ own.toNat + qpBatchSize.toNat ≤ 2 * cap.toNat)

/-! ## Positions one after another -/

inductive Visits : UInt32 → List UInt32 → UInt32 → Prop where
  | nil (pos : UInt32) : Visits pos [] pos
  | cons {pos stop : UInt32} {slots : List UInt32} : Visits (pos + 1) slots stop →
    Visits pos (pos :: slots) stop

section
variable {cap own word pos stop : UInt32} {slots : List UInt32}

lemma succ_toNat_of_lt (h : pos.toNat < cap.toNat) : (pos + 1).toNat = pos.toNat + 1 := by
  have hlt := cap.toNat_lt
  exact toNat_succ (by omega)

lemma Visits.stop_eq (h : Visits pos slots stop) (hfit : pos.toNat + slots.length ≤ cap.toNat) :
    stop.toNat = pos.toNat + slots.length := by
  induction h with
  | nil => rfl
  | cons _ ih =>
    rw [List.length_cons] at hfit ⊢
    rename_i pos stop slots _
    have hsucc : (pos + 1).toNat = pos.toNat + 1 :=
      succ_toNat_of_lt (show pos.toNat < cap.toNat by omega)
    omega

lemma Visits.slot_lt (h : Visits pos slots stop) (hfit : pos.toNat + slots.length ≤ cap.toNat) :
    ∀ p ∈ slots, p < cap := by
  induction h with
  | nil => exact nofun
  | cons _ ih =>
    rename_i pos stop slots _
    rw [List.length_cons] at hfit
    have hlt : pos.toNat < cap.toNat := by omega
    have hsucc := succ_toNat_of_lt hlt
    intro p hp
    obtain rfl | hp := List.mem_cons.mp hp
    · exact UInt32.lt_iff_toNat_lt.mpr hlt
    · exact ih (by omega) p hp

lemma Visits.escapes (h : Visits pos slots stop) (hle : pos.toNat ≤ cap.toNat)
    (hlong : cap.toNat < pos.toNat + slots.length) : cap ∈ slots := by
  induction h with
  | nil => exact absurd hlong (by simpa using hle)
  | cons _ ih =>
    rename_i pos stop slots _
    rw [List.length_cons] at hlong
    by_cases heq : pos = cap
    · rw [heq]
      exact List.mem_cons_self ..
    · have hlt : pos.toNat < cap.toNat := lt_of_le_of_ne hle fun h => heq (UInt32.toNat_inj.mp h)
      have hsucc := succ_toNat_of_lt hlt
      exact List.mem_cons_of_mem _ (ih (by omega) (by omega))

lemma Visits.inRing {base : UInt32} (h : Visits pos slots stop) (hc : Cap cap)
    (hbase : base = 0 ∨ base = cap) (hfit : pos.toNat + slots.length ≤ cap.toNat) :
    InRing cap slots (update stop base cap) := by
  have hstop := h.stop_eq hfit
  exact ⟨h.slot_lt hfit, by omega, update_below hc hbase (by omega)⟩

lemma Visits.not_inRing (h : Visits pos slots stop) (hle : pos.toNat ≤ cap.toNat)
    (hlong : cap.toNat < pos.toNat + slots.length) : ¬ InRing cap slots own := fun hin =>
  absurd (hin.slot cap (h.escapes hle hlong)) (UInt32.lt_irrefl cap)

lemma InRing.nil (h : Below cap own) : InRing cap [] own := ⟨nofun, Nat.zero_le _, h⟩

/-! ## The range that is opened -/

lemma consume_start (word : UInt32) (hown : Below cap own) :
    (consume word own cap).pos.toNat < cap.toNat ∧
      ((consume word own cap).base = 0 ∨ (consume word own cap).base = cap) := by
  simp only [Below] at hown
  simp only [consume]
  split <;> rename_i h
  · exact ⟨UInt32.lt_iff_toNat_lt.mp h, .inl rfl⟩
  · rw [UInt32.not_lt] at h
    refine ⟨?_, .inr rfl⟩
    rw [UInt32.toNat_sub_of_le _ _ h]
    omega

lemma cmdRecv_safe_iff :
    Consumer.cmdRecv.Safe cap own word ↔ (consume word own cap).stop.toNat ≤ cap.toNat := by
  simp only [Consumer.Safe, consume]
  by_cases hown : own < cap
  · simp only [hown, true_or, if_true, true_iff]
    split
    next hword => exact (UInt32.lt_iff_toNat_lt.mp hword).le
    next => exact le_rfl
  · simp only [hown, false_or, if_false]
    split
    next hword =>
      rw [UInt32.lt_iff_toNat_lt] at hword
      exact ⟨fun _ => le_rfl, fun _ => by omega⟩
    next hword =>
      rw [UInt32.not_lt] at hword
      rw [UInt32.toNat_sub_of_le _ _ hword]
      omega

def BatchInRing (cap : UInt32) (r : Range) : Prop :=
  r.pos.toNat ≤ (batchStop qpBatchSize r).toNat ∧ (batchStop qpBatchSize r).toNat ≤ cap.toNat

lemma batch_safe_iff {c : Consumer} (hne : c ≠ .cmdRecv) (hc : Cap cap) (hown : Below cap own) :
    c.Safe cap own word ↔ BatchInRing cap (consume word own cap) := by
  have hsafe : c.Safe cap own word ↔ Consumer.rqpSend.Safe cap own word := by
    cases c
    case cmdRecv => exact absurd rfl hne
    all_goals exact Iff.rfl
  have hstart := (consume_start word hown).1
  have h32 := hc.lt
  have hbatch : qpBatchSize.toNat = 16 := rfl
  rw [hsafe, BatchInRing, batchStop_eq (show _ < 2 ^ 32 by omega), hbatch]
  simp only [Below] at hown
  simp only [Consumer.Safe, consume, hbatch]
  by_cases hhalf : own < cap
  · have hlt := UInt32.lt_iff_toNat_lt.mp hhalf
    simp only [hhalf, if_true]
    rw [UInt32.le_iff_toNat_le]
    split
    next hword =>
      rw [UInt32.lt_iff_toNat_lt] at hword
      omega
    next hword =>
      rw [UInt32.lt_iff_toNat_lt] at hword
      omega
  · have hle := UInt32.not_lt.mp hhalf
    simp only [hhalf, if_false]
    rw [UInt32.toNat_sub_of_le _ _ hle]
    rw [UInt32.le_iff_toNat_le] at hle
    by_cases hword : word < cap
    · simp only [hword, true_or, if_true, true_iff]
      omega
    · have hge := UInt32.not_lt.mp hword
      simp only [hword, false_or, if_false]
      rw [UInt32.toNat_sub_of_le _ _ hge, UInt32.le_iff_toNat_le]
      rw [UInt32.le_iff_toNat_le] at hge
      omega

/-! ## The number of rounds -/

variable {n : Nat}

lemma rounds_succ (h : (stop - pos).toNat = n + 1) : (stop - (pos + 1)).toNat = n := by
  have hpos := pos.toNat_lt
  rw [UInt32.toNat_sub] at h ⊢
  rw [UInt32.toNat_add, UInt32.toNat_one]
  omega

lemma rounds_last (h : (stop - pos).toNat = n + 1) (hlast : pos + 1 = stop) : n = 0 := by
  have hzero := rounds_succ h
  rw [hlast, UInt32.sub_self] at hzero
  exact hzero.symm

variable {r : Range}

lemma rounds_escape (hstart : r.pos.toNat < cap.toNat) (h : ¬ BatchInRing cap r) :
    cap.toNat < r.pos.toNat + (batchStop qpBatchSize r - r.pos).toNat := by
  have hcap := cap.toNat_lt
  have hstop := (batchStop qpBatchSize r).toNat_lt
  rw [BatchInRing, not_and_or] at h
  rw [UInt32.toNat_sub]
  omega

lemma BatchInRing.of_empty (hc : Cap cap) (hstart : r.pos.toNat < cap.toNat) (h : r.pos = r.stop) :
    BatchInRing cap r := by
  have h32 := hc.lt
  have hbatch : qpBatchSize.toNat = 16 := rfl
  rw [BatchInRing, batchStop_eq (show _ < 2 ^ 32 by omega), ← h]
  omega

lemma BatchInRing.of_taking {C P : Nat} (h : Taking cap r C P) : BatchInRing cap r := by
  have h32 := h.hcap.lt
  have hstop := h.stop
  have hle := h.stop_le
  have hbatch : qpBatchSize.toNat = 16 := rfl
  rw [BatchInRing, batchStop_eq (show _ < 2 ^ 32 by omega)]
  omega

lemma BatchInRing.rounds (h : BatchInRing cap r) :
    r.pos.toNat + (batchStop qpBatchSize r - r.pos).toNat ≤ cap.toNat := by
  rw [toNat_sub32 h.1]
  have := h.1
  have := h.2
  omega

end

/-! ## Commands -/

lemma recvSlots_length (n : Nat) (pos : UInt32) : (recvSlots n pos).length = n := by
  induction n generalizing pos with
  | zero => rfl
  | succ _ ih => rw [recvSlots, List.length_cons, ih]

lemma recvSlots_visits (n : Nat) (pos : UInt32) :
    Visits pos (recvSlots n pos) (pos + UInt32.ofNat n) := by
  induction n generalizing pos with
  | zero =>
    rw [recvSlots, show pos + UInt32.ofNat 0 = pos from UInt32.add_zero pos]
    exact .nil pos
  | succ n ih =>
    have hstop : pos + UInt32.ofNat (n + 1) = pos + 1 + UInt32.ofNat n := by
      rw [UInt32.ofNat_add, UInt32.add_comm (UInt32.ofNat n), UInt32.add_assoc]
      rfl
    rw [hstop]
    exact .cons (ih (pos + 1))

lemma recvLoop_slots (env : Nat → RecvEnv) (n : Nat) (pos : UInt32) (s : CmdRecv) :
    (recvLoop env n pos s).answers.map Prod.fst =
      s.answers.map Prod.fst ++ (recvSlots n pos).map fun p => s.buf p.toNat := by
  induction n generalizing pos s with
  | zero => simp [recvLoop, recvSlots]
  | succ _ ih =>
    rw [recvLoop, ih]
    simp [recvSlots, CmdRecv.handle]

lemma cmdRecvWork_slots (env : Nat → RecvEnv) (s : CmdRecv) :
    (cmdRecvWork env s).1.answers.map Prod.fst =
      s.answers.map Prod.fst ++ (cmdRecvSlots s).map fun p => s.buf p.toNat := by
  rw [cmdRecvSlots, ← recvLoop_slots env, cmdRecvWork]
  split <;> rfl

lemma recvLoop_frame (env : Nat → RecvEnv) (n : Nat) (pos : UInt32) (s : CmdRecv) :
    (recvLoop env n pos s).cap = s.cap ∧ (recvLoop env n pos s).cons = s.cons := by
  induction n generalizing pos s with
  | zero => exact ⟨rfl, rfl⟩
  | succ _ ih => exact ih (pos + 1) (s.handle env pos)

section
variable {cap own word : UInt32}

variable {s : CmdRecv}

lemma cmdRecv_inRing (hc : Cap cap) (hown : Below cap own) (env : Nat → RecvEnv)
    (hcap : s.cap = cap) (hcons : s.cons = own) (hprod : s.prod = word)
    (hsafe : (consume word own cap).stop.toNat ≤ cap.toNat) :
    InRing cap (cmdRecvSlots s) (cmdRecvWork env s).1.cons := by
  subst hcap hcons hprod
  obtain ⟨hstart, hbase⟩ := consume_start s.prod hown
  obtain ⟨hframe, hkept⟩ := recvLoop_frame env
    ((consume s.prod s.cons s.cap).stop.toNat - (consume s.prod s.cons s.cap).pos.toNat)
    (consume s.prod s.cons s.cap).pos s
  simp only [cmdRecvSlots, cmdRecvWork]
  generalize consume s.prod s.cons s.cap = r at *
  have hvisits := recvSlots_visits (r.stop.toNat - r.pos.toNat) r.pos
  have hlen := recvSlots_length (r.stop.toNat - r.pos.toNat) r.pos
  have hfit : r.pos.toNat + (recvSlots (r.stop.toNat - r.pos.toNat) r.pos).length ≤
    s.cap.toNat := by omega
  split
  next hne =>
    have hstop : r.pos + UInt32.ofNat (r.stop.toNat - r.pos.toNat) = r.stop := by
      have heq := hvisits.stop_eq hfit
      rw [← UInt32.toNat_inj, heq, hlen]
      omega
    rw [hstop] at hvisits
    rw [hframe]
    exact hvisits.inRing hc hbase hfit
  next hnone =>
    rw [not_not] at hnone
    rw [hkept, hnone]
    exact .nil hown

lemma cmdRecv_escapes (hown : Below cap own) (hcap : s.cap = cap) (hcons : s.cons = own)
    (hprod : s.prod = word) (hescape : ¬ (consume word own cap).stop.toNat ≤ cap.toNat)
    (own' : UInt32) : ¬ InRing cap (cmdRecvSlots s) own' := by
  have hstart := (consume_start word hown).1
  rw [cmdRecvSlots, hcap, hcons, hprod]
  refine (recvSlots_visits _ _).not_inRing hstart.le ?_
  rw [recvSlots_length]
  omega

end

/-! ## Sends of the peer -/

variable {s : RqpLoop}

lemma RqpStep.moves {dev : Dev} {res : Bool × RqpLoop} (h : RqpStep dev s res) :
    res.2.pos = s.pos + 1 ∧ res.2.rqp = { s.rqp with sendCqe := res.2.rqp.sendCqe } := by
  cases h <;> exact ⟨rfl, rfl⟩

lemma rqpWorkLoop_visits (dev : Dev) (stop : UInt32) (n : Nat) (s : RqpLoop) :
    Visits s.pos (rqpWorkSlots dev stop n s) (rqpWorkLoop dev stop n s).pos ∧
      (rqpWorkSlots dev stop n s).length ≤ n ∧
      (rqpWorkLoop dev stop n s).rqp =
        { s.rqp with sendCqe := (rqpWorkLoop dev stop n s).rqp.sendCqe } := by
  induction n generalizing s with
  | zero => exact ⟨.nil _, le_rfl, rfl⟩
  | succ n ih =>
    obtain ⟨hpos, hrqp⟩ := (rqpWorkRound_step dev s).moves
    rw [rqpWorkSlots, rqpWorkLoop]
    generalize rqpWorkRound dev s = res at hpos hrqp
    obtain ⟨going, s'⟩ := res
    cases going with
    | false => exact ⟨.cons (hpos ▸ .nil _), Nat.succ_le_succ (Nat.zero_le n), hrqp⟩
    | true =>
      dsimp only
      split
      · exact ⟨.cons (hpos ▸ .nil _), Nat.succ_le_succ (Nat.zero_le n), hrqp⟩
      · obtain ⟨hvisits, hlen, hrest⟩ := ih s'
        rw [hpos] at hvisits
        exact ⟨.cons hvisits, Nat.succ_le_succ hlen, by rw [hrest, hrqp]⟩

def SendWqe.Plain (wqe : SendWqe) : Prop := wrCodeIsSend wqe.opCode = false ∧ wqe.opStatus = 0

variable {n : Nat}

lemma rqpWorkSlots_length (dev : Dev) {stop : UInt32} (hn : (stop - s.pos).toNat = n)
    (hplain : ∀ p, (s.rqp.sendWqe p).Plain) : (rqpWorkSlots dev stop n s).length = n := by
  induction n generalizing s with
  | zero => rfl
  | succ _ ih =>
    have hstep := rqpWorkRound_step dev s
    obtain ⟨hpos, hrqp⟩ := hstep.moves
    have hround : (rqpWorkRound dev s).1 = true := by
      have hwqe := hplain s.pos.toNat
      simp [rqpWorkRound, hwqe.1, hwqe.2]
    rw [rqpWorkSlots]
    generalize rqpWorkRound dev s = res at hpos hrqp hround
    obtain ⟨going, s'⟩ := res
    subst hround
    dsimp only
    split
    next hlast =>
      rw [hpos] at hlast
      rw [rounds_last hn hlast]
      rfl
    next =>
      have hwqe : s'.rqp.sendWqe = s.rqp.sendWqe := by rw [hrqp]
      rw [List.length_cons, ih (by rw [hpos]; exact rounds_succ hn) (by rw [hwqe]; exact hplain)]

section
variable {cap own word : UInt32}

variable {rqp : Rqp}

lemma rqpSend_inRing (hc : Cap cap) (hown : Below cap own) (dev : Dev) (qp : Qp)
    (mem : UInt64 → UInt8) (chan : Chan) (hcap : rqp.sendCap = cap) (hcons : rqp.sendCons = own)
    (hprod : rqp.sendProd = word) (hsafe : BatchInRing cap (consume word own cap)) :
    InRing cap (rqpSendSlots dev qpBatchSize qp rqp mem)
      (rqpSendWork dev qpBatchSize qp rqp mem chan).rqp.sendCons := by
  subst hcap hcons hprod
  have hbase : rqp.sendConsGet.base = 0 ∨ rqp.sendConsGet.base = rqp.sendCap :=
    (consume_start _ hown).2
  have hrounds : rqp.sendConsGet.pos.toNat +
      (batchStop qpBatchSize rqp.sendConsGet - rqp.sendConsGet.pos).toNat ≤
        rqp.sendCap.toNat := hsafe.rounds
  simp only [rqpSendSlots, rqpSendWork]
  split
  · exact .nil hown
  · split
    · exact .nil hown
    · split
      · exact .nil hown
      · rw [(rqpWorkFinish_spec _ _ _).rqp, Rqp.sendConsPut]
        obtain ⟨hvisits, hlen, hrqp⟩ := rqpWorkLoop_visits dev
          (batchStop qpBatchSize rqp.sendConsGet)
          (batchStop qpBatchSize rqp.sendConsGet - rqp.sendConsGet.pos).toNat
          ⟨rqp.sendConsGet.pos, qp.recvConsGet, qp, rqp, mem, false, none⟩
        rw [hrqp]
        dsimp only at hvisits ⊢
        exact hvisits.inRing hc hbase (by omega)

lemma rqpSend_escapes (hc : Cap cap) (hown : Below cap own) (dev : Dev) {qp : Qp}
    (mem : UInt64 → UInt8) (hcap : rqp.sendCap = cap) (hcons : rqp.sendCons = own)
    (hprod : rqp.sendProd = word) (hsend : isStateSendReady rqp.state = true)
    (hrecv : isStateRecvReady qp.state = true) (hplain : ∀ p, (rqp.sendWqe p).Plain)
    (hescape : ¬ BatchInRing cap (consume word own cap)) (own' : UInt32) :
    ¬ InRing cap (rqpSendSlots dev qpBatchSize qp rqp mem) own' := by
  subst hcap hcons hprod
  have hstart : rqp.sendConsGet.pos.toNat < rqp.sendCap.toNat := (consume_start _ hown).1
  have hne : rqp.sendConsGet.pos ≠ rqp.sendConsGet.stop := fun heq =>
    hescape (.of_empty hc hstart heq)
  simp only [rqpSendSlots, hsend, hrecv, hne, Bool.not_true, Bool.false_eq_true, if_false]
  generalize hs : RqpLoop.mk rqp.sendConsGet.pos qp.recvConsGet qp rqp mem false none = s
  have hpos : s.pos = rqp.sendConsGet.pos := by rw [← hs]
  have hwqe : s.rqp = rqp := by rw [← hs]
  obtain ⟨hvisits, _, _⟩ := rqpWorkLoop_visits dev (batchStop qpBatchSize rqp.sendConsGet)
    (batchStop qpBatchSize rqp.sendConsGet - rqp.sendConsGet.pos).toNat s
  rw [hpos] at hvisits
  refine hvisits.not_inRing hstart.le ?_
  rw [rqpWorkSlots_length dev (by rw [hpos]) (by rw [hwqe]; exact hplain)]
  exact rounds_escape hstart hescape

def plainRqp (cap own word : UInt32) : Rqp :=
    { Rqp.fresh cap with sendCons := own, sendProd := word }

lemma plainRqp_plain (cap own word : UInt32) (p : Nat) :
    ((plainRqp cap own word).sendWqe p).Plain := ⟨rfl, rfl⟩

end

/-! ## Completed sends -/

lemma pollSlots_visits (ops : PollOps) (stop : UInt32) (n room : Nat) (pos : UInt32) (qp : Qp)
    (cqe : Cqe) :
    Visits pos (pollSlots ops stop n room pos qp cqe) (pollEntries ops stop n room pos qp cqe).pos ∧
      (pollSlots ops stop n room pos qp cqe).length ≤ n := by
  induction n generalizing room pos qp cqe with
  | zero => exact ⟨.nil pos, le_rfl⟩
  | succ n ih =>
    rw [pollSlots, pollEntries]
    generalize ops.pollCqe qp pos cqe = res
    obtain ⟨cqe1, qp1⟩ := res
    dsimp only
    generalize (if cqeReported cqe1 = true then [cqe1] else []) = out
    split
    · exact ⟨.cons (.nil _), Nat.succ_le_succ (Nat.zero_le n)⟩
    · obtain ⟨hvisits, hlen⟩ := ih (room - out.length) (pos + 1) qp1 cqe1
      exact ⟨.cons hvisits, Nat.succ_le_succ hlen⟩

lemma pollEntries_sendFrame (stop : UInt32) (n room : Nat) (pos : UInt32) (qp : Qp) (cqe : Cqe) :
    qp.SendPollFrame (pollEntries sendPoll stop n room pos qp cqe).qp := by
  induction n generalizing room pos qp cqe with
  | zero => exact .refl qp
  | succ _ ih =>
    have hone := qp.pollSendCqe_frame pos cqe
    rw [pollEntries, show sendPoll.pollCqe qp pos cqe = qp.pollSendCqe pos cqe from rfl]
    generalize qp.pollSendCqe pos cqe = res at hone
    obtain ⟨cqe1, qp1⟩ := res
    dsimp only at hone ⊢
    generalize (if cqeReported cqe1 = true then [cqe1] else []) = out
    split
    · exact hone
    · exact hone.trans (ih _ _ qp1 cqe1)

/-- Nothing is reported of the entries, and none has an error. -/
structure Qp.Quiet (qp : Qp) : Prop where
  abort : qp.sendAbort = false
  wqe : ∀ p, (qp.sendWqe p).opStatus = 0
  cqe : ∀ p, (qp.sendCqe p).opStatus = 0
  unreported : ∀ p, cqeReported (qp.sendCqe p) = false

variable {qp : Qp}

lemma Qp.Quiet.pollSendCqe (h : qp.Quiet) (pos : UInt32) (cqe : Cqe) :
    qp.pollSendCqe pos cqe = (qp.sendCqe pos.toNat, qp) := by
  simp [Qp.pollSendCqe, h.abort, h.wqe, h.cqe]

lemma pollSlots_length {stop pos : UInt32} (hn : (stop - pos).toNat = n) (hquiet : qp.Quiet)
    (cqe : Cqe) : (pollSlots sendPoll stop n 1 pos qp cqe).length = n := by
  induction n generalizing pos cqe with
  | zero => rfl
  | succ _ ih =>
    rw [pollSlots, show sendPoll.pollCqe qp pos cqe = _ from hquiet.pollSendCqe pos cqe]
    simp only [hquiet.unreported, Bool.false_eq_true, if_false,
      List.length_nil, zero_ne_one, false_or]
    split
    next hlast =>
      rw [rounds_last hn hlast]
      rfl
    next => rw [List.length_cons, ih (rounds_succ hn)]

structure Qp.SendGot (qp : Qp) (r : Range) (qp' : Qp) : Prop where
  range : r = consume qp.sendCons qp.sendCmpl qp.sendCap ∨
    r = consume qp.sendPost qp.sendCmpl qp.sendCap
  cmpl : qp'.sendCmpl = qp.sendCmpl
  cap : qp'.sendCap = qp.sendCap
  post : qp'.sendPost = qp.sendPost
  cons : qp'.sendCons = qp.sendCons ∨ qp'.sendCons = qp.sendPost

lemma Qp.sendGot_got (qp : Qp) : qp.SendGot (sendGetter.range (sendGetter.got qp))
    (sendGetter.got qp) := by
  unfold Getter.got
  split
  · exact ⟨.inr rfl, rfl, rfl, rfl, .inr rfl⟩
  · split
    · exact ⟨.inr rfl, rfl, rfl, rfl, .inr rfl⟩
    · exact ⟨.inl rfl, rfl, rfl, rfl, .inl rfl⟩

section
variable {cap own word : UInt32}

lemma sendPoll_inRing (hc : Cap cap) (hown : Below cap own) (room : Nat) {qp : Qp} (cqe : Cqe)
    (hcap : qp.sendCap = cap) (hcmpl : qp.sendCmpl = own) (hword : qp.sendCons = word)
    (hpost : BatchInRing cap (consume qp.sendPost own cap))
    (hsafe : BatchInRing cap (consume word own cap)) :
    InRing cap (pollBatchSlots sendPoll room qp cqe)
      (pollBatch sendPoll room qp cqe).2.sendCmpl := by
  subst hcap hcmpl hword
  have hgot := qp.sendGot_got
  have hopen := qp.pollSendStartAndGet_got
  generalize sendGetter.range (sendGetter.got qp) = r at hgot hopen
  generalize sendGetter.got qp = qp' at hgot hopen
  have hfits : BatchInRing qp.sendCap r ∧ (r.base = 0 ∨ r.base = qp.sendCap) := by
    obtain hr | hr := hgot.range
    · rw [hr]
      exact ⟨hsafe, (consume_start _ hown).2⟩
    · rw [hr]
      exact ⟨hpost, (consume_start _ hown).2⟩
  simp only [pollBatchSlots, pollBatch]
  rw [show sendPoll.pollStartAndGet qp = _ from hopen, pollRange]
  by_cases hempty : r.pos = r.stop
  · rw [if_pos hempty]
    exact .nil (hgot.cmpl ▸ hown)
  · rw [if_neg hempty]
    obtain ⟨hvisits, hlen⟩ := pollSlots_visits sendPoll (batchStop qpBatchSize r)
      (batchStop qpBatchSize r - r.pos).toNat room r.pos qp' cqe
    have hframe := (pollEntries_sendFrame (batchStop qpBatchSize r)
      (batchStop qpBatchSize r - r.pos).toNat room r.pos qp' cqe).eq
    have hrounds := hfits.1.rounds
    have hin := hvisits.inRing hc hfits.2 (by omega)
    have hkept :
      (pollEntries sendPoll (batchStop qpBatchSize r) (batchStop qpBatchSize r - r.pos).toNat room
        r.pos qp' cqe).qp.sendCap = qp.sendCap := by rw [hframe]; exact hgot.cap
    rw [show ∀ qp : Qp, ∀ pos base, (sendPoll.pollPutAndDone qp pos base).sendCmpl =
      update pos base qp.sendCap
      from fun _ _ _ => rfl, hkept]
    exact hin

/-- The completions are all those of plain writes that are not signaled, and the peer put the
word. -/
def quietQp (cap own word : UInt32) : Qp :=
  { Qp.fresh cap with sendPost := own, sendProd := own, sendCmpl := own, sendCons := word }

lemma quietQp_quiet : (quietQp cap own word).Quiet :=
  ⟨rfl, fun _ => rfl, fun _ => rfl, fun _ => show cqeReported ⟨0, 0, 0, 0, 0, 0⟩ = false by decide⟩

lemma quietQp_open (hne : (consume word own cap).pos ≠ (consume word own cap).stop) :
    (quietQp cap own word).pollSendStartAndGet = (.ok { consume word own cap with
      stop := batchStop qpBatchSize (consume word own cap) }, quietQp cap own word) := by
  have hget : (quietQp cap own word).sendCmplGet =
    (consume word own cap, quietQp cap own word) := rfl
  simp only [Qp.pollSendStartAndGet, pollStartAndGet, hget, ite_self]
  rw [if_neg hne]

lemma sendPoll_escapes (hc : Cap cap) (hown : Below cap own)
    (hescape : ¬ BatchInRing cap (consume word own cap)) (cqe : Cqe) (own' : UInt32) : ¬ InRing cap
      (pollBatchSlots sendPoll 1 (quietQp cap own word) cqe) own' := by
  have hstart : (consume word own cap).pos.toNat < cap.toNat := (consume_start _ hown).1
  have hne : (consume word own cap).pos ≠ (consume word own cap).stop :=
    fun heq => hescape (.of_empty hc hstart heq)
  simp only [pollBatchSlots]
  rw [show sendPoll.pollStartAndGet = Qp.pollSendStartAndGet from rfl, quietQp_open hne]
  refine (pollSlots_visits ..).1.not_inRing hstart.le ?_
  rw [pollSlots_length rfl quietQp_quiet]
  exact rounds_escape hstart hescape

/-- Every call stays in the ring exactly if the word is one of those that keep the consumer
there. -/
theorem consumer_inRing_iff (hc : Cap cap) (hown : Below cap own) (c : Consumer) :
    (∀ slots own', c.Calls cap own word slots own' → InRing cap slots own') ↔
      c.Safe cap own word := by
  cases c with
  | cmdRecv =>
    rw [cmdRecv_safe_iff]
    constructor
    · intro hall
      by_contra hescape
      exact cmdRecv_escapes hown rfl rfl rfl hescape _ (hall _ _ (.cmdRecv (fun _ => easyEnv)
        ⟨cap, fun _ => emptyCmd, word, own, fun _ => successSlot, idleDev, []⟩ rfl rfl rfl))
    · intro hsafe slots own' hcall
      cases hcall with
      | cmdRecv env _ hcap hcons hprod => exact cmdRecv_inRing hc hown env hcap hcons hprod hsafe
  | rqpSend =>
    rw [batch_safe_iff (by decide) hc hown]
    constructor
    · intro hall
      by_contra hescape
      exact rqpSend_escapes hc hown smallDev (fun _ => 0) rfl rfl rfl rfl rfl
        (plainRqp_plain cap own word) hescape _
        (hall _ _ (.rqpSend smallDev (Qp.fresh cap) (plainRqp cap own word)
          (fun _ => 0) freshChan rfl rfl rfl))
    · intro hsafe slots own' hcall
      cases hcall with
      | rqpSend dev qp _ mem chan hcap hcons hprod =>
        exact rqpSend_inRing hc hown dev qp mem chan hcap hcons hprod hsafe
  | sendPoll =>
    rw [batch_safe_iff (by decide) hc hown]
    constructor
    · intro hall
      by_contra hescape
      have hidx : Idx cap own own.toNat := (Nat.mod_eq_of_lt hown).symm
      exact sendPoll_escapes hc hown hescape ⟨0, 0, 0, 0, 0, 0⟩ _
        (hall _ _ (.sendPoll 1 (quietQp cap own word) ⟨0, 0, 0, 0, 0, 0⟩ own.toNat
          own.toNat rfl rfl rfl hidx hidx
          le_rfl (Nat.le_add_right _ _)))
    · intro hsafe slots own' hcall
      cases hcall with
      | sendPoll room _ cqe _ _ hcap hcmpl hword hM hP hle hfull =>
        exact sendPoll_inRing hc hown room cqe hcap hcmpl hword
          (.of_taking (consume_taking hc hP hM hle hfull)) hsafe

end

/-- With one entry, the own index at 1 and the word at 4, all three go over three slots; with two
entries, a producer that goes back from 1 to 0 sends the loop out of its ring. -/
theorem consumer_escapes :
    (∀ c : Consumer, ∃ own', c.Calls 1 1 4 [0, 1, 2] own' ∧ own' = 4 ∧ ¬ InRing 1 [0, 1, 2] own') ∧
      ∃ slots own', Consumer.rqpSend.Calls 2 1 0 slots own' ∧ ¬ InRing 2 slots own' := by
  constructor
  · intro c
    have hout : ¬ InRing 1 [0, 1, 2] 4 := fun h => absurd (h.slot 1 (by decide)) (by decide)
    cases c with
    | cmdRecv =>
      exact ⟨4, .cmdRecv (fun _ => easyEnv) ⟨1, fun _ => emptyCmd, 4, 1,
        fun _ => successSlot, idleDev, []⟩
        rfl rfl rfl, rfl, hout⟩
    | rqpSend =>
      exact ⟨4, .rqpSend smallDev (Qp.fresh 1) (plainRqp 1 1 4)
        (fun _ => 0) freshChan rfl rfl rfl, rfl, hout⟩
    | sendPoll =>
      exact ⟨4, .sendPoll 1 (quietQp 1 1 4) ⟨0, 0, 0, 0, 0, 0⟩ 1 1 rfl rfl rfl rfl rfl
        le_rfl (by decide), rfl, hout⟩
  · exact ⟨_, _, .rqpSend smallDev (Qp.fresh 2) (plainRqp 2 1 0) (fun _ => 0) freshChan rfl rfl rfl,
      rqpSend_escapes ⟨by decide, by decide⟩ (show Below 2 1 from show 1 < 4 by decide)
        smallDev (fun _ => 0) rfl
          rfl rfl rfl rfl
        (plainRqp_plain 2 1 0) (fun h => absurd h.1 (by decide)) _⟩

theorem consumer_inRing_iff_full :
    Below 16 5 ∧ ∀ slots own', Consumer.rqpSend.Calls 16 5 21 slots own' → InRing 16 slots own' :=
  have hown : Below 16 5 := show 5 < 32 by decide
  ⟨hown, (consumer_inRing_iff ⟨by decide, by decide⟩ hown .rqpSend).mpr
    (show (5 : UInt32) ≤ 21 by decide)⟩

end Ntrdma
