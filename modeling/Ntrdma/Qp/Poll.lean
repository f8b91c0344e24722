import Ntrdma.Qp.RqpWork

/-!
# Polling a queue pair

Model of the poll objects of a queue pair (`struct ntrdma_poll`), one for its sends and one for its
receives: how a range of completed entries is opened (`ntrdma_qp_send_cmpl_get`,
`ntrdma_qp_recv_cmpl_get`), what an entry is reported with (`ntrdma_qp_poll_send_cqe`,
`ntrdma_qp_poll_recv_cqe`), and how the range is closed. An error is carried out in two steps: while
a side is *aborting*, the entries that the peer completed are still reported, and when there are
none left the side goes over to *abort*, in which all posted entries are reported as failed.

The two sides are the members of one family (`PollOps`), apart from the getters: in abort, that of
the sends moves the producer and the consumer to the posting index, that of the receives only the
consumer.
-/

namespace Ntrdma
open Lib Ntrdma.Ring

def Qp.recvCmplGet (qp : Qp) : Range × Qp :=
  let qp := if qp.recvAbort then { qp with recvCons := qp.recvPost } else qp
  let r := consume qp.recvCons qp.recvCmpl qp.recvCap
  if qp.recvAborting && r.pos == r.stop && !qp.recvAbort then
    (r, { qp with recvAbort := true, recvAbortFirst := true })
  else (r, qp)

def Qp.sendCmplGet (qp : Qp) : Range × Qp :=
  let qp :=
    if qp.sendAbort then { qp with sendProd := qp.sendPost, sendCons := qp.sendPost } else qp
  let r := consume qp.sendCons qp.sendCmpl qp.sendCap
  if qp.sendAborting && r.pos == r.stop && !qp.sendAbort then
    (r, { qp with sendAbort := true, sendAbortFirst := true })
  else (r, qp)

/-- Opening a range of completed entries: the getter is called again if the first flush is due. -/
def pollStartAndGet (get : Qp → Range × Qp) (abortFirst : Qp → Bool) (qp : Qp) :
    Except Errno Range × Qp :=
  let (r, qp) := get qp
  let (r, qp) := if r.pos == r.stop && abortFirst qp then get qp else (r, qp)
  if r.pos = r.stop then (.error .eagain, qp)
  else (.ok { r with stop := batchStop qpBatchSize r }, qp)

def Qp.pollRecvStartAndGet (qp : Qp) : Except Errno Range × Qp :=
  pollStartAndGet Qp.recvCmplGet Qp.recvAbortFirst qp

def Qp.pollSendStartAndGet (qp : Qp) : Except Errno Range × Qp :=
  pollStartAndGet Qp.sendCmplGet Qp.sendAbortFirst qp

def flushStatus (abortFirst : Bool) : UInt16 := if abortFirst then wcErrLocPort else wcErrAborted

/-- C `ntrdma_qp_poll_recv_cqe`, given what the output entry held before. -/
def Qp.pollRecvCqe (qp : Qp) (pos : UInt32) (outcqe : Cqe) : Cqe × Qp :=
  let wqe := qp.recvWqe pos.toNat
  if qp.recvAbort then
    let (outcqe, wqe) := recvFail outcqe wqe (flushStatus qp.recvAbortFirst)
    (outcqe, { qp.setRecvWqe pos wqe with recvAbortFirst := false })
  else if wqe.opStatus ≠ 0 then
    let (outcqe, wqe') := recvFail outcqe wqe wqe.opStatus
    (outcqe, { qp.setRecvWqe pos wqe' with recvAborting := true })
  else
    let cqe := qp.recvCqe pos.toNat
    (cqe, if cqe.opStatus ≠ 0 then { qp with recvAborting := true } else qp)

/-- C `ntrdma_qp_poll_send_cqe`; the output entry is written as a whole. -/
def Qp.pollSendCqe (qp : Qp) (pos : UInt32) (_outcqe : Cqe) : Cqe × Qp :=
  let wqe := qp.sendWqe pos.toNat
  if qp.sendAbort then
    (sendFail wqe (flushStatus qp.sendAbortFirst), { qp with sendAbortFirst := false })
  else if wqe.opStatus ≠ 0 then (sendFail wqe wqe.opStatus, { qp with sendAborting := true })
  else
    let cqe := qp.sendCqe pos.toNat
    (cqe, if cqe.opStatus ≠ 0 then { qp with sendAborting := true } else qp)

/-- The functions of a poll object (C `struct ntrdma_poll`). -/
structure PollOps where
  pollStartAndGet : Qp → Except Errno Range × Qp
  pollCqe : Qp → UInt32 → Cqe → Cqe × Qp
  pollPutAndDone : Qp → UInt32 → UInt32 → Qp

def sendPoll : PollOps := ⟨Qp.pollSendStartAndGet, Qp.pollSendCqe, Qp.sendCmplPut⟩

def recvPoll : PollOps := ⟨Qp.pollRecvStartAndGet, Qp.pollRecvCqe, Qp.recvCmplPut⟩

/-- Operations that push data are reported only if they are signaled (in `ntrdma_poll_cq` and
`ntrdma_cq_process_poll_ioctl`). -/
def cqeReported (cqe : Cqe) : Bool := !wrCodePushData cqe.opCode || isSignaled cqe.flags

/-- What going over a range gives: the position, the queue pair, the output entry, and the entries
reported. -/
structure PollBatch where
  pos : UInt32
  qp : Qp
  cqe : Cqe
  out : List Cqe

/-- The inner loop of `ntrdma_poll_cq` and `ntrdma_cq_process_poll_ioctl`. -/
def pollEntries (ops : PollOps) (stop : UInt32) : Nat → Nat → UInt32 → Qp → Cqe → PollBatch
  | 0, _, pos, qp, cqe => ⟨pos, qp, cqe, []⟩
  | n + 1, room, pos, qp, cqe =>
    let (cqe, qp) := ops.pollCqe qp pos cqe
    let out := if cqeReported cqe then [cqe] else []
    if out.length = room ∨ pos + 1 = stop then ⟨pos + 1, qp, cqe, out⟩
    else
      let rest := pollEntries ops stop n (room - out.length) (pos + 1) qp cqe
      { rest with out := out ++ rest.out }

/-- One range of completed entries in `ntrdma_poll_cq`: it is opened, gone over and closed. -/
def pollBatch (ops : PollOps) (room : Nat) (qp : Qp) (cqe : Cqe) :
    Except Errno (List Cqe × Cqe) × Qp :=
  match ops.pollStartAndGet qp with
  | (.error e, qp) => (.error e, qp)
  | (.ok r, qp) =>
    let batch := pollEntries ops r.stop (r.stop - r.pos).toNat room r.pos qp cqe
    (.ok (batch.out, batch.cqe), ops.pollPutAndDone batch.qp batch.pos r.base)

/-! ## Opening a range -/

def Qp.recvFlushes (qp : Qp) : Bool := qp.recvAbort ||
    (qp.recvAborting && qp.recvCons == qp.recvCmpl)

def Qp.recvGot (qp : Qp) : Qp :=
  if qp.recvFlushes then
    { qp with
      recvCons := qp.recvPost
      recvAbort := true
      recvAbortFirst := qp.recvAbortFirst || !qp.recvAbort }
  else qp

def Qp.recvDone (qp : Qp) : Range := consume qp.recvGot.recvCons qp.recvCmpl qp.recvCap

def Qp.sendFlushes (qp : Qp) : Bool := qp.sendAbort ||
    (qp.sendAborting && qp.sendCons == qp.sendCmpl)

def Qp.sendGot (qp : Qp) : Qp :=
  if qp.sendFlushes then
    { qp with
      sendProd := qp.sendPost
      sendCons := qp.sendPost
      sendAbort := true
      sendAbortFirst := qp.sendAbortFirst || !qp.sendAbort }
  else qp

def Qp.sendDone (qp : Qp) : Range := consume qp.sendGot.sendCons qp.sendCmpl qp.sendCap

def pollRange (r : Range) : Except Errno Range :=
  if r.pos = r.stop then .error .eagain else .ok { r with stop := batchStop qpBatchSize r }

variable {qp qp' : Qp} {r : Range}

lemma pollStartAndGet_eq {get : Qp → Range × Qp} {abortFirst : Qp → Bool} (hget : get qp = (r, qp'))
    (hagain : r.pos = r.stop → abortFirst qp' = true → get qp' = (r, qp')) :
    pollStartAndGet get abortFirst qp = (pollRange r, qp') := by
  simp only [pollStartAndGet, hget, pollRange]
  by_cases hempty : r.pos = r.stop
  · cases hfirst : abortFirst qp' with
    | false => simp [hempty]
    | true => simp [hempty, hagain hempty hfirst]
  · simp [hempty]

lemma pollStartAndGet_again {get : Qp → Range × Qp} {abortFirst : Qp → Bool} {qp qp1 qp' : Qp}
    {r r' : Range} (hget : get qp = (r, qp1)) (hempty : r.pos = r.stop)
    (hfirst : abortFirst qp1 = true) (hagain : get qp1 = (r', qp')) :
    pollStartAndGet get abortFirst qp = (pollRange r', qp') := by
  simp only [pollStartAndGet, hget, pollRange, hempty, hfirst, hagain,
    beq_self_eq_true, Bool.and_self,
    if_true]
  split <;> rfl

/-- What the two getters have in common: their flags, their range, and what they do in abort. -/
structure Getter where
  abort : Qp → Bool
  aborting : Qp → Bool
  abortFirst : Qp → Bool
  range : Qp → Range
  flush : Qp → Qp
  begin : Qp → Qp

def Getter.get (g : Getter) (qp : Qp) : Range × Qp :=
  let qp := if g.abort qp then g.flush qp else qp
  if g.aborting qp && (g.range qp).pos == (g.range qp).stop && !g.abort qp
    then (g.range qp, g.begin qp)
  else (g.range qp, qp)

/-- The queue pair after a range was opened: a poll that begins the abort flushes at once. -/
def Getter.got (g : Getter) (qp : Qp) : Qp :=
  if g.abort qp then g.flush qp
  else if g.aborting qp ∧ (g.range qp).pos = (g.range qp).stop then g.flush (g.begin qp)
  else qp

structure Getter.Lawful (g : Getter) : Prop where
  abort_flush : ∀ qp, g.abort (g.flush qp) = g.abort qp
  flush_flush : ∀ qp, g.flush (g.flush qp) = g.flush qp
  abort_begin : ∀ qp, g.abort (g.begin qp) = true
  first_begin : ∀ qp, g.abortFirst (g.begin qp) = true

lemma Getter.Lawful.get_abort {g : Getter} (h : g.Lawful) {qp : Qp} (hab : g.abort qp = true) :
    g.get qp = (g.range (g.flush qp), g.flush qp) := by
  simp only [Getter.get, hab, if_true, h.abort_flush, Bool.not_true, Bool.and_false,
    Bool.false_eq_true, if_false]

lemma Getter.Lawful.start {g : Getter} (h : g.Lawful) (qp : Qp) :
    pollStartAndGet g.get g.abortFirst qp = (pollRange (g.range (g.got qp)), g.got qp) := by
  unfold Getter.got
  cases hab : g.abort qp with
  | true =>
    rw [if_pos rfl]
    refine pollStartAndGet_eq (h.get_abort hab) fun _ _ => ?_
    rw [h.get_abort ((h.abort_flush qp).trans hab), h.flush_flush]
  | false =>
    have hget : g.get qp = if g.aborting qp ∧
      (g.range qp).pos = (g.range qp).stop then (g.range qp, g.begin qp)
        else (g.range qp, qp) := by
      simp only [Getter.get, hab, Bool.false_eq_true, if_false, Bool.not_false,
        Bool.and_true, Bool.and_eq_true,
        beq_iff_eq]
    simp only [Bool.false_eq_true, if_false]
    split
    next hbegin =>
      rw [if_pos hbegin] at hget
      exact pollStartAndGet_again hget hbegin.2 (h.first_begin qp) (h.get_abort (h.abort_begin qp))
    next hbegin =>
      rw [if_neg hbegin] at hget
      exact pollStartAndGet_eq hget fun _ _ => hget

/-- The parts of `ntrdma_qp_recv_cmpl_get`. -/
def recvGetter : Getter where
  abort := Qp.recvAbort
  aborting := Qp.recvAborting
  abortFirst := Qp.recvAbortFirst
  range qp := consume qp.recvCons qp.recvCmpl qp.recvCap
  flush qp := { qp with recvCons := qp.recvPost }
  begin qp := { qp with recvAbort := true, recvAbortFirst := true }

def sendGetter : Getter where
  abort := Qp.sendAbort
  aborting := Qp.sendAborting
  abortFirst := Qp.sendAbortFirst
  range qp := consume qp.sendCons qp.sendCmpl qp.sendCap
  flush qp := { qp with sendProd := qp.sendPost, sendCons := qp.sendPost }
  begin qp := { qp with sendAbort := true, sendAbortFirst := true }

lemma recvGetter_lawful : recvGetter.Lawful :=
    ⟨fun _ => rfl, fun _ => rfl, fun _ => rfl, fun _ => rfl⟩

lemma sendGetter_lawful : sendGetter.Lawful :=
    ⟨fun _ => rfl, fun _ => rfl, fun _ => rfl, fun _ => rfl⟩

lemma Qp.pollRecvStartAndGet_got (qp : Qp) :
    qp.pollRecvStartAndGet = (pollRange (recvGetter.range (recvGetter.got qp)),
      recvGetter.got qp) :=
  recvGetter_lawful.start qp

lemma Qp.pollSendStartAndGet_got (qp : Qp) :
    qp.pollSendStartAndGet = (pollRange (sendGetter.range (sendGetter.got qp)),
      sendGetter.got qp) :=
  sendGetter_lawful.start qp

lemma Qp.pollRecvStartAndGet_eq {qp : Qp} {M K : Nat} (hcap : Cap qp.recvCap)
    (hcmpl : Idx qp.recvCap qp.recvCmpl M) (hcons : Idx qp.recvCap qp.recvCons K) :
    qp.pollRecvStartAndGet = (pollRange qp.recvDone, qp.recvGot) := by
  have hempty := consume_empty_iff hcap hcons hcmpl
  have hgot : recvGetter.got qp = qp.recvGot := by
    rcases Bool.eq_false_or_eq_true qp.recvAbort with habort | habort <;>
      simp [Getter.got, recvGetter, hempty, Qp.recvGot, Qp.recvFlushes, habort]
  have hdone : recvGetter.range qp.recvGot = qp.recvDone := by
    simp only [recvGetter, Qp.recvDone, Qp.recvGot]
    split <;> rfl
  rw [Qp.pollRecvStartAndGet_got, hgot, hdone]

lemma Qp.pollSendStartAndGet_eq {qp : Qp} {M K : Nat} (hcap : Cap qp.sendCap)
    (hcmpl : Idx qp.sendCap qp.sendCmpl M) (hcons : Idx qp.sendCap qp.sendCons K) :
    qp.pollSendStartAndGet = (pollRange qp.sendDone, qp.sendGot) := by
  have hempty := consume_empty_iff hcap hcons hcmpl
  have hgot : sendGetter.got qp = qp.sendGot := by
    rcases Bool.eq_false_or_eq_true qp.sendAbort with habort | habort <;>
      simp [Getter.got, sendGetter, hempty, Qp.sendGot, Qp.sendFlushes, habort]
  have hdone : sendGetter.range qp.sendGot = qp.sendDone := by
    simp only [sendGetter, Qp.sendDone, Qp.sendGot]
    split <;> rfl
  rw [Qp.pollSendStartAndGet_got, hgot, hdone]

/-! ## Going over a range -/

inductive PollRun (ops : PollOps) : UInt32 → Qp → Cqe → List Cqe → Qp → Cqe → Prop where
  | nil (pos qp cqe) : PollRun ops pos qp cqe [] qp cqe
  | cons {pos qp cqe qp1 cqe1 recs qp' cqe'} : ops.pollCqe qp pos cqe = (cqe1, qp1) →
    PollRun ops (pos + 1) qp1 cqe1 recs qp' cqe' → PollRun ops pos qp cqe (cqe1 :: recs) qp' cqe'

/-- The inner loop goes over at least one entry, no more than there are or than there is room for,
and ends early only without room. -/
structure PollOver (ops : PollOps) (n room : Nat) (pos : UInt32) (qp : Qp)
    (cqe : Cqe) (recs : List Cqe)
    (batch : PollBatch) : Prop where
  run : PollRun ops pos qp cqe recs batch.qp batch.cqe
  nonempty : 0 < recs.length
  le : recs.length ≤ n
  pos_eq : batch.pos.toNat = pos.toNat + recs.length
  out : batch.out = recs.filter cqeReported
  room_le : batch.out.length ≤ room
  full : recs.length = n ∨ batch.out.length = room

variable {pos : UInt32}

lemma pollEntries_over (ops : PollOps) {stop : UInt32} {n room : Nat} (qp : Qp) (cqe : Cqe)
    (hstop : stop.toNat = pos.toNat + (n + 1)) (hroom : 0 < room) :
    ∃ recs, PollOver ops (n + 1) room pos qp cqe recs
      (pollEntries ops stop (n + 1) room pos qp cqe) := by
  induction n generalizing room pos qp cqe with
  | zero =>
    have hlt := stop.toNat_lt
    have hpos : pos + 1 = stop := by
      rw [← UInt32.toNat_inj, toNat_succ (by omega)]
      omega
    rw [pollEntries]
    generalize hcqe : ops.pollCqe qp pos cqe = res
    obtain ⟨cqe1, qp1⟩ := res
    dsimp only
    rw [if_pos (.inr hpos)]
    refine ⟨[cqe1], .cons hcqe (.nil _ _ _), Nat.zero_lt_one,
      Nat.le_refl 1, by rw [hpos]; exact hstop,
      ?_, ?_, .inl rfl⟩
    · simp only [List.filter_cons, List.filter_nil]
    · dsimp only
      split
      · exact hroom
      · exact Nat.zero_le _
  | succ n ih =>
    have hlt := stop.toNat_lt
    have hpos : (pos + 1).toNat = pos.toNat + 1 := toNat_succ (by omega)
    have hne : pos + 1 ≠ stop := by
      rw [ne_eq, ← UInt32.toNat_inj]
      omega
    rw [pollEntries]
    generalize hcqe : ops.pollCqe qp pos cqe = res
    obtain ⟨cqe1, qp1⟩ := res
    have hout : (if cqeReported cqe1 = true then [cqe1] else []) = [cqe1].filter cqeReported := by
      simp only [List.filter_cons, List.filter_nil]
    have hle : ([cqe1].filter cqeReported).length ≤ 1 := List.length_filter_le _ _
    dsimp only
    rw [hout]
    split
    next hdone =>
      have hfull := hdone.resolve_right hne
      exact ⟨[cqe1], .cons hcqe (.nil _ _ _), Nat.zero_lt_one,
        Nat.succ_le_succ (Nat.zero_le _), hpos,
        rfl, hfull.le, .inr hfull⟩
    next hgo =>
      rw [not_or] at hgo
      obtain ⟨recs, hover⟩ := ih qp1 cqe1 (show stop.toNat = (pos + 1).toNat + (n + 1) by omega)
        (show 0 < room - ([cqe1].filter cqeReported).length by omega)
      have hrest := hover.pos_eq
      have hroom := hover.room_le
      have hlen := hover.le
      refine ⟨cqe1 :: recs, .cons hcqe hover.run, Nat.succ_pos _,
        Nat.succ_le_succ hlen, ?_, ?_, ?_, ?_⟩
      · dsimp only
        rw [hrest, List.length_cons]
        omega
      · dsimp only
        rw [hover.out, ← List.filter_append]
        rfl
      · simp only [List.length_append]
        omega
      · refine hover.full.imp (congrArg Nat.succ) fun hfull => ?_
        simp only [List.length_append, hfull]
        omega

lemma batchStop_spec {cap : UInt32} {C P : Nat} (h : Taking cap r C P) (hne : r.pos ≠ r.stop) :
    ∃ n, (batchStop qpBatchSize r).toNat = r.pos.toNat + (n + 1) ∧
      n + 1 ≤ min (P - C) (cap.toNat - C % cap.toNat) ∧ n + 1 ≤ 16 ∧
      (n + 1 < min (P - C) (cap.toNat - C % cap.toNat) → n + 1 = 16) := by
  have hstop := h.stop
  have hlt := h.lt
  have h32 := h.hcap.lt
  have hmin : (batchStop qpBatchSize r).toNat = min r.stop.toNat (r.pos.toNat + 16) :=
    batchStop_eq (show r.pos.toNat + 16 < 2 ^ 32 by omega)
  rw [ne_eq, ← UInt32.toNat_inj] at hne
  exact ⟨min (min (P - C) (cap.toNat - C % cap.toNat)) 16 - 1, by omega, by
    omega, by omega, by omega⟩

/-! ## One range -/

/-- With no completed entries from counter `M` up to `K`, a range is not opened; otherwise some are
gone over and the range is closed behind them. -/
inductive Polled (ops : PollOps) (cap : UInt32) (room : Nat) (cqe : Cqe)
    (r : Range) (qp : Qp) (M K : Nat) :
    Except Errno (List Cqe × Cqe) × Qp → Prop where
  | empty : M = K → Polled ops cap room cqe r qp M K (.error .eagain, qp)
  | some {n recs batch} : PollOver ops n room r.pos qp cqe recs batch →
    n = min 16 (min (K - M) (cap.toNat - M % cap.toNat)) →
    Idx cap (update batch.pos r.base cap) (M + recs.length) →
    Polled ops cap room cqe r qp M K
      (.ok (batch.out, batch.cqe), ops.pollPutAndDone batch.qp batch.pos r.base)

lemma pollBatch_polled {ops : PollOps} {cap : UInt32} {M K room : Nat}
    (hget : ops.pollStartAndGet qp = (pollRange r, qp')) (htake : Taking cap r M K)
    (hroom : 0 < room) (cqe : Cqe) :
    Polled ops cap room cqe r qp' M K (pollBatch ops room qp cqe) := by
  simp only [pollBatch, hget, pollRange]
  by_cases hempty : r.pos = r.stop
  · rw [if_pos hempty]
    exact .empty (htake.empty_iff.1 hempty)
  · rw [if_neg hempty]
    obtain ⟨n, hstop, hle, h16, hfull⟩ := batchStop_spec htake hempty
    have hcap := htake.stop_le
    have hend := htake.stop
    have hn : (batchStop qpBatchSize r - r.pos).toNat = n + 1 := by
      rw [toNat_sub32 (by omega)]
      omega
    dsimp only
    rw [hn]
    obtain ⟨recs, hover⟩ := pollEntries_over ops qp' cqe hstop hroom
    have hpos := hover.pos_eq
    have hrecs := hover.le
    exact .some hover (by omega) ((htake.stands.add hpos (by omega)).update htake.hcap)

/-- What going over receives leaves alone: all but the lists of the entries and the flags of the
abort. -/
structure Qp.RecvPollFrame (qp qp' : Qp) : Prop where
  eq : qp' = { qp with
    recvWqe := qp'.recvWqe, recvAborting := qp'.recvAborting, recvAbortFirst := qp'.recvAbortFirst }
  aborting : qp.recvAborting = true → qp'.recvAborting = true
  kept : ∀ p, (qp'.recvWqe p).ulpHandle = (qp.recvWqe p).ulpHandle ∧
    (qp'.recvWqe p).opStatus = (qp.recvWqe p).opStatus

lemma Qp.RecvPollFrame.refl (qp : Qp) : qp.RecvPollFrame qp := ⟨rfl, id, fun _ => ⟨rfl, rfl⟩⟩

lemma Qp.RecvPollFrame.trans {a b c : Qp} (h : a.RecvPollFrame b) (h' : b.RecvPollFrame c) :
    a.RecvPollFrame c :=
  ⟨by rw [h'.eq, h.eq], fun hab => h'.aborting (h.aborting hab), fun p =>
    ⟨(h'.kept p).1.trans (h.kept p).1, (h'.kept p).2.trans (h.kept p).2⟩⟩

lemma setRecvWqe_cleanup (qp : Qp) (pos : UInt32) (p : Nat) :
    ((qp.setRecvWqe pos (recvWqeCleanup (qp.recvWqe pos.toNat))).recvWqe p).ulpHandle =
        (qp.recvWqe p).ulpHandle ∧
      ((qp.setRecvWqe pos (recvWqeCleanup (qp.recvWqe pos.toNat))).recvWqe p).opStatus =
        (qp.recvWqe p).opStatus := by
  simp only [Qp.setRecvWqe]
  by_cases hp : p = pos.toNat
  · subst hp
    rw [Function.update_self]
    exact ⟨rfl, rfl⟩
  · rw [Function.update_of_ne hp]
    exact ⟨rfl, rfl⟩

lemma Qp.pollRecvCqe_frame (qp : Qp) (pos : UInt32) (cqe : Cqe) :
    qp.RecvPollFrame (qp.pollRecvCqe pos cqe).2 := by
  simp only [Qp.pollRecvCqe]
  split
  · exact ⟨rfl, id, setRecvWqe_cleanup qp pos⟩
  · split
    · exact ⟨rfl, fun _ => rfl, setRecvWqe_cleanup qp pos⟩
    · split
      · exact ⟨rfl, fun _ => rfl, fun _ => ⟨rfl, rfl⟩⟩
      · exact .refl qp

variable {cqe cqe' : Cqe} {recs : List Cqe}

lemma PollRun.recv_frame (h : PollRun recvPoll pos qp cqe recs qp' cqe') :
    qp.RecvPollFrame qp' := by
  induction h with
  | nil _ qp => exact .refl qp
  | cons hcqe hrun ih =>
    rename_i pos qp cqe qp1 cqe1 recs qp' cqe'
    have hone := qp.pollRecvCqe_frame pos cqe
    rw [show qp.pollRecvCqe pos cqe = _ from hcqe] at hone
    exact hone.trans ih

lemma PollRun.recv_slots (h : PollRun recvPoll pos qp cqe recs qp' cqe')
    (hlt : pos.toNat + recs.length < 2 ^ 32) {p : Nat}
    (hp : p < pos.toNat ∨ pos.toNat + recs.length ≤ p) : qp'.recvWqe p = qp.recvWqe p := by
  induction h with
  | nil => rfl
  | cons hcqe hrun ih =>
    rename_i pos qp cqe qp1 cqe1 recs qp' cqe'
    rw [List.length_cons] at hlt hp
    have hpos : (pos + 1).toNat = pos.toNat + 1 := toNat_succ (by omega)
    have hone : (qp.pollRecvCqe pos cqe).2.recvWqe p = qp.recvWqe p := by
      have hne : p ≠ pos.toNat := by omega
      simp only [Qp.pollRecvCqe]
      split
      · exact Function.update_of_ne hne _ _
      · split
        · exact Function.update_of_ne hne _ _
        · split <;> rfl
    rw [show qp.pollRecvCqe pos cqe = _ from hcqe] at hone
    exact (ih (by omega) (by omega)).trans hone

structure Qp.SendPollFrame (qp qp' : Qp) : Prop where
  eq : qp' = { qp with sendAborting := qp'.sendAborting, sendAbortFirst := qp'.sendAbortFirst }
  aborting : qp.sendAborting = true → qp'.sendAborting = true

lemma Qp.SendPollFrame.refl (qp : Qp) : qp.SendPollFrame qp := ⟨rfl, id⟩

lemma Qp.SendPollFrame.trans {a b c : Qp} (h : a.SendPollFrame b) (h' : b.SendPollFrame c) :
    a.SendPollFrame c :=
  ⟨by rw [h'.eq, h.eq], fun hab => h'.aborting (h.aborting hab)⟩

lemma Qp.pollSendCqe_frame (qp : Qp) (pos : UInt32) (cqe : Cqe) :
    qp.SendPollFrame (qp.pollSendCqe pos cqe).2 := by
  simp only [Qp.pollSendCqe]
  split
  · exact ⟨rfl, id⟩
  · split
    · exact ⟨rfl, fun _ => rfl⟩
    · split
      · exact ⟨rfl, fun _ => rfl⟩
      · exact .refl qp

lemma PollRun.send_frame (h : PollRun sendPoll pos qp cqe recs qp' cqe') :
    qp.SendPollFrame qp' := by
  induction h with
  | nil _ qp => exact .refl qp
  | cons hcqe hrun ih =>
    rename_i pos qp cqe qp1 cqe1 recs qp' cqe'
    have hone := qp.pollSendCqe_frame pos cqe
    rw [show qp.pollSendCqe pos cqe = _ from hcqe] at hone
    exact hone.trans ih

end Ntrdma
