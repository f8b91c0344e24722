import Ntrdma.Lib.Run
import Ntrdma.Cq.Queue
import Ntrdma.Qp.State

/-!
# Polling a completion queue

Model of `ntrdma_poll_cq` and `ntrdma_cq_process_poll_ioctl`: as long as there is room, a range of
completed entries of one of the attached queues is opened (`ntrdma_cq_cmpl_get`, which tries the
poll objects in the order of the list and moves the one it found to the end), gone over, and closed
at the last poll object of the list (`ntrdma_cq_cmpl_put`).

The two loops differ in the form of the work completions they write. The fields of a work completion
that are always 0 are left out. Besides what the code keeps, a loop keeps a log of all entries it
went over, reported or not.
-/

namespace Ntrdma
open Lib Ntrdma.Ring

/-! ## Work completions -/

inductive IbWcStatus where
  | success
  | locProtErr
  | wrFlushErr
  | badRespErr
  | remInvReqErr
  | remAccessErr
  | remOpErr
  | respTimeoutErr
  | fatalErr
  deriving DecidableEq, Repr

inductive IbWcOpcode where
  | send
  | rdmaWrite
  | rdmaRead
  | recv
  | recvRdmaWithImm
  deriving DecidableEq, Repr

def ibWcStatusFromCqe (opStatus : UInt16) : IbWcStatus :=
  if opStatus = wcSuccess then .success
  else if opStatus = wcErrAborted then .wrFlushErr
  else if opStatus = wcErrCorrupt then .badRespErr
  else if opStatus = wcErrOpcode then .remOpErr
  else if opStatus = wcErrRecvNotReady then .respTimeoutErr
  else if opStatus = wcErrRecvMissing then .remInvReqErr
  else if opStatus = wcErrRecvOverflow ∨ opStatus = wcErrRdmaKey ∨ opStatus = wcErrRdmaRange ∨
      opStatus = wcErrRdmaAccess then .remAccessErr
  else if opStatus = wcErrLocPort then .locProtErr
  else .fatalErr

/-- C `ntrdma_ib_wc_opcode_from_cqe`, with `none` for `-1`. -/
def ibWcOpcodeFromCqe (opCode : UInt16) : Option IbWcOpcode :=
  if opCode = wrRecv ∨ opCode = wrRecvInv ∨ opCode = wrRecvImm then some .recv
  else if opCode = wrRecvRdma then some .recvRdmaWithImm
  else if opCode = wrSend ∨ opCode = wrSendInv ∨ opCode = wrSendWithImm then some .send
  else if opCode = wrRdmaWriteWithImm ∨ opCode = wrRdmaWrite then some .rdmaWrite
  else if opCode = wrRdmaRead then some .rdmaRead
  else none

def wcWithImm : UInt32 := 0x2
def wcWithInvalidate : UInt32 := 0x4

def ibWcFlagsFromCqe (opCode : UInt16) : UInt32 :=
  if opCode = wrRecvImm ∨ opCode = wrRecvRdma then wcWithImm
  else if opCode = wrRecvInv then wcWithInvalidate
  else 0

structure Wc where
  wrId : UInt64
  status : IbWcStatus
  opcode : Option IbWcOpcode
  vendorErr : UInt16
  byteLen : UInt32
  immData : UInt32
  qpNum : UInt32
  srcQp : UInt32
  wcFlags : UInt32

def ibWcFromCqe (qpNum rqpKey : UInt32) (cqe : Cqe) : Wc where
  wrId := cqe.ulpHandle
  status := ibWcStatusFromCqe cqe.opStatus
  opcode := ibWcOpcodeFromCqe cqe.opCode
  vendorErr := cqe.opStatus
  byteLen := cqe.rdmaLen
  immData := cqe.immData
  qpNum := qpNum
  srcQp := rqpKey
  wcFlags := ibWcFlagsFromCqe cqe.opCode

/-- C `ntrdma_wc_from_cqe`: the same fields for user space. -/
def wcFromCqe (qpNum rqpKey : UInt32) (cqe : Cqe) : Wc := ibWcFromCqe qpNum rqpKey cqe

/-! ## The poll list -/

/-- A poll object of a completion queue (C `struct ntrdma_poll`): one of the queues of a queue
pair. -/
structure Poll where
  key : UInt32
  side : Side
  deriving DecidableEq, Repr

def Poll.queue (p : Poll) (qps : UInt32 → QpObj) : Queue := p.side.queue (qps p.key).qp

def setQp (qps : UInt32 → QpObj) (key : UInt32) (qp : Qp) : UInt32 → QpObj :=
  Function.update qps key { qps key with qp }

def Poll.startAndGet (p : Poll) (qps : UInt32 → QpObj) : Except Errno Range × (UInt32 → QpObj) :=
  let (rc, qp) := p.side.ops.pollStartAndGet (qps p.key).qp
  (rc, setQp qps p.key qp)

/-- The loop of `ntrdma_cq_cmpl_get`; the poll object that has a range comes last. -/
def cqCmplGetLoop (skipped : List Poll) :
    List Poll → (UInt32 → QpObj) → Except Errno (UInt32 × Range) × List Poll × (UInt32 → QpObj)
  | [], qps => (.error .eagain, skipped, qps)
  | p :: rest, qps =>
    match p.startAndGet qps with
    | (.error .eagain, qps) => cqCmplGetLoop (skipped ++ [p]) rest qps
    | (.error e, qps) => (.error e, rest ++ (skipped ++ [p]), qps)
    | (.ok r, qps) => (.ok (p.key, r), rest ++ (skipped ++ [p]), qps)

def cqCmplGet (pollList : List Poll) (qps : UInt32 → QpObj) :
    Except Errno (UInt32 × Range) × List Poll × (UInt32 → QpObj) :=
  cqCmplGetLoop [] pollList qps

/-! ## The loops -/

structure CqRecord where
  poll : Poll
  pos : UInt32
  rqpKey : UInt32
  cqe : Cqe

/-- The variables of the loop, with the log of the entries that were gone over. -/
structure CqPoll where
  pollList : List Poll
  qps : UInt32 → QpObj
  cqe : Cqe
  out : List Wc
  log : List CqRecord

def pollRecords (p : Poll) (rqpKey : UInt32) : Nat → UInt32 → Qp → Cqe → List CqRecord
  | 0, _, _, _ => []
  | n + 1, pos, qp, cqe =>
    let (cqe, qp) := p.side.ops.pollCqe qp pos cqe
    ⟨p, pos, rqpKey, cqe⟩ :: pollRecords p rqpKey n (pos + 1) qp cqe

/-- Going over an open range (C `ntrdma_cq_cmpl_cqe`) and closing it (C `ntrdma_cq_cmpl_put`). -/
def cqPollRange (toWc : UInt32 → UInt32 → Cqe → Wc) (howmany : Nat) (key : UInt32) (r : Range)
    (s : CqPoll) : CqPoll :=
  match s.pollList.getLast? with
  | none => s
  | some p =>
    let qp := (s.qps p.key).qp
    let batch := pollEntries p.side.ops r.stop (r.stop - r.pos).toNat
      (howmany - s.out.length) r.pos qp s.cqe
    { s with
      qps := setQp s.qps p.key (p.side.ops.pollPutAndDone batch.qp batch.pos r.base)
      cqe := batch.cqe
      out := s.out ++ batch.out.map (toWc key (s.qps key).rqpKey)
      log := s.log ++ pollRecords p (s.qps p.key).rqpKey (batch.pos - r.pos).toNat r.pos qp s.cqe }

/-- The loop of `ntrdma_poll_cq` and `ntrdma_cq_process_poll_ioctl`, with a bound on its rounds. -/
def cqPollLoop (toWc : UInt32 → UInt32 → Cqe → Wc) (howmany : Nat) :
    Nat → CqPoll → Except Errno Unit × CqPoll
  | 0, s => (.ok (), s)
  | n + 1, s =>
    if howmany ≤ s.out.length then (.ok (), s)
    else
      match cqCmplGet s.pollList s.qps with
      | (.error e, pollList, qps) => (.error e, { s with pollList, qps })
      | (.ok (key, r), pollList, qps) =>
        cqPollLoop toWc howmany n (cqPollRange toWc howmany key r { s with pollList, qps })

def pollCap (pollList : List Poll) (qps : UInt32 → QpObj) : Nat :=
  (pollList.map fun p => (p.queue qps).cap.toNat).sum

/-- Both functions up to the end of the loop, which has at most as many rounds as the rings have
entries. -/
def cqPoll (toWc : UInt32 → UInt32 → Cqe → Wc) (howmany : Nat) (pollList : List Poll)
    (qps : UInt32 → QpObj) (cqe : Cqe) : Except Errno Unit × CqPoll :=
  cqPollLoop toWc howmany (pollCap pollList qps + 1) ⟨pollList, qps, cqe, [], []⟩

def cqPollResult (res : Except Errno Unit × CqPoll) : Except Errno Nat :=
  if res.2.out.length ≠ 0 then .ok res.2.out.length
  else
    match res.1 with
    | .ok _ | .error .eagain => .ok 0
    | .error e => .error e

def pollCq (howmany : Nat) (pollList : List Poll) (qps : UInt32 → QpObj) (cqe : Cqe) :
    Except Errno Nat × CqPoll :=
  let res := cqPoll ibWcFromCqe howmany pollList qps cqe
  (cqPollResult res, res.2)

/-- The entries that fit in the page of the ioctl: `PAGE_SIZE` 4096, a header of 4 bytes, entries of
48. -/
def pollPageMax : Nat := (4096 - 4) / 48

/-- C `ntrdma_cq_process_poll_ioctl`, for a queue with a poll page. On success `howmany` is the
number of work completions. -/
def cqProcessPollIoctl (howmany : Nat) (pollList : List Poll) (qps : UInt32 → QpObj) (cqe : Cqe) :
    Except Errno Nat × CqPoll :=
  if pollPageMax < howmany then (.error .einval, ⟨pollList, qps, cqe, [], []⟩)
  else
    let res := cqPoll wcFromCqe howmany pollList qps cqe
    (cqPollResult res, res.2)

inductive PollPath where
  | verbs
  | ioctl

def PollPath.call (path : PollPath) (howmany : Nat) (pollList : List Poll) (qps : UInt32 → QpObj)
    (cqe : Cqe) : Except Errno Nat × CqPoll :=
  match path with
  | verbs => pollCq howmany pollList qps cqe
  | ioctl => cqProcessPollIoctl howmany pollList qps cqe

def CqRecord.wc (item : CqRecord) : Wc := ibWcFromCqe item.poll.key item.rqpKey item.cqe

def CqRecord.delivered (item : CqRecord) : Option Wc :=
  if cqeReported item.cqe then some item.wc else none

def logOf (p : Poll) (log : List CqRecord) : List CqRecord := log.filter fun item => item.poll = p

/-! ## What a call does to the queues -/

lemma setQp_queue {p : Poll} {qps : UInt32 → QpObj} {qp' : Qp} {q : Queue}
    (h : p.side.Turns (qps p.key).qp qp' q) (other : Poll) :
    other.queue (setQp qps p.key qp') = if other = p then q else other.queue qps := by
  obtain ⟨key, side⟩ := p
  obtain ⟨key', side'⟩ := other
  simp only [Poll.queue, setQp] at h ⊢
  by_cases hkey : key' = key
  · subst hkey
    rw [Function.update_self]
    refine (h side').trans ?_
    by_cases hside : side' = side
    · rw [if_pos hside, if_pos (by rw [hside])]
    · rw [if_neg hside, if_neg (fun heq => hside (Poll.mk.inj heq).2)]
  · rw [Function.update_of_ne hkey, if_neg (fun heq => hkey (Poll.mk.inj heq).1)]

/-- The entries were gone over: those of each queue in order, its completion index behind them. -/
structure GoesOver (qps qps' : UInt32 → QpObj) (log : List CqRecord) : Prop where
  cap : ∀ p : Poll, (p.queue qps').cap = (p.queue qps).cap
  ring : ∀ (p : Poll) (M K P : Nat), (p.queue qps).Ring M K P →
    ∃ K', (p.queue qps').Ring (M + (logOf p log).length) K' P
  slots : ∀ (p : Poll) (M K P : Nat), (p.queue qps).Ring M K P → ∀ (i : Nat) (item : CqRecord),
    (logOf p log)[i]? = some item → item.pos.toNat = (M + i) % (p.queue qps).cap.toNat
  same : ∀ key, (qps key).qp.EntriesKept (qps' key).qp
  entry : ∀ item ∈ log, item.poll.side.Entry (qps item.poll.key).qp item.pos.toNat item.cqe

section
variable {qps qps' qps'' : UInt32 → QpObj} {log log' : List CqRecord}

lemma logOf_append (p : Poll) (log log' : List CqRecord) :
    logOf p (log ++ log') = logOf p log ++ logOf p log' := List.filter_append ..

lemma logOf_eq_self {p : Poll} (h : ∀ item ∈ log, item.poll = p) : logOf p log = log :=
  List.filter_eq_self.2 fun item hitem => decide_eq_true (h item hitem)

/-- The entries of `log'` are at the slots behind those of `log`. -/
lemma slots_append {M cap : Nat}
    (h : ∀ (i : Nat) (item : CqRecord), log[i]? = some item → item.pos.toNat = (M + i) % cap)
    (h' : ∀ (i : Nat) (item : CqRecord), log'[i]? = some item →
      item.pos.toNat = (M + log.length + i) % cap) (i : Nat) (item : CqRecord)
    (hi : (log ++ log')[i]? = some item) : item.pos.toNat = (M + i) % cap := by
  rcases Nat.lt_or_ge i log.length with hlt | hge
  · rw [List.getElem?_append_left hlt] at hi
    exact h i item hi
  · rw [List.getElem?_append_right hge] at hi
    rw [h' _ item hi, Nat.add_assoc, Nat.add_sub_cancel' hge]

lemma GoesOver.refl (qps : UInt32 → QpObj) : GoesOver qps qps [] :=
  ⟨fun _ => rfl, fun _ _ K _ h => ⟨K, h⟩, fun _ _ _ _ _ _ _ hi => (by cases hi), fun _ => .refl _,
    nofun⟩

lemma GoesOver.trans (h : GoesOver qps qps' log) (h' : GoesOver qps' qps'' log') :
    GoesOver qps qps'' (log ++ log') := by
  refine ⟨fun p => (h'.cap p).trans (h.cap p), fun p M K P hring => ?_, fun p M K P hring => ?_,
    fun key => (h.same key).trans (h'.same key), fun item hitem => ?_⟩
  · obtain ⟨K1, hring1⟩ := h.ring p M K P hring
    rw [logOf_append, List.length_append, ← Nat.add_assoc]
    exact h'.ring p _ K1 P hring1
  · obtain ⟨K1, hring1⟩ := h.ring p M K P hring
    rw [logOf_append]
    refine slots_append (h.slots p M K P hring) ?_
    rw [← h.cap p]
    exact h'.slots p _ K1 P hring1
  · rcases List.mem_append.1 hitem with hitem | hitem
    · exact h.entry item hitem
    · exact h.same _ _ _ _ (h'.entry item hitem)

variable {key : UInt32}

lemma setQp_same {qp' : Qp} (h : (qps key).qp.EntriesKept qp') (k : UInt32) :
    (qps k).qp.EntriesKept (setQp qps key qp' k).qp := by
  simp only [setQp]
  by_cases hk : k = key
  · subst hk
    rw [Function.update_self]
    exact h
  · rw [Function.update_of_ne hk]
    exact .refl _

variable {p : Poll} {M K P : Nat}

lemma Poll.startAndGet_goes (h : (p.queue qps).Ring M K P) :
    ∃ qps', p.startAndGet qps = (pollRange (p.queue qps).done, qps') ∧ GoesOver qps qps' [] ∧
      (∀ other : Poll, other.queue qps' = if other = p then
        (p.queue qps).got else other.queue qps) := by
  obtain ⟨qp', hget, hturns, hsame⟩ := p.side.startAndGet_eq h
  have hqueue := setQp_queue hturns
  refine ⟨setQp qps p.key qp', by simp only [Poll.startAndGet, hget]; rfl,
    ⟨?_, ?_, ?_, setQp_same hsame, nofun⟩, hqueue⟩
  · intro other
    rw [hqueue]
    split
    next heq =>
      rw [heq]
      exact Queue.got_cap
    · rfl
  · intro other M K P hring
    rw [hqueue]
    split
    next heq =>
      rw [heq] at hring
      obtain ⟨K', hring', -⟩ := hring.got
      exact ⟨K', hring'⟩
    · exact ⟨K, hring⟩
  · intro _ _ _ _ _ _ _ hi
    cases hi

lemma GoesOver.left (h : GoesOver qps qps' log) (hring : (p.queue qps).Ring M K P) :
    (p.queue qps').left + (logOf p log).length = (p.queue qps).left := by
  obtain ⟨K', hring'⟩ := h.ring p M K P hring
  have hcmpl := hring'.cmpl_le
  have hcons := hring'.cons_le
  rw [hring.left, hring'.left]
  omega

/-- What `ntrdma_cq_cmpl_get` finds: nothing, or a range of the first queue that has one. -/
inductive CqGot (pollList : List Poll) (qps' : UInt32 → QpObj) :
    Except Errno (UInt32 × Range) × List Poll × (UInt32 → QpObj) → Prop where
  | none : (∀ p ∈ pollList, (p.queue qps').done.pos = (p.queue qps').done.stop) →
    CqGot pollList qps' (.error .eagain, pollList, qps')
  | found {pre p post} : pollList = pre ++ p :: post →
    (p.queue qps').done.pos ≠ (p.queue qps').done.stop →
    (p.queue qps').got = p.queue qps' →
    CqGot pollList qps' (.ok (p.key, { (p.queue qps').done with
      stop := batchStop qpBatchSize (p.queue qps').done }), post ++ (pre ++ [p]), qps')

def Rings (pollList : List Poll) (qps : UInt32 → QpObj) : Prop :=
  ∀ p ∈ pollList, ∃ M K P, (p.queue qps).Ring M K P

variable {pollList : List Poll}

lemma GoesOver.rings (h : GoesOver qps qps' log) (hrings : Rings pollList qps) :
    Rings pollList qps' := by
  intro p hp
  obtain ⟨M, K, P, hring⟩ := hrings p hp
  obtain ⟨K', hring'⟩ := h.ring p M K P hring
  exact ⟨_, K', P, hring'⟩

lemma cqCmplGetLoop_got {skipped rest : List Poll} (hrings : Rings rest qps)
    (hskipped : ∀ p ∈ skipped, (p.queue qps).done.pos = (p.queue qps).done.stop) :
    ∃ qps', GoesOver qps qps' [] ∧ CqGot (skipped ++ rest) qps'
      (cqCmplGetLoop skipped rest qps) := by
  induction rest generalizing skipped qps with
  | nil =>
    rw [List.append_nil]
    exact ⟨qps, .refl qps, .none hskipped⟩
  | cons p rest ih =>
    obtain ⟨M, K, P, hring⟩ := hrings p List.mem_cons_self
    obtain ⟨qps1, hget, hgoes, hqueue⟩ := Poll.startAndGet_goes hring
    have hdone : ∀ other : Poll, (other.queue qps1).done = (other.queue qps).done := by
      intro other
      rw [hqueue]
      split
      next heq =>
        rw [heq]
        exact Queue.got_done
      · rfl
    rw [cqCmplGetLoop, hget]
    by_cases hempty : (p.queue qps).done.pos = (p.queue qps).done.stop
    · simp only [pollRange, if_pos hempty]
      have hrings1 : Rings rest qps1 := hgoes.rings fun q hq => hrings q (List.mem_cons_of_mem p hq)
      have hskipped1 : ∀ q ∈ skipped ++ [p], (q.queue qps1).done.pos =
          (q.queue qps1).done.stop := by
        intro q hq
        rw [hdone]
        rcases List.mem_append.1 hq with hq | hq
        · exact hskipped q hq
        · rw [List.mem_singleton.1 hq]
          exact hempty
      obtain ⟨qps', hgoes', hgot⟩ := ih hrings1 hskipped1
      rw [List.append_assoc, List.singleton_append] at hgot
      exact ⟨qps', hgoes.trans hgoes', hgot⟩
    · simp only [pollRange, if_neg hempty]
      refine ⟨qps1, hgoes, ?_⟩
      rw [← hdone p] at hempty ⊢
      refine .found rfl hempty ?_
      rw [hqueue, if_pos rfl]
      exact Queue.got_got

variable {pos : UInt32}

lemma PollRun.records {qp qp' : Qp} {cqe cqe' : Cqe} {recs : List Cqe} (rqpKey : UInt32)
    (h : PollRun p.side.ops pos qp cqe recs qp' cqe') (hlt : pos.toNat + recs.length < 2 ^ 32)
    (hdone : (p.side.queue qp).abort = false → ∀ i < recs.length,
      (p.side.queue qp).Completed (pos.toNat + i)) :
    (pollRecords p rqpKey recs.length pos qp cqe).length = recs.length ∧
      (∀ item ∈ pollRecords p rqpKey recs.length pos qp cqe, item.poll = p) ∧
      (pollRecords p rqpKey recs.length pos qp cqe).filterMap CqRecord.delivered =
        (recs.filter cqeReported).map (ibWcFromCqe p.key rqpKey) ∧
      (∀ (i : Nat) (item : CqRecord),
        (pollRecords p rqpKey recs.length pos qp cqe)[i]? = some item →
        item.pos.toNat = pos.toNat + i) ∧
      ∀ item ∈ pollRecords p rqpKey recs.length pos qp cqe,
        p.side.Entry qp item.pos.toNat item.cqe := by
  induction h with
  | nil => exact ⟨rfl, nofun, rfl, nofun, nofun⟩
  | cons hcqe hrun ih =>
    rename_i pos qp cqe qp1 cqe1 recs qp' cqe'
    rw [List.length_cons] at hlt
    have hpos : (pos + 1).toNat = pos.toNat + 1 := toNat_succ (by omega)
    have hone := p.side.pollCqe_entry cqe fun habort => hdone habort 0 (Nat.succ_pos _)
    obtain ⟨⟨aborting, hturns⟩, hsame⟩ := PollRun.turns (.cons hcqe (.nil _ _ _))
    rw [hcqe] at hone
    obtain ⟨hlen, hmem, hout, hslots, hentry⟩ := ih (by omega) (by
      rw [hturns p.side, if_pos rfl]
      intro habort i hi
      obtain ⟨-, M, K, P, n, hring, hn⟩ := hdone habort (i + 1) (Nat.succ_lt_succ hi)
      rw [hpos, show pos.toNat + 1 + i = pos.toNat + (i + 1) by omega]
      exact ⟨habort, M, K, P, n, ⟨hring.cap, hring.cmpl, hring.cons, hring.post, hring.cmpl_le,
        hring.cons_le, hring.full⟩, hn⟩)
    rw [List.length_cons, pollRecords, hcqe]
    refine ⟨congrArg Nat.succ hlen, ?_, ?_, ?_, ?_⟩
    · exact List.forall_mem_cons.2 ⟨rfl, hmem⟩
    · by_cases hreported : cqeReported cqe1 = true
      · have hone : CqRecord.delivered ⟨p, pos, rqpKey, cqe1⟩ = some
          (ibWcFromCqe p.key rqpKey cqe1) :=
          if_pos hreported
        rw [List.filterMap_cons_some hone, hout, List.filter_cons_of_pos hreported, List.map_cons]
      · have hone : CqRecord.delivered ⟨p, pos, rqpKey, cqe1⟩ = none := if_neg hreported
        rw [List.filterMap_cons_none hone, hout, List.filter_cons_of_neg hreported]
    · intro i item hi
      cases i with
      | zero =>
        cases hi
        rfl
      | succ i =>
        rw [hslots i item hi, hpos]
        omega
    · exact List.forall_mem_cons.2 ⟨hone, fun item hitem => hsame _ _ _ (hentry item hitem)⟩

lemma Side.Turns.trans {side : Side} {a b c : Qp} {q q' : Queue} (h : side.Turns a b q)
    (h' : side.Turns b c q') : side.Turns a c q' := by
  intro other
  rw [h' other]
  split
  · rfl
  next hother => rw [h other, if_neg hother]

/-- Entries of one queue are gone over: its completion index moves on, and the other queues are not
touched. -/
lemma GoesOver.of_queue {q' : Queue} (hmem : ∀ item ∈ log, item.poll = p)
    (hpart : ∀ M K P, (p.queue qps).Ring M K P → ∃ K', (p.queue qps).Ring M K' P ∧
      Taking (p.queue qps).cap (p.queue qps).done M K' ∧
      log.length ≤ min (K' - M) ((p.queue qps).cap.toNat - M % (p.queue qps).cap.toNat))
    (hpos : pos.toNat = (p.queue qps).done.pos.toNat + log.length)
    (hq' : q' = { p.queue qps with
      aborting := q'.aborting, cmpl := update pos (p.queue qps).done.base (p.queue qps).cap })
    (hqueue : ∀ q : Poll, q.queue qps' = if q = p then q' else q.queue qps)
    (hsame : ∀ key, (qps key).qp.EntriesKept (qps' key).qp)
    (hslots : ∀ (i : Nat) (item : CqRecord), log[i]? = some item →
      item.pos.toNat = (p.queue qps).done.pos.toNat + i)
    (hentry : ∀ item ∈ log, p.side.Entry (qps p.key).qp item.pos.toNat item.cqe) :
    GoesOver qps qps' log := by
  have hlogOf := logOf_eq_self hmem
  have hlogOther : ∀ q, q ≠ p → logOf q log = [] := fun q hq =>
    List.filter_eq_nil_iff.2 fun item hitem => by simp [hmem item hitem, Ne.symm hq]
  refine ⟨fun q => ?_, fun q M K P hq => ?_, fun q M K P hq i item hi => ?_,
    hsame, fun item hitem => ?_⟩
  · rw [hqueue]
    split
    next heq => rw [heq, hq']
    · rfl
  · rw [hqueue]
    split
    next heq =>
      subst heq
      obtain ⟨K', hring', htake', hle⟩ := hpart M K P hq
      have hcmpl := hring'.cmpl_le
      have hfull := hring'.full
      have hstop := htake'.stop
      have hfits := htake'.stop_le
      rw [hlogOf, hq']
      exact ⟨K', hring'.cap, (htake'.stands.add hpos (by omega)).update hring'.cap, hring'.cons,
        hring'.post, by omega, hring'.cons_le, by dsimp only; omega⟩
    next heq =>
      rw [hlogOther q heq]
      exact ⟨K, hq⟩
  · by_cases heq : q = p
    · subst heq
      obtain ⟨K', -, htake', hle⟩ := hpart M K P hq
      rw [hlogOf] at hi
      have hi' := (List.getElem?_eq_some_iff.1 hi).1
      rw [hslots i item hi, htake'.slot_add (by omega)]
    · rw [hlogOther q heq] at hi
      cases hi
  · rw [hmem item hitem]
    exact hentry item hitem

structure CqWent (howmany : Nat) (s s' : CqPoll) (log : List CqRecord) : Prop where
  perm : s'.pollList.Perm s.pollList
  goes : GoesOver s.qps s'.qps log
  mem : ∀ item ∈ log, item.poll ∈ s.pollList
  log_eq : s'.log = s.log ++ log
  out : s'.out = s.out ++ log.filterMap CqRecord.delivered
  le : s'.out.length ≤ howmany

variable {toWc : UInt32 → UInt32 → Cqe → Wc} {howmany : Nat} {s : CqPoll}

lemma cqPollRange_went {pre : List Poll} (htoWc : toWc = ibWcFromCqe)
    (hlist : s.pollList = pre ++ [p]) (hring : ∃ M K P, (p.queue s.qps).Ring M K P)
    (hgot : (p.queue s.qps).got = p.queue s.qps)
    (hne : (p.queue s.qps).done.pos ≠ (p.queue s.qps).done.stop) (hroom : s.out.length < howmany) :
    ∃ log, log ≠ [] ∧ (∀ item ∈ log, item.poll = p) ∧
      CqWent howmany s (cqPollRange toWc howmany p.key
      { (p.queue s.qps).done with stop := batchStop qpBatchSize (p.queue s.qps).done } s) log := by
  obtain ⟨M, K, P, hring⟩ := hring
  obtain ⟨K', hring', htake⟩ := hring.got
  obtain ⟨n, hstop, hn, -, -⟩ := batchStop_spec htake hne
  have hend := htake.stop
  have hfits := htake.stop_le
  have h32 := hring.cap.lt
  have hsub : (batchStop qpBatchSize (p.queue s.qps).done -
      (p.queue s.qps).done.pos).toNat = n + 1 := by
    rw [toNat_sub32 (by omega)]
    omega
  obtain ⟨recs, hover⟩ := pollEntries_over p.side.ops (s.qps p.key).qp s.cqe hstop
    (show 0 < howmany - s.out.length by omega)
  have hlast : s.pollList.getLast? = some p := by rw [hlist, List.getLast?_concat]
  simp only [cqPollRange, hlast, hsub]
  generalize pollEntries p.side.ops (batchStop qpBatchSize (p.queue s.qps).done) (n + 1)
    (howmany - s.out.length) (p.queue s.qps).done.pos (s.qps p.key).qp s.cqe = batch at hover ⊢
  have hpos := hover.pos_eq
  have hlen := hover.le
  have hnonempty := hover.nonempty
  have hcount : (batch.pos - (p.queue s.qps).done.pos).toNat = recs.length := by
    rw [toNat_sub32 (by omega)]
    omega
  have hpart : ∀ M K P, (p.queue s.qps).Ring M K P → ∃ K', (p.queue s.qps).Ring M K' P ∧
      Taking (p.queue s.qps).cap (p.queue s.qps).done M K' ∧
      recs.length ≤ min (K' - M) ((p.queue s.qps).cap.toNat - M % (p.queue s.qps).cap.toNat) := by
    intro M K P hring
    obtain ⟨K', hring', htake'⟩ := hring.got
    rw [hgot] at hring'
    have hend' := htake'.stop
    exact ⟨K', hring', htake', by omega⟩
  obtain ⟨hlog, hmem, hout, hslots, hentry⟩ := hover.run.records (s.qps p.key).rqpKey (by omega) (by
    intro habort i hi
    obtain ⟨K', hring', htake', hpart⟩ := hpart M K P hring
    exact ⟨habort, M, K', P, M + i, hring', Nat.le_add_right M i, by omega,
      (htake'.slot_add (by omega)).symm⟩)
  rw [hcount]
  generalize pollRecords p (s.qps p.key).rqpKey recs.length
    (p.queue s.qps).done.pos (s.qps p.key).qp
    s.cqe = log at hlog hmem hout hslots hentry ⊢
  -- the queue that is polled shows the new completion index
  obtain ⟨⟨aborting, hturns⟩, hsame⟩ := hover.run.turns
  have hself : p.side.queue batch.qp = { p.queue s.qps with aborting } :=
    (hturns p.side).trans (if_pos rfl)
  obtain ⟨K1, hring1, htake1, hpart1⟩ := hpart M K P hring
  have hcmpl1 := hring1.cmpl_le
  have hbatch : (p.side.queue batch.qp).Ring M K1 P := by
    rw [hself]
    exact ⟨hring1.cap, hring1.cmpl, hring1.cons, hring1.post, hcmpl1, hring1.cons_le, hring1.full⟩
  have hidx : Idx (p.side.queue batch.qp).cap
      (update batch.pos (p.queue s.qps).done.base (p.side.queue batch.qp).cap)
        (M + recs.length) := by
    rw [hself]
    exact (htake1.stands.add hpos (by omega)).update hring1.cap
  obtain ⟨hput, hsame'⟩ := p.side.put_turns hbatch hidx (by omega)
  have hqueue := setQp_queue (hturns.trans hput)
  rw [hself] at hqueue
  rw [← hlog] at hpart hpos
  refine ⟨log, ?_, hmem, .refl _,
    .of_queue hmem hpart hpos rfl hqueue (setQp_same (hsame.trans hsame'))
      hslots hentry, ?_, rfl, ?_, ?_⟩
  · rw [ne_eq, ← List.length_eq_zero_iff]
    omega
  · intro item hitem
    rw [hmem item hitem, hlist]
    exact List.mem_append_right _ (List.mem_singleton_self p)
  · rw [hout, ← hover.out, htoWc]
  · have hroom' := hover.room_le
    rw [List.length_append, List.length_map]
    omega

lemma CqWent.refl (hle : s.out.length ≤ howmany) : CqWent howmany s s [] :=
  ⟨.refl _, .refl _, nofun, (List.append_nil _).symm, (List.append_nil _).symm, hle⟩

lemma CqWent.trans {a b c : CqPoll} {log log' : List CqRecord} (h : CqWent howmany a b log)
    (h' : CqWent howmany b c log') : CqWent howmany a c (log ++ log') := by
  refine ⟨h'.perm.trans h.perm, h.goes.trans h'.goes, fun item hitem => ?_, ?_, ?_, h'.le⟩
  · rcases List.mem_append.1 hitem with hitem | hitem
    · exact h.mem item hitem
    · exact h.perm.subset (h'.mem item hitem)
  · rw [h'.log_eq, h.log_eq, List.append_assoc]
  · rw [h'.out, h.out, List.filterMap_append, List.append_assoc]

def CqEnds (howmany : Nat) (pollList : List Poll) (res : Except Errno Unit × CqPoll) : Prop :=
  res.1 = .ok () ∧ res.2.out.length = howmany ∨
    res.1 = .error .eagain ∧
      ∀ p ∈ pollList, (p.queue res.2.qps).done.pos = (p.queue res.2.qps).done.stop

lemma GoesOver.sum_lt {pollList pollList' : List Poll} (h : GoesOver qps qps' log)
    (hrings : Rings pollList qps) (hperm : pollList'.Perm pollList) (hp : p ∈ pollList)
    (hne : logOf p log ≠ []) :
    (pollList'.map fun p => (p.queue qps').left).sum <
      (pollList.map fun p => (p.queue qps).left).sum := by
  have hleft : ∀ q ∈ pollList, (q.queue qps').left + (logOf q log).length = (q.queue qps).left := by
    intro q hq
    obtain ⟨M, K, P, hring⟩ := hrings q hq
    exact h.left hring
  rw [(hperm.map fun p => (p.queue qps').left).sum_eq]
  refine List.sum_lt_sum _ _ (fun q hq => ?_) ⟨p, hp, ?_⟩
  · have := hleft q hq
    omega
  · have := hleft p hp
    have := List.length_pos_of_ne_nil hne
    omega

lemma cqPollLoop_went {howmany n : Nat} (htoWc : toWc = ibWcFromCqe)
    (hrings : Rings s.pollList s.qps) (hle : s.out.length ≤ howmany)
    (hn : (s.pollList.map fun p => (p.queue s.qps).left).sum < n) :
    ∃ log, CqWent howmany s (cqPollLoop toWc howmany n s).2 log ∧
      CqEnds howmany s.pollList (cqPollLoop toWc howmany n s) := by
  induction n generalizing s with
  | zero => cases hn
  | succ n ih =>
    rw [cqPollLoop]
    split
    next hfull => exact ⟨[], .refl hle, .inl ⟨rfl, hle.antisymm hfull⟩⟩
    next hroom =>
      obtain ⟨qps', hgoes, hgot⟩ := cqCmplGetLoop_got hrings
        (show ∀ p ∈ ([] : List Poll), (p.queue s.qps).done.pos =
          (p.queue s.qps).done.stop from nofun)
      rw [cqCmplGet]
      generalize cqCmplGetLoop [] s.pollList s.qps = res at hgot ⊢
      rw [List.nil_append] at hgot
      cases hgot with
      | none hempty =>
        exact ⟨[], ⟨.refl _, hgoes, nofun, (List.append_nil _).symm, (List.append_nil _).symm, hle⟩,
          .inr ⟨rfl, hempty⟩⟩
      | found hlist hne hfix =>
        rename_i pre p post
        have hp : p ∈ s.pollList := by
          rw [hlist]
          exact List.mem_append_right _ List.mem_cons_self
        have hperm : (post ++ (pre ++ [p])).Perm s.pollList := by
          rw [hlist]
          exact List.perm_append_comm.trans (.of_eq (List.append_assoc ..))
        have hstart :
          CqWent howmany s { s with pollList := post ++ (pre ++ [p]), qps := qps' } [] :=
          ⟨hperm, hgoes, nofun, (List.append_nil _).symm, (List.append_nil _).symm, hle⟩
        obtain ⟨log, hlog, hmem, hwent⟩ := cqPollRange_went
          (s := { s with pollList := post ++ (pre ++ [p]), qps := qps' }) htoWc
          (List.append_assoc _ _ _).symm (hgoes.rings hrings p hp) hfix hne (Nat.lt_of_not_le hroom)
        have hround := hstart.trans hwent
        rw [List.nil_append] at hround
        have hlt := hround.goes.sum_lt hrings hround.perm hp (by rwa [logOf_eq_self hmem])
        dsimp only
        generalize cqPollRange toWc howmany p.key _ _ = s1 at hround hlt ⊢
        obtain ⟨log', hwent', hends⟩ := ih (hround.goes.rings fun q hq =>
          hrings q (hround.perm.subset hq))
          hround.le (by omega)
        refine ⟨log ++ log', hround.trans hwent', hends.imp id fun hrest =>
          ⟨hrest.1, fun q hq => ?_⟩⟩
        exact hrest.2 q (hround.perm.symm.subset hq)

lemma cqPoll_went (htoWc : toWc = ibWcFromCqe) (hrings : Rings pollList qps) (howmany : Nat)
    (cqe : Cqe) :
    ∃ log, CqWent howmany ⟨pollList, qps, cqe, [], []⟩
      (cqPoll toWc howmany pollList qps cqe).2 log ∧
      CqEnds howmany pollList (cqPoll toWc howmany pollList qps cqe) := by
  refine cqPollLoop_went htoWc hrings (Nat.zero_le _) (Nat.lt_succ_of_le ?_)
  refine List.sum_le_sum fun p hp => ?_
  obtain ⟨M, K, P, hring⟩ := hrings p hp
  have := hring.full
  rw [hring.left]
  omega

lemma cqPollResult_ends {res : Except Errno Unit × CqPoll} (h : CqEnds howmany pollList res) :
    cqPollResult res = .ok res.2.out.length ∧ (res.2.out.length < howmany →
      ∀ p ∈ pollList, (p.queue res.2.qps).done.pos = (p.queue res.2.qps).done.stop) := by
  refine ⟨?_, fun hlt => h.elim (fun hfull => absurd hfull.2 hlt.ne) And.right⟩
  rw [cqPollResult]
  split
  · rfl
  next hzero =>
    rw [ne_eq, not_not] at hzero
    obtain hend | hend := h <;> rw [hend.1, hzero]

/-- A call reports entries, no more than it was asked for, and less only if nothing is left. -/
structure PollPath.Called (path : PollPath) (howmany : Nat)
    (pollList : List Poll) (qps : UInt32 → QpObj)
    (cqe : Cqe) : Prop where
  le : (path.call howmany pollList qps cqe).2.out.length ≤ howmany
  count : ∀ n, (path.call howmany pollList qps cqe).1 = .ok n →
    n = (path.call howmany pollList qps cqe).2.out.length
  rest : ∀ n, (path.call howmany pollList qps cqe).1 = .ok n → n < howmany →
    ∀ p ∈ pollList, (p.queue (path.call howmany pollList qps cqe).2.qps).done.pos =
      (p.queue (path.call howmany pollList qps cqe).2.qps).done.stop
  out : (path.call howmany pollList qps cqe).2.out =
    (path.call howmany pollList qps cqe).2.log.filterMap CqRecord.delivered
  entry : ∀ item ∈ (path.call howmany pollList qps cqe).2.log,
    item.poll.side.Entry (qps item.poll.key).qp item.pos.toNat item.cqe

lemma PollPath.call_went (path : PollPath) (hrings : Rings pollList qps) (howmany : Nat)
    (cqe : Cqe) :
    (∃ log, CqWent howmany ⟨pollList, qps, cqe, [], []⟩
      (path.call howmany pollList qps cqe).2 log) ∧
      path.Called howmany pollList qps cqe := by
  have hpoll : ∀ (toWc : UInt32 → UInt32 → Cqe → Wc) (_ : toWc = ibWcFromCqe)
      (_ : path.call howmany pollList qps cqe =
        (cqPollResult (cqPoll toWc howmany pollList qps cqe),
          (cqPoll toWc howmany pollList qps cqe).2)),
      (∃ log, CqWent howmany ⟨pollList, qps, cqe, [], []⟩
        (path.call howmany pollList qps cqe).2 log) ∧
        path.Called howmany pollList qps cqe := by
    intro toWc htoWc hcall
    obtain ⟨log, hwent, hends⟩ := cqPoll_went htoWc hrings howmany cqe
    obtain ⟨hresult, hrest⟩ := cqPollResult_ends hends
    rw [hresult] at hcall
    refine ⟨⟨log, by rw [hcall]; exact hwent⟩, ?_, ?_, ?_, ?_, ?_⟩ <;> rw [hcall]
    · exact hwent.le
    · rintro n hn
      cases hn
      rfl
    · rintro n hn
      cases hn
      exact hrest
    · rw [hwent.out, hwent.log_eq]
      rfl
    · rw [hwent.log_eq]
      exact hwent.goes.entry
  cases path with
  | verbs => exact hpoll ibWcFromCqe rfl rfl
  | ioctl =>
    by_cases hmax : pollPageMax < howmany
    · have hcall : PollPath.ioctl.call howmany pollList qps cqe =
          (.error .einval, ⟨pollList, qps, cqe, [], []⟩) := if_pos hmax
      refine ⟨⟨[], by rw [hcall]; exact .refl (Nat.zero_le _)⟩, ?_, ?_, ?_, ?_, ?_⟩ <;> rw [hcall]
      · exact Nat.zero_le _
      · exact nofun
      · exact nofun
      · rfl
      · exact nofun
    · exact hpoll wcFromCqe rfl (if_neg hmax)

lemma cqCmplGetLoop_last {skipped rest pollList' : List Poll} {r : Range}
    (h : cqCmplGetLoop skipped rest qps = (.ok (key, r), pollList', qps')) :
    ∃ p ∈ rest, p.key = key ∧ pollList'.getLast? = some p ∧ pollList'.Perm (skipped ++ rest) ∧
      ∃ qps1, p.startAndGet qps1 = (.ok r, qps') := by
  induction rest generalizing skipped qps with
  | nil => cases h
  | cons p _ ih =>
    rw [cqCmplGetLoop] at h
    split at h
    · obtain ⟨q, hq, hkey, hlast, hperm, hstart⟩ := ih h
      rw [List.append_assoc, List.singleton_append] at hperm
      exact ⟨q, List.mem_cons_of_mem p hq, hkey, hlast, hperm, hstart⟩
    · cases h
    next r1 qps1 hstart =>
      cases h
      refine ⟨p, List.mem_cons_self, rfl, ?_, ?_, qps, hstart⟩
      · rw [← List.append_assoc, List.getLast?_concat]
      · exact List.perm_append_comm.trans (.of_eq (List.append_assoc ..))

end

/-! ## Whole runs -/

/-- A completion queue with the queue pairs, and all that was reported so far. -/
structure CqSys where
  pollList : List Poll
  qps : UInt32 → QpObj
  out : List Wc
  log : List CqRecord

inductive CqAct where
  | call (path : PollPath) (howmany : Nat) (cqe : Cqe)
  | world (qps : UInt32 → QpObj)

def CqAct.apply (s : CqSys) : CqAct → CqSys
  | call path howmany cqe =>
    let res := (path.call howmany s.pollList s.qps cqe).2
    ⟨res.pollList, res.qps, s.out ++ res.out, s.log ++ res.log⟩
  | world qps => { s with qps }

/-- The rings keep their size, completed entries are left to polling, the rest is done in order. -/
def CqAct.Allowed (s : CqSys) : CqAct → Prop
  | call _ _ _ => True
  | world qps => ∀ p ∈ s.pollList, (p.queue qps).cap = (p.queue s.qps).cap ∧
      (p.queue qps).cmpl = (p.queue s.qps).cmpl ∧ ∃ M K P, (p.queue qps).Ring M K P

def cqStep (s : CqSys) (act : CqAct) (s' : CqSys) : Prop := act.Allowed s ∧ s' = act.apply s

/-- The entries gone over are those of each ring in order, and all are delivered but those not to be
reported. -/
structure CqSys.InOrder (s : CqSys) (pollList : List Poll) (M : Poll → Nat) : Prop where
  perm : s.pollList.Perm pollList
  mem : ∀ item ∈ s.log, item.poll ∈ pollList
  ring : ∀ p ∈ pollList, ∃ K P, (p.queue s.qps).Ring (M p + (logOf p s.log).length) K P
  slots : ∀ p ∈ pollList, ∀ (i : Nat) (item : CqRecord), (logOf p s.log)[i]? = some item →
    item.pos.toNat = (M p + i) % (p.queue s.qps).cap.toNat
  out : s.out = s.log.filterMap CqRecord.delivered

section
variable {s : CqSys} {pollList : List Poll} {M : Poll → Nat}

lemma CqSys.InOrder.rings (h : s.InOrder pollList M) : Rings s.pollList s.qps := by
  intro p hp
  obtain ⟨K, P, hring⟩ := h.ring p (h.perm.subset hp)
  exact ⟨_, K, P, hring⟩

lemma CqSys.InOrder.apply {act : CqAct} (h : s.InOrder pollList M) (hallowed : act.Allowed s) :
    (act.apply s).InOrder pollList M := by
  cases act with
  | call path howmany cqe =>
    obtain ⟨⟨log, hwent⟩, -⟩ := path.call_went h.rings howmany cqe
    simp only [CqAct.apply]
    generalize (path.call howmany s.pollList s.qps cqe).2 = res at hwent ⊢
    have hlog : res.log = log := hwent.log_eq
    have hout : res.out = log.filterMap CqRecord.delivered := hwent.out
    rw [hlog, hout]
    refine ⟨hwent.perm.trans h.perm, ?_, fun p hp => ?_, fun p hp => ?_, ?_⟩
    · intro item hitem
      rcases List.mem_append.1 hitem with hitem | hitem
      · exact h.mem item hitem
      · exact h.perm.subset (hwent.mem item hitem)
    · obtain ⟨K, P, hring⟩ := h.ring p hp
      obtain ⟨K', hring'⟩ := hwent.goes.ring p _ K P hring
      rw [logOf_append, List.length_append, ← Nat.add_assoc]
      exact ⟨K', P, hring'⟩
    · obtain ⟨K, P, hring⟩ := h.ring p hp
      rw [hwent.goes.cap p, logOf_append]
      exact slots_append (h.slots p hp) (hwent.goes.slots p _ K P hring)
    · rw [List.filterMap_append, h.out]
  | world =>
    refine ⟨h.perm, h.mem, fun p hp => ?_, fun p hp i item hi => ?_, h.out⟩
    · obtain ⟨hcap, hcmpl, M', K, P, hring⟩ := hallowed p (h.perm.symm.subset hp)
      obtain ⟨K0, P0, hring0⟩ := h.ring p hp
      have hidx := hring0.cmpl
      rw [← hcap, ← hcmpl] at hidx
      exact ⟨_, _, hring.shift hidx⟩
    · obtain ⟨hcap, -⟩ := hallowed p (h.perm.symm.subset hp)
      simp only [CqAct.apply]
      rw [hcap]
      exact h.slots p hp i item hi

end

/-- In every run, the completed entries of every queue are gone over once and in order, and reported
but for unsignaled pushes. -/
theorem cqRun_inOrder {s s' : CqSys} {M : Poll → Nat} (hlog : s.log = []) (hout : s.out = [])
    (hrings : ∀ p ∈ s.pollList, ∃ K P, (p.queue s.qps).Ring (M p) K P)
    (hrun : Reaches cqStep s s') :
    s'.InOrder s.pollList M ∧
      (∀ (path : PollPath) (howmany : Nat) (cqe : Cqe),
        path.Called howmany s'.pollList s'.qps cqe) ∧
      ∀ pollList qps key r pollList' qps', cqCmplGet pollList qps =
        (.ok (key, r), pollList', qps') →
        ∃ p ∈ pollList, p.key = key ∧ pollList'.getLast? = some p ∧ pollList'.Perm pollList ∧
          ∃ qps1, p.startAndGet qps1 = (.ok r, qps') := by
  have hstart : s.InOrder s.pollList M := by
    refine ⟨.refl _, ?_, ?_, ?_, ?_⟩ <;> rw [hlog]
    · exact nofun
    · exact hrings
    · exact fun _ _ _ _ hi => by cases hi
    · exact hout
  have hend : s'.InOrder s.pollList M := by
    refine hrun.invariant (I := fun t => t.InOrder s.pollList M) hstart fun t act u ht hstep => ?_
    obtain ⟨hallowed, rfl⟩ := hstep
    exact ht.apply hallowed
  exact ⟨hend, fun path howmany cqe => (path.call_went hend.rings howmany cqe).2,
    fun pollList qps key r pollList' qps' h => cqCmplGetLoop_last h⟩

def completedQps : UInt32 → QpObj := fun _ =>
  ⟨{ Qp.fresh 4 with
      sendPost := 2, sendProd := 2, sendCons := 2
      sendCqe := fun pos => ⟨.ofNat (7 + pos), wrSend, wcSuccess, 0, 0, sendSignaled⟩ }, 2, 0⟩

theorem cqRun_inOrder_two :
    ∃ s : CqSys, Reaches cqStep ⟨[⟨1, .send⟩, ⟨1, .recv⟩], completedQps, [], []⟩ s ∧
      s.out.map Wc.wrId = [7, 8] ∧ s.pollList = [⟨1, .recv⟩, ⟨1, .send⟩] ∧
      s.InOrder [⟨1, .send⟩, ⟨1, .recv⟩] fun _ => 0 := by
  have hrun : Reaches cqStep ⟨[⟨1, .send⟩, ⟨1, .recv⟩], completedQps, [], []⟩
      (CqAct.apply (CqAct.apply ⟨[⟨1, .send⟩, ⟨1, .recv⟩], completedQps, [], []⟩
        (.call .verbs 1 ⟨0, 0, 0, 0, 0, 0⟩)) (.call .ioctl 2 ⟨0, 0, 0, 0, 0, 0⟩)) :=
    (Reaches.refl.snoc (a := .call .verbs 1 ⟨0, 0, 0, 0, 0, 0⟩) ⟨trivial, rfl⟩).snoc
      (a := .call .ioctl 2 ⟨0, 0, 0, 0, 0, 0⟩) ⟨trivial, rfl⟩
  refine ⟨_, hrun, by decide, by decide, (cqRun_inOrder rfl rfl ?_ hrun).1⟩
  intro p hp
  rw [List.mem_cons, List.mem_singleton] at hp
  obtain rfl | rfl := hp
  · exact ⟨2, 2, ⟨by decide, by decide⟩, rfl, rfl, rfl, by decide, Nat.le_refl 2, by decide⟩
  · exact ⟨0, 0, ⟨by decide, by decide⟩, rfl, rfl, rfl, Nat.le_refl 0, Nat.le_refl 0, by decide⟩

/-! ## Requests that failed -/

structure SendWqe.Labels (wqe : SendWqe) (cqe : Cqe) : Prop where
  ulpHandle : cqe.ulpHandle = wqe.ulpHandle
  opCode : cqe.opCode = wqe.opCode
  flags : cqe.flags = wqe.flags

def SendsLabelled (qps : UInt32 → QpObj) : Prop :=
  ∀ key pos, (Side.queue .send (qps key).qp).Completed pos →
    ((qps key).qp.sendWqe pos).Labels ((qps key).qp.sendCqe pos)

def CqRecord.ReportsFailure (item : CqRecord) (wqe : SendWqe) : Prop :=
  ∃ wc, item.delivered = some wc ∧ wc.wrId = wqe.ulpHandle ∧
    wc.status = ibWcStatusFromCqe item.cqe.opStatus ∧ wc.status ≠ .success

lemma ibWcStatusFromCqe_ne {opStatus : UInt16} (h : opStatus ≠ wcSuccess) :
    ibWcStatusFromCqe opStatus ≠ .success := by
  rw [ibWcStatusFromCqe, if_neg h]
  repeat' split
  all_goals nofun

/-- A call reports a send that failed exactly if it does not push data or is signaled. -/
theorem call_reports_failed_iff (path : PollPath) {pollList : List Poll} {qps : UInt32 → QpObj}
    (hrings : Rings pollList qps) (hlabels : SendsLabelled qps) (howmany : Nat) (cqe : Cqe) :
    (path.call howmany pollList qps cqe).2.out =
        (path.call howmany pollList qps cqe).2.log.filterMap CqRecord.delivered ∧
      ∀ item ∈ (path.call howmany pollList qps cqe).2.log, item.poll.side = .send →
        item.cqe.opStatus ≠ wcSuccess →
        (item.ReportsFailure ((qps item.poll.key).qp.sendWqe item.pos.toNat) ↔
          wrCodePushData ((qps item.poll.key).qp.sendWqe item.pos.toNat).opCode = false ∨
            isSignaled ((qps item.poll.key).qp.sendWqe item.pos.toNat).flags = true) := by
  have hcalled := (path.call_went hrings howmany cqe).2
  refine ⟨hcalled.out, fun item hitem hside hfailed => ?_⟩
  have hentry := hcalled.entry item hitem
  rw [hside] at hentry
  have hlabel : ((qps item.poll.key).qp.sendWqe item.pos.toNat).Labels item.cqe := by
    obtain ⟨hdone, heq⟩ | ⟨opStatus, heq⟩ := hentry
    · rw [heq]
      exact hlabels _ _ hdone
    · rw [heq]
      exact ⟨rfl, rfl, rfl⟩
  have hreported : cqeReported item.cqe = true ↔
      wrCodePushData ((qps item.poll.key).qp.sendWqe item.pos.toNat).opCode = false ∨
        isSignaled ((qps item.poll.key).qp.sendWqe item.pos.toNat).flags = true := by
    rw [cqeReported, hlabel.opCode, hlabel.flags, Bool.or_eq_true, Bool.not_eq_true']
  rw [← hreported]
  constructor
  · rintro ⟨wc, hwc, -⟩
    by_contra hnot
    rw [CqRecord.delivered, if_neg hnot] at hwc
    cases hwc
  · intro hrep
    exact ⟨item.wc, if_pos hrep, hlabel.ulpHandle, rfl, ibWcStatusFromCqe_ne hfailed⟩

def abortingQps (flags : UInt32) : UInt32 → QpObj := fun _ =>
  ⟨{ Qp.fresh 4 with
      sendPost := 1, sendAborting := true
      sendWqe := fun _ => ⟨7, wrSend, 0, 0, ⟨0, 0, 0⟩, 0, flags, 0, []⟩ }, 2, 0⟩

def abortingCall (path : PollPath) (flags : UInt32) : Except Errno Nat × CqPoll :=
  path.call 1 [⟨1, .send⟩] (abortingQps flags) ⟨0, 0, 0, 0, 0, 0⟩

/-- The flush of a send that is not signaled is gone over and not reported, by both ways to poll. -/
theorem call_drops_failed :
    ((abortingCall .verbs 0).1 = .ok 0 ∧ (abortingCall .verbs 0).2.out = [] ∧
      (abortingCall .verbs 0).2.log.map (fun item =>
        (item.pos, item.cqe.ulpHandle, item.cqe.opStatus)) =
        [(0, 7, wcErrLocPort)] ∧ ((abortingCall .verbs 0).2.qps 1).qp.sendCmpl = 1) ∧
    ((abortingCall .ioctl 0).1 = .ok 0 ∧ (abortingCall .ioctl 0).2.out = [] ∧
      (abortingCall .ioctl 0).2.log.map (fun item =>
        (item.pos, item.cqe.ulpHandle, item.cqe.opStatus)) =
        [(0, 7, wcErrLocPort)] ∧ ((abortingCall .ioctl 0).2.qps 1).qp.sendCmpl = 1) := by decide

theorem call_reports_failed_iff_signaled :
    (abortingCall .verbs sendSignaled).2.out.map Wc.wrId = [7] ∧
      ∀ item ∈ (abortingCall .verbs sendSignaled).2.log, item.poll.side = .send →
        item.cqe.opStatus ≠ wcSuccess →
        (item.ReportsFailure ((abortingQps sendSignaled item.poll.key).qp.sendWqe item.pos.toNat) ↔
          wrCodePushData ((abortingQps sendSignaled item.poll.key).qp.sendWqe
            item.pos.toNat).opCode = false ∨
            isSignaled ((abortingQps sendSignaled item.poll.key).qp.sendWqe
              item.pos.toNat).flags = true) := by
  have hrings : Rings [⟨1, .send⟩] (abortingQps sendSignaled) := by
    intro p hp
    rw [List.mem_singleton.1 hp]
    exact ⟨0, 0, 1, ⟨by decide, by decide⟩, rfl, rfl, rfl, Nat.le_refl 0, Nat.zero_le 1, by decide⟩
  have hlabels : SendsLabelled (abortingQps sendSignaled) := by
    -- nothing is completed: the consumer index is the completion index
    rintro key pos ⟨-, M, K, P, n, hring, hM, hK, -⟩
    have hMK : M = K := Idx.inj hring.cmpl hring.cons hring.cmpl_le (by
      have := hring.cons_le
      have := hring.full
      omega)
    omega
  exact ⟨by decide, (call_reports_failed_iff .verbs hrings hlabels 1 ⟨0, 0, 0, 0, 0, 0⟩).2⟩

end Ntrdma
