import Ntrdma.Lib.Run
import Ntrdma.Qp.Order
import Ntrdma.Qp.Poll
import Ntrdma.Qp.State

/-!
# Flushing the sends

Polling the sends of a queue pair that goes into abort, one call after another: the getter, which
`ntrdma_qp_poll_send_start_and_get` may call twice, `ntrdma_qp_poll_send_cqe` for each entry, and
`ntrdma_qp_send_cmpl_put`. In between, requests are posted, entries are sent, completions and
consumer indices of the peer arrive, and the state is modified; the lock of the completions only
keeps other polls out. The records that polling yields are kept in the state, together with two
things the code does not store: the entries that were posted and the number of completions that were
seen.
-/

namespace Ntrdma
open Lib Ntrdma.Ring

/-- A record that polling yields: the position, if the sends were in abort, and the completion
entry. -/
structure SendRecord where
  pos : UInt32
  flushed : Bool
  cqe : Cqe

/-- Where a poll is: outside, between the two calls of the getter, or going over a range. -/
inductive PollPhase where
  | idle
  | again
  | reading (r : Range)

/-- The sends of a queue pair and what was polled: `posted` are the entries in order, `seen` the
completions seen before the abort. -/
structure SendPolling where
  qp : Qp
  phase : PollPhase
  out : List SendRecord
  posted : List SendWqe
  seen : Nat

/-- The start of polling, of a ring with the entries from counter `M` up to `P`, of which the peer
completed those up to `K`. -/
def SendPolling.init (qp : Qp) (M K P : Nat) : SendPolling where
  qp := qp
  phase := .idle
  out := []
  posted := (List.range (P - M)).map fun i => qp.sendWqe ((M + i) % qp.sendCap.toNat)
  seen := K

inductive SendAct where
  | start
  | again
  | read (old : Cqe)
  | put
  | post (dev : Dev) (umem : UInt64 → Option UInt8) (rqp : Rqp) (chan : Chan) (wrs : List SendWr)
  | work (dev : Dev) (rqp : Rqp) (chan : Chan)
  | arriveCons (n : Nat) (idx : UInt32)
  | arriveCqe (pos : Nat) (cqe : Cqe)
  | modify (newState : QpState)
  | peerModify (newState : QpState)
  | reset
  | stall

def SendPolling.get (s : SendPolling) (empty : Qp → PollPhase) : SendPolling :=
  let (r, qp) := s.qp.sendCmplGet
  { s with
    qp
    phase := if r.pos = r.stop then empty qp else .reading
      { r with stop := batchStop qpBatchSize r } }

/-- The entries that a call of `ntrdma_post_send` left in the ring. -/
def PostSend.left (res : PostSend) (qp : Qp) (umem : UInt64 → Option UInt8) (wrs : List SendWr) :
    List SendWqe :=
  match res.bad with
  | none => []
  | some bad => deferred ((wrs.take (wrs.length - bad.length)).map (wqeOf qp umem))

def SendAct.apply (s : SendPolling) : SendAct → SendPolling
  | start =>
    match s.phase with
    | .idle => s.get fun qp => if qp.sendAbortFirst then .again else .idle
    | _ => s
  | again =>
    match s.phase with
    | .again => s.get fun _ => .idle
    | _ => s
  | read old =>
    match s.phase with
    | .reading r =>
      if r.pos = r.stop then s
      else
        let (cqe, qp) := s.qp.pollSendCqe r.pos old
        { s with
          qp
          phase := .reading { r with pos := r.pos + 1 }
          out := s.out ++ [⟨r.pos, s.qp.sendAbort, cqe⟩] }
    | _ => s
  | put =>
    match s.phase with
    | .reading r => { s with qp := s.qp.sendCmplPut r.pos r.base, phase := .idle }
    | _ => s
  | post dev umem rqp chan wrs =>
    let res := postSend dev umem s.qp rqp chan wrs
    { s with qp := res.qp, posted := s.posted ++ res.left s.qp umem wrs }
  | work dev rqp chan => { s with qp := (sendWork dev s.qp rqp chan).qp }
  | arriveCons n idx =>
    { s with qp := { s.qp with sendCons := idx }, seen := if s.qp.sendAbort then s.seen else n }
  | arriveCqe pos cqe =>
    { s with qp := { s.qp with sendCqe := Function.update s.qp.sendCqe pos cqe } }
  | modify newState => { s with qp := modifyQpState s.qp newState }
  | peerModify newState => { s with qp := { s.qp with state := newState } }
  | reset => { s with qp := qpReset s.qp }
  | stall => { s with qp := qpSendStall s.qp }

/-- The peer sends indices in order, before the abort, and an aborting queue pair is not moved to a
state without error. -/
def SendAct.Allowed (s : SendPolling) : SendAct → Prop
  | arriveCons n idx => Idx s.qp.sendCap idx n ∧ (s.qp.sendAbort = false → s.seen ≤ n ∧
      ∃ D, Idx s.qp.sendCap s.qp.sendProd D ∧ n ≤ D ∧ D ≤ s.seen + s.qp.sendCap.toNat)
  | modify newState => (s.qp.sendAborting || s.qp.sendAbort) = true → isStateError newState = true
  | _ => True

def sendPollStep (s : SendPolling) (act : SendAct) (s' : SendPolling) : Prop :=
  act.Allowed s ∧ s' = act.apply s

/-- With nothing in between, the calls of the getter are those of
`ntrdma_qp_poll_send_start_and_get`. -/
lemma SendPolling.start_again (s : SendPolling) (h : s.phase = .idle) :
    SendAct.apply (SendAct.apply s .start) .again =
      match s.qp.pollSendStartAndGet with
      | (.error _, qp) => { s with qp, phase := .idle }
      | (.ok r, qp) => { s with qp, phase := .reading r } := by
  simp only [SendAct.apply, h, SendPolling.get, Qp.pollSendStartAndGet, pollStartAndGet]
  by_cases hempty : s.qp.sendCmplGet.1.pos = s.qp.sendCmplGet.1.stop
  · cases hfirst : s.qp.sendCmplGet.2.sendAbortFirst with
    | false => simp [hempty]
    | true =>
      simp only [hempty, if_true, beq_self_eq_true, Bool.and_self]
      split <;> rfl
  · simp [hempty]

/-- The send indices in unrolled counters: completed, consumed, produced, posted. -/
structure Qp.SendLine (qp : Qp) (M K D P : Nat) : Prop where
  cap : Cap qp.sendCap
  cmpl : Idx qp.sendCap qp.sendCmpl M
  cons : Idx qp.sendCap qp.sendCons K
  prod : Idx qp.sendCap qp.sendProd D
  post : Idx qp.sendCap qp.sendPost P
  cmpl_le : M ≤ K
  cons_le : K ≤ D
  prod_le : D ≤ P
  full : P ≤ M + qp.sendCap.toNat

/-! ## What holds at every step -/

/-- The range is being gone over: it is at the counter `N` and ends at `E` or before. -/
structure Reading (cap : UInt32) (r : Range) (N E : Nat) : Prop where
  stands : Stands cap r.base r.pos N
  le : r.pos.toNat ≤ r.stop.toNat
  fits : r.stop.toNat ≤ cap.toNat
  upto : N + (r.stop.toNat - r.pos.toNat) ≤ E

section
variable {cap : UInt32} {r : Range} {N E : Nat}

lemma Reading.mono {E' : Nat} (h : Reading cap r N E) (hE : E ≤ E') : Reading cap r N E' :=
  ⟨h.stands, h.le, h.fits, h.upto.trans hE⟩

lemma Reading.lt (h : Reading cap r N E) (hne : r.pos ≠ r.stop) : r.pos.toNat < r.stop.toNat := by
  have := h.le
  rw [ne_eq, ← UInt32.toNat_inj] at hne
  omega

lemma Reading.slot (hcap : Cap cap) (h : Reading cap r N E) (hne : r.pos ≠ r.stop) :
    r.pos.toNat = N % cap.toNat :=
  h.stands.slot hcap ((h.lt hne).trans_le h.fits)

lemma Reading.succ (hcap : Cap cap) (h : Reading cap r N E) (hne : r.pos ≠ r.stop) :
    Reading cap { r with pos := r.pos + 1 } (N + 1) E ∧ N + 1 ≤ E := by
  have hlt := h.lt hne
  have hfits := h.fits
  have hupto := h.upto
  have h32 := hcap.lt
  have hnat : (r.pos + 1).toNat = r.pos.toNat + 1 := toNat_succ (by omega)
  exact ⟨⟨h.stands.succ hcap (by omega), by dsimp only; omega,
    hfits, by dsimp only; omega⟩, by omega⟩

lemma Taking.reading (h : Taking cap r N E) (hne : r.pos ≠ r.stop) :
    Reading cap { r with stop := batchStop qpBatchSize r } N E := by
  obtain ⟨n, hstop, hn, -, -⟩ := batchStop_spec h hne
  have hend := h.stop
  have hle := h.stop_le
  exact ⟨h.stands, by dsimp only; omega, by dsimp only; omega, by dsimp only; omega⟩

end

/-- A record of the counter `n`, if the completions up to `seen` were seen before the abort. -/
structure SendRecord.Of (item : SendRecord) (cap : UInt32) (n seen : Nat)
    (wqe : SendWqe) : Prop where
  slot : item.pos.toNat = n % cap.toNat
  flushed : item.flushed = true ↔ seen ≤ n
  flush : seen ≤ n → item.cqe = sendFail wqe (if n = seen then wcErrLocPort else wcErrAborted)

/-- `M` is completed, `start` is where polling began, and what was yielded is between. -/
structure SendPolling.Inv (s : SendPolling) (start M : Nat) : Prop where
  cap : Cap s.qp.sendCap
  cmpl : Idx s.qp.sendCap s.qp.sendCmpl M
  post : Idx s.qp.sendCap s.qp.sendPost (start + s.posted.length)
  full : start + s.posted.length ≤ M + s.qp.sendCap.toNat
  entries : ∀ (i : Nat) (wqe : SendWqe), s.posted[i]? = some wqe → M ≤ start + i →
    wqe.SameRequest (s.qp.sendWqe ((start + i) % s.qp.sendCap.toNat))
  yielded : M ≤ start + s.out.length
  cons : ∃ K, Idx s.qp.sendCap s.qp.sendCons K
  before : s.qp.sendAbort = false → Idx s.qp.sendCap s.qp.sendCons s.seen ∧
    start + s.out.length ≤ s.seen ∧ ∃ D, Idx s.qp.sendCap s.qp.sendProd D ∧ s.seen ≤ D ∧
      D ≤ start + s.posted.length
  after : s.qp.sendAbort = true → s.seen ≤ start + s.out.length ∧ s.out.length ≤ s.posted.length ∧
    s.qp.sendAbortFirst = decide (start + s.out.length = s.seen)
  closed : (∀ r, s.phase ≠ .reading r) → M = start + s.out.length
  reading : ∀ r, s.phase = .reading r → Reading s.qp.sendCap r (start + s.out.length)
    (if s.qp.sendAbort then start + s.posted.length else s.seen)
  records : ∀ (i : Nat) (item : SendRecord), s.out[i]? = some item →
    ∃ wqe, s.posted[i]? = some wqe ∧ item.Of s.qp.sendCap (start + i) s.seen wqe

structure Qp.SendCore (qp qp' : Qp) : Prop where
  cap : qp'.sendCap = qp.sendCap
  post : qp'.sendPost = qp.sendPost
  prod : qp'.sendProd = qp.sendProd
  cmpl : qp'.sendCmpl = qp.sendCmpl
  cons : qp'.sendCons = qp.sendCons
  wqe : qp'.sendWqe = qp.sendWqe
  abort : qp'.sendAbort = qp.sendAbort
  first : qp'.sendAbortFirst = qp.sendAbortFirst

section
variable {s : SendPolling} {start M : Nat}

lemma SendPolling.Inv.le (h : s.Inv start M) : s.out.length ≤ s.posted.length := by
  cases habort : s.qp.sendAbort with
  | true => exact (h.after habort).2.1
  | false =>
    obtain ⟨-, hseen, D, -, hD, hP⟩ := h.before habort
    omega

variable {qp : Qp}

lemma SendPolling.Inv.congr (h : s.Inv start M) (hcore : s.qp.SendCore qp) :
    SendPolling.Inv { s with qp } start M := by
  obtain ⟨hcap, hpost, hprod, hcmpl, hcons, hwqe, habort, hfirst⟩ := hcore
  obtain ⟨h1, h2, h3, h4, h5, h6, h7, h8, h9, h10, h11, h12⟩ := h
  rw [← hcap] at h1 h2 h3 h4 h5 h7 h8 h11 h12
  rw [← hcmpl] at h2
  rw [← hpost] at h3
  rw [← hwqe] at h5
  rw [← hcons] at h7 h8
  rw [← hprod, ← habort] at h8
  rw [← habort, ← hfirst] at h9
  rw [← habort] at h11
  exact ⟨h1, h2, h3, h4, h5, h6, h7, h8, h9, h10, h11, h12⟩

lemma SendPolling.Inv.worked (h : s.Inv start M) (hwork : s.qp.Worked qp) :
    SendPolling.Inv { s with qp } start M := by
  obtain ⟨hframe, hsame, hpend⟩ := hwork
  have hentries : ∀ (i : Nat) (wqe : SendWqe), s.posted[i]? = some wqe → M ≤ start + i →
      wqe.SameRequest (qp.sendWqe ((start + i) % s.qp.sendCap.toNat)) :=
    fun i wqe hi hM => (h.entries i wqe hi hM).trans (hsame _)
  have hbefore : s.qp.sendAbort = false → Idx s.qp.sendCap s.qp.sendCons s.seen ∧
      start + s.out.length ≤ s.seen ∧ ∃ D, Idx s.qp.sendCap qp.sendProd D ∧ s.seen ≤ D ∧
        D ≤ start + s.posted.length := by
    intro habort
    obtain ⟨hcons, hseen, D, hD, hseenD, hDP⟩ := h.before habort
    have hfull := h.full
    have hyielded := h.yielded
    obtain ⟨D', hDD', hpend'⟩ := hpend D _ ⟨h.cap, hD, h.post, hDP, by omega⟩
    have hprod := hpend'.prod
    rw [show qp.sendCap = s.qp.sendCap by rw [hframe]] at hprod
    exact ⟨hcons, hseen, D', hprod, hseenD.trans hDD', hpend'.le⟩
  rw [hframe]
  exact ⟨h.cap, h.cmpl, h.post, h.full, hentries, h.yielded, h.cons, hbefore,
    h.after, h.closed, h.reading,
    h.records⟩

variable {n : Nat}

lemma SendPolling.Inv.posted {dev : Dev} {umem : UInt64 → Option UInt8} {chan : Chan}
    {wrs : List SendWr} {res : PostResult} (h : s.Inv start M)
    (hpost : Posted dev umem s.qp chan false wrs (start + s.posted.length) M n res) :
    SendPolling.Inv { s with
      qp := res.qp
      posted := s.posted ++ deferred ((wrs.take n).map (wqeOf s.qp umem)) } start M := by
  have hyielded := h.yielded
  have hring := hpost.ring
  have hslots := hpost.slots
  have hholds := hpost.holds
  have hframe := hpost.frame
  generalize deferred ((wrs.take n).map (wqeOf s.qp umem)) = new at hring hholds ⊢
  have hcap : res.qp.sendCap = s.qp.sendCap := by rw [hframe]
  have hpost' := hring.post
  have hfull' := hring.full
  rw [hcap, Nat.add_assoc, ← List.length_append] at hpost'
  rw [hcap, Nat.add_assoc, ← List.length_append] at hfull'
  have hentries : ∀ (i : Nat) (wqe : SendWqe), (s.posted ++ new)[i]? = some wqe → M ≤ start + i →
      wqe.SameRequest (res.qp.sendWqe ((start + i) % s.qp.sendCap.toNat)) := by
    intro i wqe hi hM
    rcases Nat.lt_or_ge i s.posted.length with hlt | hge
    · rw [List.getElem?_append_left hlt] at hi
      rw [hslots (start + i) hM (by omega)]
      exact h.entries i wqe hi hM
    · rw [List.getElem?_append_right hge] at hi
      have hslot := hholds.getElem? hi
      rw [show start + s.posted.length + (i - s.posted.length) = start + i by omega] at hslot
      rw [hslot]
      exact .refl wqe
  have hgrow : s.posted.length ≤ (s.posted ++ new).length := by
    rw [List.length_append]
    omega
  rw [hframe]
  refine ⟨h.cap, h.cmpl, hpost', hfull', hentries, hyielded, h.cons,
    fun habort => ?_, fun habort => ?_,
    h.closed, fun r hr => (h.reading r hr).mono ?_, fun i item hi => ?_⟩
  · obtain ⟨hcons, hseen, D, hD, hseenD, hDP⟩ := h.before habort
    exact ⟨hcons, hseen, D, hD, hseenD, by dsimp only; omega⟩
  · obtain ⟨hseen, hout, hfirst⟩ := h.after habort
    exact ⟨hseen, hout.trans hgrow, hfirst⟩
  · dsimp only
    split <;> omega
  · obtain ⟨wqe, hwqe, hof⟩ := h.records i item hi
    refine ⟨wqe, ?_, hof⟩
    rw [List.getElem?_append_left (List.getElem?_eq_some_iff.1 hwqe).1]
    exact hwqe

def SendPolling.done (s : SendPolling) (start : Nat) : Nat :=
  if s.qp.sendAbort then start + s.posted.length else s.seen

lemma SendPolling.Inv.phase {phase : PollPhase} (h : s.Inv start M) (hM : M = start + s.out.length)
    (hreading : ∀ r, phase = .reading r → Reading s.qp.sendCap r M (s.done start)) :
    SendPolling.Inv { s with phase } start M := by
  subst hM
  exact ⟨h.cap, h.cmpl, h.post, h.full, h.entries, h.yielded, h.cons,
    h.before, h.after, fun _ => rfl,
    hreading, h.records⟩

lemma SendPolling.Inv.get {empty : Qp → PollPhase} (h : s.Inv start M)
    (hM : M = start + s.out.length) (hempty : ∀ qp r, empty qp ≠ .reading r) :
    (s.get empty).Inv start M := by
  have hle := h.le
  have hfull := h.full
  -- the queue pair of the getter keeps what holds, and its range ends at what is done
  have key : ∀ r qp E, s.qp.sendCmplGet = (r, qp) →
    SendPolling.Inv { s with qp, phase := .idle } start M →
      Taking s.qp.sendCap r M E → qp.sendCap = s.qp.sendCap →
      (r.pos ≠ r.stop → E = SendPolling.done { s with qp } start) → (s.get empty).Inv start M := by
    intro r qp E hget hinv htake hcap hE
    simp only [SendPolling.get, hget]
    refine SendPolling.Inv.phase (s := { s with qp, phase := .idle }) hinv hM fun r' hr' => ?_
    split at hr'
    · exact absurd hr' (hempty _ _)
    next hne =>
      cases hr'
      have hreading := Taking.reading htake hne
      rw [hE hne] at hreading
      rw [hcap]
      exact hreading
  have hidle : SendPolling.Inv { s with phase := .idle } start M := h.phase hM nofun
  cases habort : s.qp.sendAbort with
  | true =>
    obtain ⟨hseen, hout, hfirst⟩ := h.after habort
    refine key (consume s.qp.sendPost s.qp.sendCmpl s.qp.sendCap)
      { s.qp with sendProd := s.qp.sendPost, sendCons := s.qp.sendPost } (start + s.posted.length)
      (by simp [Qp.sendCmplGet, habort]) ?_ (consume_taking h.cap h.post
        h.cmpl (by omega) hfull) rfl
      fun _ => by simp [SendPolling.done, habort]
    exact ⟨h.cap, h.cmpl, h.post, hfull, h.entries, h.yielded, ⟨_, h.post⟩,
      fun hf => absurd (habort.symm.trans hf) nofun, fun _ =>
        ⟨hseen, hout, hfirst⟩, hidle.closed, nofun,
      h.records⟩
  | false =>
    obtain ⟨hcons, hseen, D, hD, hseenD, hDP⟩ := h.before habort
    have htake := consume_taking h.cap hcons h.cmpl (show M ≤ s.seen by omega) (by omega)
    by_cases hswitch : s.qp.sendAborting = true ∧
        (consume s.qp.sendCons s.qp.sendCmpl s.qp.sendCap).pos =
          (consume s.qp.sendCons s.qp.sendCmpl s.qp.sendCap).stop
    · obtain ⟨haborting, hnone⟩ := hswitch
      have hMseen := htake.empty_iff.1 hnone
      refine key _ { s.qp with sendAbort := true, sendAbortFirst := true } s.seen
        (by simp [Qp.sendCmplGet, habort, haborting, hnone]) ?_ htake rfl
          fun hne => absurd hnone hne
      refine ⟨h.cap, h.cmpl, h.post, hfull, h.entries, h.yielded, h.cons,
        nofun, fun _ => ⟨?_, hle, ?_⟩,
        hidle.closed, nofun, h.records⟩
      · dsimp only
        omega
      · exact (decide_eq_true (show start + s.out.length = s.seen by omega)).symm
    · refine key _ s.qp s.seen ?_ hidle htake rfl fun _ => by simp [SendPolling.done, habort]
      simp only [Qp.sendCmplGet, habort, Bool.false_eq_true, if_false]
      exact if_neg (by simpa using hswitch)

variable {r : Range}

lemma SendPolling.Inv.next (h : s.Inv start M) (hphase : s.phase = .reading r)
    (hne : r.pos ≠ r.stop) (old : Cqe) :
    ∃ wqe, s.posted[s.out.length]? = some wqe ∧
      SendRecord.Of ⟨r.pos, s.qp.sendAbort, (s.qp.pollSendCqe r.pos old).1⟩ s.qp.sendCap
        (start + s.out.length) s.seen wqe := by
  have hreading := h.reading r hphase
  have hslot := hreading.slot h.cap hne
  obtain ⟨-, hlt⟩ := hreading.succ h.cap hne
  cases habort : s.qp.sendAbort with
  | true =>
    rw [habort, if_pos rfl] at hlt
    have hwqe := List.getElem?_eq_getElem (show s.out.length < s.posted.length by omega)
    obtain ⟨hseen, -, hfirst⟩ := h.after habort
    refine ⟨_, hwqe, hslot, ⟨fun _ => hseen, fun _ => rfl⟩, fun _ => ?_⟩
    have hsame := h.entries _ _ hwqe h.yielded
    rw [← hslot] at hsame
    simp only [Qp.pollSendCqe, habort, if_true, sendFail, hsame.ulpHandle,
      hsame.opCode, hsame.flags,
      hfirst, flushStatus, decide_eq_true_eq]
  | false =>
    obtain ⟨-, -, D, -, hD, hDP⟩ := h.before habort
    rw [habort, if_neg Bool.false_ne_true] at hlt
    have hwqe := List.getElem?_eq_getElem (show s.out.length < s.posted.length by omega)
    exact ⟨_, hwqe, hslot, ⟨(absurd · Bool.false_ne_true), fun hseen => by omega⟩,
      fun hseen => by omega⟩

lemma SendPolling.Inv.read (h : s.Inv start M) (hphase : s.phase = .reading r)
    (hne : r.pos ≠ r.stop) (old : Cqe) :
    SendPolling.Inv { s with
      qp := (s.qp.pollSendCqe r.pos old).2
      phase := .reading { r with pos := r.pos + 1 }
      out := s.out ++ [⟨r.pos, s.qp.sendAbort, (s.qp.pollSendCqe r.pos old).1⟩] } start M := by
  have hyielded := h.yielded
  obtain ⟨hnext, hlt⟩ := (h.reading r hphase).succ h.cap hne
  have hframe := s.qp.pollSendCqe_frame r.pos old
  obtain ⟨wqe, hwqe, hrec⟩ := h.next hphase hne old
  have hposted := (List.getElem?_eq_some_iff.1 hwqe).1
  have hfirst : (s.qp.pollSendCqe r.pos old).2.sendAbort = true →
      (s.qp.pollSendCqe r.pos old).2.sendAbortFirst = false := by
    rw [hframe.eq]
    intro habort
    simp only [Qp.pollSendCqe, show s.qp.sendAbort = true from habort, if_true]
  generalize s.qp.pollSendCqe r.pos old = res at hframe hrec hfirst ⊢
  obtain ⟨cqe, qp⟩ := res
  dsimp only at hframe hrec hfirst ⊢
  generalize (⟨r.pos, s.qp.sendAbort, cqe⟩ : SendRecord) = new at hrec ⊢
  have hlen : start + (s.out ++ [new]).length = start + s.out.length + 1 := by
    rw [List.length_append, List.length_singleton, Nat.add_assoc]
  have hcap : qp.sendCap = s.qp.sendCap := by rw [hframe.eq]
  have habort : qp.sendAbort = s.qp.sendAbort := by rw [hframe.eq]
  have hafter : qp.sendAbort = true → s.seen ≤ start + (s.out ++ [new]).length ∧
      (s.out ++ [new]).length ≤ s.posted.length ∧
      qp.sendAbortFirst = decide (start + (s.out ++ [new]).length = s.seen) := by
    intro hab
    obtain ⟨hseen, -, -⟩ := h.after (habort.symm.trans hab)
    rw [hlen, List.length_append, List.length_singleton, hfirst hab]
    exact ⟨by omega, by omega, (decide_eq_false (by omega)).symm⟩
  have hrecords : ∀ (i : Nat) (item : SendRecord), (s.out ++ [new])[i]? = some item →
      ∃ wqe, s.posted[i]? = some wqe ∧ item.Of qp.sendCap (start + i) s.seen wqe := by
    intro i item hi
    rw [hcap]
    rcases Nat.lt_trichotomy i s.out.length with hlt | heq | hgt
    · rw [List.getElem?_append_left hlt] at hi
      exact h.records i item hi
    · subst heq
      rw [List.getElem?_concat_length] at hi
      cases hi
      exact ⟨_, hwqe, hrec⟩
    · rw [List.getElem?_eq_none (by rw [List.length_append, List.length_singleton]; omega)] at hi
      cases hi
  have hbefore : qp.sendAbort = false → start + (s.out ++ [new]).length ≤ s.seen := by
    intro hab
    rw [habort.symm.trans hab, if_neg Bool.false_ne_true] at hlt
    omega
  have hnext' : Reading s.qp.sendCap { r with pos := r.pos + 1 } (start + (s.out ++ [new]).length)
      (if qp.sendAbort then start + s.posted.length else s.seen) := by
    rw [hlen, habort]
    exact hnext
  rw [hframe.eq] at hafter hbefore hnext' hrecords ⊢
  refine ⟨h.cap, h.cmpl, h.post, h.full, h.entries, by dsimp only; omega,
    h.cons, fun hab => ?_, hafter,
    fun hclosed => absurd rfl (hclosed _), fun r' hr' => ?_, hrecords⟩
  · obtain ⟨hcons, -, hD⟩ := h.before hab
    exact ⟨hcons, hbefore hab, hD⟩
  · cases hr'
    exact hnext'

lemma SendPolling.Inv.put (h : s.Inv start M) (hphase : s.phase = .reading r) :
    SendPolling.Inv { s with qp := s.qp.sendCmplPut r.pos r.base, phase := .idle } start
      (start + s.out.length) := by
  have hyielded := h.yielded
  have hfull := h.full
  refine ⟨h.cap, (h.reading r hphase).stands.update h.cap, h.post, ?_, ?_,
    Nat.le_refl _, h.cons, h.before,
    h.after, fun _ => rfl, nofun, h.records⟩
  · simp only [Qp.sendCmplPut]
    omega
  · exact fun i wqe hi hM => h.entries i wqe hi (hyielded.trans hM)

lemma SendPolling.Inv.arriveCons {idx : UInt32} (h : s.Inv start M)
    (hallowed : (SendAct.arriveCons n idx).Allowed s) :
    ((SendAct.arriveCons n idx).apply s).Inv start M := by
  obtain ⟨hidx, hvalid⟩ := hallowed
  have hyielded := h.yielded
  have hfull := h.full
  cases habort : s.qp.sendAbort with
  | true =>
    simp only [SendAct.apply, if_pos habort]
    exact ⟨h.cap, h.cmpl, h.post, hfull, h.entries, hyielded, ⟨n, hidx⟩,
      fun hf => absurd (habort.symm.trans hf) nofun, h.after, h.closed, h.reading, h.records⟩
  | false =>
    obtain ⟨hcons, hseen, D, hD, hseenD, hDP⟩ := h.before habort
    obtain ⟨hn, D', hD', hnD', hfullD'⟩ := hvalid habort
    have hpos := h.cap.pos
    have hDD' : D = D' := by
      rcases Nat.le_total D D' with hle | hle
      · exact hD.inj hD' hle (by omega)
      · exact (hD'.inj hD hle (by omega)).symm
    subst hDD'
    simp only [SendAct.apply, if_neg (show ¬ s.qp.sendAbort = true by rw [habort]; nofun)]
    refine ⟨h.cap, h.cmpl, h.post, hfull, h.entries, hyielded, ⟨n, hidx⟩, fun _ =>
      ⟨hidx, ?_, D, hD, hnD', hDP⟩,
      fun hf => absurd (habort.symm.trans hf) nofun, h.closed, fun r hr => (h.reading r hr).mono ?_,
      fun i item hi => ?_⟩
    · exact hseen.trans hn
    · simp [habort, hn]
    · obtain ⟨wqe, hwqe, hslot, hflushed, hflush⟩ := h.records i item hi
      have hi : i < s.out.length := (List.getElem?_eq_some_iff.1 hi).1
      have hlt : ∀ m, s.seen ≤ m → ¬ m ≤ start + i := fun m hm => by omega
      exact ⟨wqe, hwqe, hslot, ⟨fun hf => absurd (hflushed.1 hf) (hlt _ (Nat.le_refl _)),
        fun hf => absurd hf (hlt _ hn)⟩, fun hf => absurd hf (hlt _ hn)⟩

lemma SendPolling.Inv.posting (h : s.Inv start M) (dev : Dev) (umem : UInt64 → Option UInt8)
    (rqp : Rqp) (chan : Chan) (wrs : List SendWr) :
    ((SendAct.post dev umem rqp chan wrs).apply s).Inv start M := by
  have hyielded := h.yielded
  have hle := h.le
  simp only [SendAct.apply, postSend]
  split
  · obtain ⟨n, hpost⟩ : ∃ n, Posted dev umem s.qp chan false wrs (start + s.posted.length) M n
        (postSendLocked dev umem s.qp chan wrs) :=
      postSendLocked_spec chan wrs ⟨h.cap, h.post, h.cmpl, by omega, h.full⟩
    have hn : wrs.length - (postSendLocked dev umem s.qp chan wrs).bad.length = n := by
      have := hpost.le
      rw [hpost.bad, List.length_drop]
      omega
    simp only [PostSend.left, hn]
    exact (h.posted hpost).worked (additionalWork_worked ..)
  · simp only [PostSend.left, List.append_nil]
    exact h

lemma SendPolling.Inv.apply {act : SendAct} (h : s.Inv start M) (hallowed : act.Allowed s) :
    ∃ M', (act.apply s).Inv start M' := by
  cases act with
  | start =>
    simp only [SendAct.apply]
    split
    next hphase =>
      refine ⟨M, h.get (h.closed (by rw [hphase]; nofun)) fun qp r => ?_⟩
      split <;> exact PollPhase.noConfusion
    · exact ⟨M, h⟩
  | again =>
    simp only [SendAct.apply]
    split
    next hphase =>
      exact ⟨M, h.get (h.closed (by rw [hphase]; nofun)) fun _ _ => PollPhase.noConfusion⟩
    · exact ⟨M, h⟩
  | read old =>
    simp only [SendAct.apply]
    split
    next r hphase =>
      split
      · exact ⟨M, h⟩
      next hne => exact ⟨M, h.read hphase hne old⟩
    · exact ⟨M, h⟩
  | put =>
    simp only [SendAct.apply]
    split
    next r hphase => exact ⟨_, h.put hphase⟩
    · exact ⟨M, h⟩
  | post dev umem rqp chan wrs => exact ⟨M, h.posting dev umem rqp chan wrs⟩
  | work dev rqp chan => exact ⟨M, h.worked (sendWork_worked dev s.qp rqp chan)⟩
  | arriveCons => exact ⟨M, h.arriveCons hallowed⟩
  | arriveCqe => exact ⟨M, h.congr ⟨rfl, rfl, rfl, rfl, rfl, rfl, rfl, rfl⟩⟩
  | modify =>
    refine ⟨M, h.congr ?_⟩
    simp only [modifyQpState]
    split
    next herror =>
      have hclear : (s.qp.sendAborting || s.qp.sendAbort) = false := by
        rw [← Bool.not_eq_true]
        exact fun hmarked => by rw [hallowed hmarked] at herror; cases herror
      have habort : false = s.qp.sendAbort := (Bool.or_eq_false_iff.1 hclear).2.symm
      exact ⟨rfl, rfl, rfl, rfl, rfl, rfl, habort, rfl⟩
    · exact ⟨rfl, rfl, rfl, rfl, rfl, rfl, rfl, rfl⟩
  | peerModify => exact ⟨M, h.congr ⟨rfl, rfl, rfl, rfl, rfl, rfl, rfl, rfl⟩⟩
  | reset => exact ⟨M, h.congr ⟨rfl, rfl, rfl, rfl, rfl, rfl, rfl, rfl⟩⟩
  | stall =>
    refine ⟨M, h.congr ?_⟩
    simp only [qpSendStall]
    split <;> exact ⟨rfl, rfl, rfl, rfl, rfl, rfl, rfl, rfl⟩

lemma SendPolling.Inv.rest {e : Errno} (h : s.Inv start M) (hphase : s.phase = .idle)
    (hmarked : (s.qp.sendAborting || s.qp.sendAbort) = true)
    (hpoll : s.qp.pollSendStartAndGet.1 = .error e) : s.out.length = s.posted.length := by
  have hM := h.closed (by rw [hphase]; nofun)
  have hle := h.le
  obtain ⟨K, hcons⟩ := h.cons
  rw [Qp.pollSendStartAndGet_eq h.cap h.cmpl hcons] at hpoll
  have hempty : s.qp.sendDone.pos = s.qp.sendDone.stop := by
    by_contra hne
    simp [pollRange, hne] at hpoll
  by_cases hflush : s.qp.sendFlushes = true
  · have htake := consume_taking h.cap h.post h.cmpl (by omega) h.full
    rw [Qp.sendDone, Qp.sendGot, if_pos hflush] at hempty
    have := htake.empty_iff.1 hempty
    omega
  · -- the peer's completions are not all reported, so that the range is not empty
    rw [Qp.sendDone, Qp.sendGot, if_neg hflush, consume_empty_iff h.cap hcons h.cmpl] at hempty
    simp only [Qp.sendFlushes, hempty, beq_self_eq_true, Bool.and_true] at hflush
    exact absurd ((Bool.or_comm _ _).trans hmarked) hflush

end

/-- The records are those of the posted slots in order: first the completions that were seen, then
the flushes; and in the end every slot has its record. -/
structure SendPolling.InOrder (s : SendPolling) (start : Nat) : Prop where
  records : ∀ (i : Nat) (item : SendRecord), s.out[i]? = some item →
    ∃ wqe, s.posted[i]? = some wqe ∧ item.Of s.qp.sendCap (start + i) s.seen wqe
  rest : s.phase = .idle → (s.qp.sendAborting || s.qp.sendAbort) = true →
    ∀ e, s.qp.pollSendStartAndGet.1 = .error e → s.out.length = s.posted.length

lemma Qp.SendLine.inv {qp : Qp} {M K D P : Nat} (h : qp.SendLine M K D P)
    (habort : qp.sendAbort = false) : (SendPolling.init qp M K P).Inv M M := by
  have hcmpl := h.cmpl_le
  have hcons := h.cons_le
  have hprod := h.prod_le
  have hlen : (SendPolling.init qp M K P).posted.length = P - M := by simp [SendPolling.init]
  have hP : M + (SendPolling.init qp M K P).posted.length = P := by omega
  refine ⟨h.cap, h.cmpl, ?_, ?_, ?_, Nat.le_refl _, ⟨K, h.cons⟩,
    fun _ => ⟨h.cons, hcmpl, D, h.prod, hcons, ?_⟩, fun hf => absurd (habort.symm.trans hf) nofun,
    fun _ => rfl, nofun, nofun⟩
  · rw [hP]
    exact h.post
  · rw [hP]
    exact h.full
  · intro i wqe hi _
    simp only [SendPolling.init, List.getElem?_map, Option.map_eq_some_iff] at hi ⊢
    obtain ⟨j, hj, rfl⟩ := hi
    obtain ⟨hlt, rfl⟩ := List.getElem?_eq_some_iff.1 hj
    rw [List.getElem_range]
    exact .refl _
  · rw [hP]
    exact hprod

/-- In every run without a move back from an abort, polling yields first the completions of the peer
and then one flush for each slot that is left. -/
theorem sendPolling_inOrder {qp : Qp} {M K D P : Nat} (h : qp.SendLine M K D P)
    (habort : qp.sendAbort = false) {s : SendPolling}
    (hrun : Reaches sendPollStep (SendPolling.init qp M K P) s) : s.InOrder M := by
  obtain ⟨M', hinv⟩ : ∃ M', s.Inv M M' := by
    refine hrun.invariant (I := fun s => ∃ M', s.Inv M M')
      ⟨M, h.inv habort⟩ fun s act t hs hstep => ?_
    obtain ⟨M', hs⟩ := hs
    obtain ⟨hallowed, rfl⟩ := hstep
    exact hs.apply hallowed
  exact ⟨hinv.records, fun hphase hmarked e hpoll => hinv.rest hphase hmarked hpoll⟩

def twoSends : Qp := { Qp.fresh 4 with sendPost := 2 }

theorem sendPolling_inOrder_reset :
    ∃ s, Reaches sendPollStep (SendPolling.init twoSends 0 0 2) s ∧
      s.out.map (fun item => (item.pos, item.flushed, item.cqe.opStatus)) =
        [(0, true, wcErrLocPort), (1, true, wcErrAborted)] ∧ s.InOrder 0 := by
  have hline : twoSends.SendLine 0 0 0 2 :=
    ⟨⟨by decide, by decide⟩, rfl, rfl, rfl, rfl, Nat.le_refl 0,
      Nat.le_refl 0, Nat.zero_le 2, by decide⟩
  have hrun : Reaches sendPollStep (SendPolling.init twoSends 0 0 2)
      (SendAct.apply (SendAct.apply (SendAct.apply (SendAct.apply (SendAct.apply
        (SendPolling.init twoSends 0 0 2) .reset) .start) .again) (.read ⟨0, 0, 0, 0, 0, 0⟩))
        (.read ⟨0, 0, 0, 0, 0, 0⟩)) :=
    ((((Reaches.refl.snoc (a := .reset) ⟨trivial, rfl⟩).snoc (a := .start) ⟨trivial, rfl⟩).snoc
      (a := .again) ⟨trivial, rfl⟩).snoc (a := .read ⟨0, 0, 0, 0, 0, 0⟩) ⟨trivial, rfl⟩).snoc
      (a := .read ⟨0, 0, 0, 0, 0, 0⟩) ⟨trivial, rfl⟩
  exact ⟨_, hrun, by decide, sendPolling_inOrder hline rfl hrun⟩

end Ntrdma
