import Ntrdma.Qp.Poll

/-!
# The queues of a queue pair

A completion queue polls the sends and the receives of its queue pairs through one interface
(`struct ntrdma_poll`). `Queue` is what the interface shows of a ring: its indices and the two flags
of the abort. The lemmas say what opening, going over and closing a range do to the queue that is
polled, and that they leave the other queue of the queue pair alone.
-/

namespace Ntrdma
open Lib Ntrdma.Ring

structure Queue where
  cap : UInt32
  post : UInt32
  cons : UInt32
  cmpl : UInt32
  abort : Bool
  aborting : Bool

def Queue.flushes (q : Queue) : Bool := q.abort || (q.aborting && q.cons == q.cmpl)

def Queue.got (q : Queue) : Queue := if q.flushes then
    { q with cons := q.post, abort := true } else q

def Queue.done (q : Queue) : Range := consume q.got.cons q.cmpl q.cap

/-- The indices in unrolled counters: completed, consumed, posted. -/
structure Queue.Ring (q : Queue) (M K P : Nat) : Prop where
  cap : Cap q.cap
  cmpl : Idx q.cap q.cmpl M
  cons : Idx q.cap q.cons K
  post : Idx q.cap q.post P
  cmpl_le : M ≤ K
  cons_le : K ≤ P
  full : P ≤ M + q.cap.toNat

section
variable {q : Queue} {M K P : Nat}

@[simp] lemma Queue.got_cap : q.got.cap = q.cap := by rw [Queue.got]; split <;> rfl
@[simp] lemma Queue.got_cmpl : q.got.cmpl = q.cmpl := by rw [Queue.got]; split <;> rfl

@[simp] lemma Queue.got_got : q.got.got = q.got := by
  by_cases hflush : q.flushes = true
  · have hgot : q.got = { q with cons := q.post, abort := true } := if_pos hflush
    rw [hgot, Queue.got, if_pos (by simp [Queue.flushes])]
  · have hgot : q.got = q := if_neg hflush
    rw [hgot, hgot]

@[simp] lemma Queue.got_done : q.got.done = q.done := by
  rw [Queue.done, Queue.done, Queue.got_got, Queue.got_cmpl, Queue.got_cap]

lemma Queue.Ring.got (h : q.Ring M K P) : ∃ K', q.got.Ring M K' P ∧ Taking q.cap q.done M K' := by
  have hcmpl := h.cmpl_le
  have hcons := h.cons_le
  have hfull := h.full
  by_cases hflush : q.flushes = true
  · have hgot : q.got = { q with cons := q.post, abort := true } := if_pos hflush
    rw [Queue.done, hgot]
    exact ⟨P, ⟨h.cap, h.cmpl, h.post, h.post, by omega, Nat.le_refl P, hfull⟩,
      consume_taking h.cap h.post h.cmpl (by omega) hfull⟩
  · have hgot : q.got = q := if_neg hflush
    rw [Queue.done, hgot]
    exact ⟨K, h, consume_taking h.cap h.cons h.cmpl hcmpl (by omega)⟩

lemma Queue.Ring.shift {M' : Nat} (h : q.Ring M K P) (hcmpl : Idx q.cap q.cmpl M') :
    q.Ring M' (M' + (K - M)) (M' + (P - M)) := by
  have hle := h.cmpl_le
  have hcons := h.cons_le
  have hfull := h.full
  have key : ∀ i n, M ≤ n → Idx q.cap i n → Idx q.cap i (M' + (n - M)) := by
    intro i n hn hi
    have heq : M % (2 * q.cap.toNat) = M' % (2 * q.cap.toNat) := h.cmpl.symm.trans hcmpl
    rw [Idx] at hi ⊢
    rw [hi, Nat.add_mod M', ← heq, ← Nat.add_mod, Nat.add_sub_cancel' hn]
  exact ⟨h.cap, hcmpl, key _ _ hle h.cons, key _ _ (by omega) h.post, by omega, by omega, by omega⟩

def Queue.left (q : Queue) : Nat := (count q.post q.cmpl q.cap).toNat

lemma Queue.Ring.left (h : q.Ring M K P) : q.left = P - M := by
  have hcmpl := h.cmpl_le
  have hcons := h.cons_le
  have hfull := h.full
  have hpos := h.cap.pos
  have hcmpl' := h.cmpl.lt h.cap
  have hcount := count_cases h.cap (h.post.lt h.cap) hcmpl'
  have hmod := mod_add_cases M (P - M) (show P - M < 2 * q.cap.toNat by omega)
  have hpost := h.post
  have hc := h.cmpl
  rw [Idx] at hpost hc
  rw [Nat.add_sub_cancel' (by omega), ← hpost, ← hc] at hmod
  rw [Queue.left]
  omega

/-- The position is one of an entry that the peer completed and that was not polled yet. -/
def Queue.Completed (q : Queue) (pos : Nat) : Prop :=
  q.abort = false ∧ ∃ M K P n, q.Ring M K P ∧ M ≤ n ∧ n < K ∧ pos = n % q.cap.toNat

lemma Queue.Completed.of_put {k pos : Nat} {cmpl : UInt32} (h : q.Ring M K P)
    (hcmpl : Idx q.cap cmpl (M + k)) (hk : M + k ≤ K)
    (hdone : Queue.Completed { q with cmpl } pos) : q.Completed pos := by
  obtain ⟨habort, M', K', P', n, hring, hn, hnK, rfl⟩ := hdone
  have hcons := h.cons_le
  have hfull := h.full
  have hshift := hring.shift hcmpl
  have hle' := hring.cmpl_le
  have hcons' := hshift.cons_le
  have hfull' := hshift.full
  dsimp only at hfull'
  have hpos := h.cap.pos
  -- both unrollings give the consumer the same counter
  have hK : K = M + k + (K' - M') := by
    rcases Nat.le_total K (M + k + (K' - M')) with hle | hle
    · exact Idx.inj h.cons hshift.cons hle (by omega)
    · exact (Idx.inj hshift.cons h.cons hle (by dsimp only; omega)).symm
  refine ⟨habort, M, K, P, M + k + (n - M'), h, by omega, by omega, ?_⟩
  have hmod : M' % (2 * q.cap.toNat) = (M + k) % (2 * q.cap.toNat) := hring.cmpl.symm.trans hcmpl
  have hmod' : M' % q.cap.toNat = (M + k) % q.cap.toNat := by
    rw [← Nat.mod_mod_of_dvd M' (Dvd.intro_left 2 rfl), hmod,
      Nat.mod_mod_of_dvd _ (Dvd.intro_left 2 rfl)]
  dsimp only
  rw [Nat.add_mod (M + k), ← hmod', ← Nat.add_mod, Nat.add_sub_cancel' hn]

end

inductive Side where
  | send
  | recv
  deriving DecidableEq, Repr

def Side.ops : Side → PollOps
  | send => sendPoll
  | recv => recvPoll

def Side.queue (side : Side) (qp : Qp) : Queue :=
  match side with
  | send => ⟨qp.sendCap, qp.sendPost, qp.sendCons, qp.sendCmpl, qp.sendAbort, qp.sendAborting⟩
  | recv => ⟨qp.recvCap, qp.recvPost, qp.recvCons, qp.recvCmpl, qp.recvAbort, qp.recvAborting⟩

/-- What a poll of one side does to what the sides show: the side that is polled shows `q`. -/
def Side.Turns (side : Side) (qp qp' : Qp) (q : Queue) : Prop :=
  ∀ other : Side, other.queue qp' = if other = side then q else other.queue qp

/-- What polling can report: the completion entry of the peer, or a failure of the request. -/
def Side.Entry (side : Side) (qp : Qp) (pos : Nat) (cqe : Cqe) : Prop :=
  match side with
  | send => (Queue.Completed (Side.queue .send qp) pos ∧ cqe = qp.sendCqe pos) ∨
      ∃ opStatus, cqe = sendFail (qp.sendWqe pos) opStatus
  | recv => (Queue.Completed (Side.queue .recv qp) pos ∧ cqe = qp.recvCqe pos) ∨
      cqe.ulpHandle = (qp.recvWqe pos).ulpHandle

def Qp.EntriesKept (qp qp' : Qp) : Prop :=
  ∀ (side : Side) (pos : Nat) (cqe : Cqe), side.Entry qp' pos cqe → side.Entry qp pos cqe

lemma Qp.EntriesKept.refl (qp : Qp) : qp.EntriesKept qp := fun _ _ _ => id

lemma Qp.EntriesKept.trans {a b c : Qp} (h : a.EntriesKept b) (h' : b.EntriesKept c) :
    a.EntriesKept c :=
  fun side pos cqe hentry => h side pos cqe (h' side pos cqe hentry)

lemma Qp.EntriesKept.of_completed {qp qp' : Qp}
    (hdone : ∀ (side : Side) (pos : Nat), (side.queue qp').Completed pos →
      (side.queue qp).Completed pos) (hsend : qp'.sendCqe = qp.sendCqe ∧ qp'.sendWqe = qp.sendWqe)
    (hrecv : qp'.recvCqe = qp.recvCqe ∧ ∀ p, (qp'.recvWqe p).ulpHandle = (qp.recvWqe p).ulpHandle) :
    qp.EntriesKept qp' := by
  intro side pos cqe hentry
  cases side with
  | send =>
    simp only [Side.Entry, hsend.1, hsend.2] at hentry ⊢
    exact hentry.imp_left fun h => ⟨hdone .send pos h.1, h.2⟩
  | recv =>
    simp only [Side.Entry, hrecv.1, hrecv.2] at hentry ⊢
    exact hentry.imp_left fun h => ⟨hdone .recv pos h.1, h.2⟩

section
variable {side : Side} {qp : Qp} {M K P : Nat}

lemma Side.startAndGet_eq (h : (side.queue qp).Ring M K P) :
    ∃ qp', side.ops.pollStartAndGet qp = (pollRange (side.queue qp).done, qp') ∧
      side.Turns qp qp' (side.queue qp).got ∧ qp.EntriesKept qp' := by
  have hgot : ∀ pos, (side.queue qp).got.Completed pos → (side.queue qp).Completed pos := by
    intro pos hdone
    by_cases hflush : (side.queue qp).flushes = true
    · rw [Queue.got, if_pos hflush] at hdone
      exact absurd hdone.1 nofun
    · rwa [Queue.got, if_neg hflush] at hdone
  cases side with
  | send =>
    have hdone : qp.sendDone = (Side.queue .send qp).done ∧
        Side.Turns .send qp qp.sendGot (Side.queue .send qp).got := by
      simp only [Qp.sendDone, Qp.sendGot, Queue.done, Queue.got]
      split
      next hflush =>
        have hflush : (Side.queue .send qp).flushes = true := hflush
        rw [if_pos hflush]
        exact ⟨rfl, fun other => by cases other <;> rfl⟩
      next hflush =>
        have hflush : ¬ (Side.queue .send qp).flushes = true := hflush
        rw [if_neg hflush]
        exact ⟨rfl, fun other => by cases other <;> rfl⟩
    refine ⟨qp.sendGot, ?_, hdone.2, .of_completed (fun other pos => ?_) ?_ ?_⟩
    · rw [← hdone.1]
      exact Qp.pollSendStartAndGet_eq h.cap h.cmpl h.cons
    · rw [hdone.2 other]
      split
      next heq =>
        subst heq
        exact hgot pos
      · exact id
    all_goals
      rw [Qp.sendGot]
      split <;> exact ⟨rfl, by simp⟩
  | recv =>
    have hdone : qp.recvDone = (Side.queue .recv qp).done ∧
        Side.Turns .recv qp qp.recvGot (Side.queue .recv qp).got := by
      simp only [Qp.recvDone, Qp.recvGot, Queue.done, Queue.got]
      split
      next hflush =>
        have hflush : (Side.queue .recv qp).flushes = true := hflush
        rw [if_pos hflush]
        exact ⟨rfl, fun other => by cases other <;> rfl⟩
      next hflush =>
        have hflush : ¬ (Side.queue .recv qp).flushes = true := hflush
        rw [if_neg hflush]
        exact ⟨rfl, fun other => by cases other <;> rfl⟩
    refine ⟨qp.recvGot, ?_, hdone.2, .of_completed (fun other pos => ?_) ?_ ?_⟩
    · rw [← hdone.1]
      exact Qp.pollRecvStartAndGet_eq h.cap h.cmpl h.cons
    · rw [hdone.2 other]
      split
      next heq =>
        subst heq
        exact hgot pos
      · exact id
    all_goals
      rw [Qp.recvGot]
      split <;> exact ⟨rfl, by simp⟩

variable {pos : UInt32}

lemma PollRun.turns {qp' : Qp} {cqe cqe' : Cqe} {recs : List Cqe}
    (h : PollRun side.ops pos qp cqe recs qp' cqe') :
    (∃ aborting, side.Turns qp qp' { side.queue qp with aborting }) ∧ qp.EntriesKept qp' := by
  have hturns : ∃ aborting, side.Turns qp qp' { side.queue qp with aborting } := by
    cases side with
    | send =>
      rw [(PollRun.send_frame h).eq]
      exact ⟨qp'.sendAborting, fun other => by cases other <;> rfl⟩
    | recv =>
      rw [(PollRun.recv_frame h).eq]
      exact ⟨qp'.recvAborting, fun other => by cases other <;> rfl⟩
  obtain ⟨aborting, hqueue⟩ := hturns
  refine ⟨⟨aborting, hqueue⟩, .of_completed (fun other pos => ?_) ?_ ?_⟩
  · rw [hqueue other]
    split
    next heq =>
      subst heq
      rintro ⟨habort, M, K, P, n, hring, hn⟩
      exact ⟨habort, M, K, P, n, ⟨hring.cap, hring.cmpl, hring.cons, hring.post, hring.cmpl_le,
        hring.cons_le, hring.full⟩, hn⟩
    · exact id
  · cases side with
    | send => rw [(PollRun.send_frame h).eq]; exact ⟨rfl, rfl⟩
    | recv => rw [(PollRun.recv_frame h).eq]; exact ⟨rfl, rfl⟩
  · cases side with
    | send => rw [(PollRun.send_frame h).eq]; exact ⟨rfl, fun _ => rfl⟩
    | recv => exact ⟨by rw [(PollRun.recv_frame h).eq], fun p => ((PollRun.recv_frame h).kept p).1⟩

lemma Side.pollCqe_entry (cqe : Cqe)
    (hdone : (side.queue qp).abort = false → (side.queue qp).Completed pos.toNat) :
    side.Entry qp pos.toNat (side.ops.pollCqe qp pos cqe).1 := by
  cases side with
  | send =>
    show Side.Entry .send qp pos.toNat (qp.pollSendCqe pos cqe).1
    simp only [Qp.pollSendCqe]
    split
    · exact .inr ⟨_, rfl⟩
    next habort =>
      split
      · exact .inr ⟨_, rfl⟩
      · exact .inl ⟨hdone (Bool.eq_false_of_not_eq_true habort), rfl⟩
  | recv =>
    show Side.Entry .recv qp pos.toNat (qp.pollRecvCqe pos cqe).1
    simp only [Qp.pollRecvCqe]
    split
    · exact .inr rfl
    next habort =>
      split
      · exact .inr rfl
      · exact .inl ⟨hdone (Bool.eq_false_of_not_eq_true habort), rfl⟩

lemma Side.put_turns {k : Nat} {pos base : UInt32} (h : (side.queue qp).Ring M K P)
    (hpos : Idx (side.queue qp).cap (update pos base (side.queue qp).cap) (M + k))
    (hk : M + k ≤ K) :
    side.Turns qp (side.ops.pollPutAndDone qp pos base)
        { side.queue qp with cmpl := update pos base (side.queue qp).cap } ∧
      qp.EntriesKept (side.ops.pollPutAndDone qp pos base) := by
  have hturns : side.Turns qp (side.ops.pollPutAndDone qp pos base)
      { side.queue qp with cmpl := update pos base (side.queue qp).cap } := by
    cases side <;> exact fun other => by cases other <;> rfl
  refine ⟨hturns, .of_completed (fun other p => ?_) ?_ ?_⟩
  · rw [hturns other]
    split
    next heq =>
      subst heq
      exact Queue.Completed.of_put h hpos hk
    · exact id
  · cases side <;> exact ⟨rfl, rfl⟩
  · cases side <;> exact ⟨rfl, fun _ => rfl⟩

end

end Ntrdma
