import Ntrdma.Lib.Run
import Ntrdma.Qp.Poll
import Ntrdma.Qp.State

/-!
# The order of the receive ring

What the operations on the receives of a queue pair do to the order of the indices. Posting,
sending, consuming and polling keep it, apart from one case: a poll in abort moves the consumer to
the posting index, but leaves the producer behind, so that the consumer passes the producer if there
are receives that were posted and not sent. The getter of the sends moves both.

A queue pair goes over to abort although nothing failed: `ntrdma_qp_recv_work`, which every post
calls, sets `recv_aborting` in a state that does not take receives yet. Which runs report a receive
as failed because of that is said in terms of their actions (`recvRun_success_iff`).
-/

namespace Ntrdma
open Lib Ntrdma.Ring

/-- Completed, consumed, produced and posted are in order, and at most as many are outstanding as
the ring holds. -/
def Qp.RecvOrdered (qp : Qp) : Prop := ∃ M K D P, qp.RecvRing M K D P

inductive RecvAct where
  | post (dev : Dev) (sgCap : UInt32) (alloc : Nat → Nat → ShadowAlloc) (chan : Chan)
      (wrs : List RecvWr)
  | work (chan : Chan)
  | consume (dev : Dev) (batch : UInt32) (rqp : Rqp) (mem : UInt64 → UInt8) (chan : Chan)
  | poll (room : Nat) (cqe : Cqe)
  | modify (attr : QpAttr)

def RecvAct.apply (obj : QpObj) : RecvAct → QpObj
  | post dev sgCap alloc chan wrs =>
    { obj with qp := (postRecv dev sgCap alloc obj.qp chan wrs).work.qp }
  | work chan => { obj with qp := (recvWork obj.qp chan).qp }
  | consume dev batch rqp mem chan =>
    { obj with qp := (rqpSendWork dev batch obj.qp rqp mem chan).qp }
  | poll room cqe => { obj with qp := (pollBatch recvPoll (room + 1) obj.qp cqe).2 }
  | modify attr => (modifyQpLocal obj attr).2

def recvStep (obj : QpObj) (act : RecvAct) (obj' : QpObj) : Prop := obj' = act.apply obj

def RecvAct.Safe (obj : QpObj) : RecvAct → Prop
  | poll _ _ => obj.qp.recvFlushes = true → obj.qp.recvProd = obj.qp.recvPost
  | _ => True

/-! ## What each step does to the order -/

section
variable {qp : Qp} {M K D P : Nat}

lemma Qp.RecvRing.work (h : qp.RecvRing M K D P) (chan : Chan) :
    ∃ D', (recvWork qp chan).qp.RecvRing M K D' P := by
  cases hready : isStateRecvReady qp.state with
  | false =>
    rw [recvWork_notReady chan hready]
    exact ⟨D, h.cap, h.cmpl, h.cons, h.prod, h.post, h.cmpl_le, h.cons_le, h.prod_le, h.full⟩
  | true =>
    obtain ⟨-, heq⟩ | ⟨-, D', hsent⟩ := recvWork_ready chan h hready
    · exact ⟨D, by rw [heq]; exact h⟩
    · exact ⟨D', hsent.ring⟩

lemma Qp.RecvRing.postRecv (h : qp.RecvRing M K D P) (dev : Dev) (sgCap : UInt32)
    (alloc : Nat → Nat → ShadowAlloc) (chan : Chan) (wrs : List RecvWr) :
    ∃ D' P', (postRecv dev sgCap alloc qp chan wrs).work.qp.RecvRing M K D' P' := by
  simp only [Ntrdma.postRecv]
  split
  · exact ⟨D, P, h⟩
  · obtain ⟨k, hposted⟩ := postRecvWrs_spec dev sgCap alloc wrs h
    obtain ⟨D', hring⟩ := (hposted.ring h).work chan
    exact ⟨D', P + k, hring⟩

/-- A poll goes over the receives that were completed, or in abort over all that were posted. -/
lemma Qp.RecvRing.opened (h : qp.RecvRing M K D P) (room : Nat) (cqe : Cqe) :
    Taking qp.recvCap qp.recvDone M (if qp.recvFlushes then P else K) ∧
      Polled recvPoll qp.recvCap (room + 1) cqe qp.recvDone qp.recvGot M
        (if qp.recvFlushes then P else K) (pollBatch recvPoll (room + 1) qp cqe) := by
  have htake : Taking qp.recvCap qp.recvDone M (if qp.recvFlushes then P else K) := by
    have hfull := h.full
    have hcons := h.cons_le
    have hprod := h.prod_le
    simp only [Qp.recvDone, Qp.recvGot]
    split
    · exact consume_taking h.cap h.post h.cmpl h.post_le hfull
    · exact consume_taking h.cap h.cons h.cmpl h.cmpl_le (by omega)
  have hget : recvPoll.pollStartAndGet qp = (pollRange qp.recvDone, qp.recvGot) :=
    Qp.pollRecvStartAndGet_eq h.cap h.cmpl h.cons
  exact ⟨htake, pollBatch_polled hget htake (Nat.succ_pos room) cqe⟩

lemma Qp.RecvRing.opened_ready (h : qp.RecvRing M K D P) (hflush : qp.recvFlushes = false)
    (room : Nat) (cqe : Cqe) : Taking qp.recvCap qp.recvDone M K ∧
      Polled recvPoll qp.recvCap (room + 1) cqe qp.recvDone qp M K
        (pollBatch recvPoll (room + 1) qp cqe) := by
  have hgot : qp.recvGot = qp := if_neg (hflush ▸ Bool.false_ne_true)
  have hopened := h.opened room cqe
  rwa [hgot, hflush, if_neg Bool.false_ne_true] at hopened

lemma Qp.RecvRing.polled (h : qp.RecvRing M K D P) (room : Nat) (cqe : Cqe) :
    ∃ M', M ≤ M' ∧ M' ≤ (if qp.recvFlushes then P else K) ∧
      Idx qp.recvCap (pollBatch recvPoll (room + 1) qp cqe).2.recvCmpl M' ∧
      ∃ qp', qp.recvGot.RecvPollFrame qp' ∧ (pollBatch recvPoll (room + 1) qp cqe).2 =
        { qp' with recvCmpl := (pollBatch recvPoll (room + 1) qp cqe).2.recvCmpl } := by
  obtain ⟨htake, hpolled⟩ := h.opened room cqe
  have hcmpl : qp.recvGot.recvCmpl = qp.recvCmpl ∧ qp.recvGot.recvCap = qp.recvCap := by
    simp only [Qp.recvGot]
    split <;> exact ⟨rfl, rfl⟩
  generalize pollBatch recvPoll (room + 1) qp cqe = res at hpolled ⊢
  cases hpolled with
  | empty =>
    exact ⟨M, Nat.le_refl M, htake.le, by rw [hcmpl.1]; exact h.cmpl, _, .refl _, rfl⟩
  | some hover hn hidx =>
    rename_i n recs batch
    have hframe := hover.run.recv_frame
    have hle := hover.le
    have hend := htake.le
    have hcap : batch.qp.recvCap = qp.recvCap := by rw [hframe.eq]; exact hcmpl.2
    refine ⟨M + recs.length, by omega, by omega, ?_, batch.qp, hframe, rfl⟩
    simp only [recvPoll, Qp.recvCmplPut, hcap]
    exact hidx

lemma recvPoll_ordered_iff (h : qp.RecvOrdered) (room : Nat) (cqe : Cqe) :
    (pollBatch recvPoll (room + 1) qp cqe).2.RecvOrdered ↔
      (qp.recvFlushes = true → qp.recvProd = qp.recvPost) := by
  obtain ⟨M, K, D, P, h⟩ := h
  obtain ⟨M', hM, hM', hcmpl, qp', hframe, hqp⟩ := h.polled room cqe
  generalize (pollBatch recvPoll (room + 1) qp cqe).2 = res at hcmpl hqp ⊢
  rw [hframe.eq] at hqp
  constructor
  · rintro ⟨M1, K1, D1, P1, h1⟩ hflush
    have hgot : res.recvCons = qp.recvPost ∧ res.recvPost = qp.recvPost ∧
        res.recvProd = qp.recvProd := by
      rw [hqp]
      simp [Qp.recvGot, hflush]
    have hcons := h1.cons
    have hpost := h1.post
    have hprod := h1.prod
    have hcmpl1 := h1.cmpl_le
    have hcons1 := h1.cons_le
    have hprod1 := h1.prod_le
    have hfull1 := h1.full
    have hpos := h1.cap.pos
    rw [hgot.1, ← hgot.2.1] at hcons
    have hKP := hcons.inj hpost (by omega) (by omega)
    have hDP : D1 = P1 := by omega
    rw [hDP] at hprod
    rw [← hgot.2.1, ← hgot.2.2, ← UInt32.toNat_inj, hprod, hpost]
  · intro hsafe
    have hfields : res.recvCap = qp.recvCap ∧ res.recvCons = qp.recvGot.recvCons ∧
        res.recvPost = qp.recvPost ∧ res.recvProd = qp.recvProd := by
      rw [hqp]
      simp only [Qp.recvGot]
      split <;> simp
    have hcmpl0 := h.cmpl_le
    have hcons0 := h.cons_le
    have hprod0 := h.prod_le
    have hfull0 := h.full
    have hpos := h.cap.pos
    refine ⟨M', if qp.recvFlushes then P else K, D, P, by rw [hfields.1]; exact h.cap,
      by rw [hfields.1]; exact hcmpl, ?_, by rw [hfields.1, hfields.2.2.2]; exact h.prod,
      by rw [hfields.1, hfields.2.2.1]; exact h.post, hM', ?_, hprod0, by rw [hfields.1]; omega⟩
    · rw [hfields.1, hfields.2.1]
      simp only [Qp.recvGot]
      split
      · exact h.post
      · exact h.cons
    · split
      next hflush =>
        have hprod := h.prod
        rw [hsafe hflush] at hprod
        exact (hprod.inj h.post hprod0 (by omega)).ge
      · exact hcons0

lemma Qp.RecvOrdered.modify {obj : QpObj} (h : obj.qp.RecvOrdered) (attr : QpAttr) :
    (modifyQpLocal obj attr).2.qp.RecvOrdered := by
  obtain heq | ⟨-, -, -, -, heq⟩ := modifyQpLocal_cases obj attr
  · rwa [heq]
  · obtain ⟨M, K, D, P, h⟩ := h
    rw [heq, modifyQpState_eq]
    exact ⟨M, K, D, P, h.cap, h.cmpl, h.cons, h.prod, h.post, h.cmpl_le,
      h.cons_le, h.prod_le, h.full⟩

end

variable {obj : QpObj} {act : RecvAct}

lemma RecvAct.apply_ordered (h : obj.qp.RecvOrdered) (hsafe : act.Safe obj) :
    (act.apply obj).qp.RecvOrdered := by
  cases act with
  | post dev sgCap alloc chan wrs =>
    obtain ⟨M, K, D, P, h⟩ := h
    obtain ⟨D', P', hring⟩ := h.postRecv dev sgCap alloc chan wrs
    exact ⟨M, K, D', P', hring⟩
  | work chan =>
    obtain ⟨M, K, D, P, h⟩ := h
    obtain ⟨D', hring⟩ := h.work chan
    exact ⟨M, K, D', P, hring⟩
  | consume dev batch rqp mem chan =>
    obtain ⟨M, K, D, P, h⟩ := h
    obtain ⟨K', hring, -⟩ := rqpSendWork_ring dev batch rqp mem chan h
    exact ⟨M, K', D, P, hring⟩
  | poll room cqe => exact (recvPoll_ordered_iff h room cqe).2 hsafe
  | modify attr => exact h.modify attr

/-- The receive indices stay in order in every run in which each poll that flushes finds all posted
receives sent. -/
theorem recvRun_ordered {obj obj' : QpObj} (h : obj.qp.RecvOrdered)
    (hrun : Reaches (fun s act t => act.Safe s ∧ recvStep s act t) obj obj') :
    obj'.qp.RecvOrdered := by
  refine hrun.invariant (I := fun obj => obj.qp.RecvOrdered) h fun s act t hs hstep => ?_
  obtain ⟨hsafe, rfl⟩ := hstep
  exact RecvAct.apply_ordered hs hsafe

def newQpObj : QpObj := ⟨{ Qp.fresh 4 with state := .reset }, 0, 0⟩

def moveTo (state : QpState) : RecvAct := .modify ⟨qpMaskState, state, .reset, 0, 0⟩

def postOne : RecvAct := .post smallDev 4 (fun _ _ => .noShadow) freshChan [⟨7, []⟩]

def pollOne : RecvAct := .poll 0 ⟨0, 0, 0, 0, 0, 0⟩

lemma newQpObj_ordered : newQpObj.qp.RecvOrdered :=
  ⟨0, 0, 0, 0, ⟨by decide, by decide⟩, rfl, rfl, rfl, rfl, Nat.le_refl 0,
    Nat.le_refl 0, Nat.le_refl 0,
    Nat.zero_le _⟩

/-- A receive is posted while the queue pair is being set up and polled: the consumer passes the
producer. -/
theorem recvPoll_passes_producer :
    ∃ obj, Reaches recvStep newQpObj obj ∧ obj.qp.recvCmpl = 1 ∧ obj.qp.recvCons = 1 ∧
      obj.qp.recvProd = 0 ∧ obj.qp.recvPost = 1 ∧ ¬ obj.qp.RecvOrdered := by
  have hrun : Reaches recvStep newQpObj
      (pollOne.apply (postOne.apply ((moveTo .init).apply newQpObj))) :=
    ((Reaches.refl.snoc rfl).snoc rfl).snoc rfl
  refine ⟨_, hrun, by decide, by decide, by decide, by decide, ?_⟩
  rintro ⟨M, K, D, P, h⟩
  have hcap :
      (pollOne.apply (postOne.apply ((moveTo .init).apply newQpObj))).qp.recvCap.toNat = 4 := by
    decide
  have hcons : 1 = K % (2 * _) := h.cons
  have hprod : 0 = D % (2 * _) := h.prod
  have hpost : 1 = P % (2 * _) := h.post
  have hcmpl := h.cmpl_le
  have hcons' := h.cons_le
  have hprod' := h.prod_le
  have hfull := h.full
  rw [hcap] at hcons hprod hpost hfull
  omega

theorem recvRun_ordered_post :
    ∃ obj, Reaches (fun s act t => act.Safe s ∧ recvStep s act t) newQpObj obj ∧
      obj.qp.recvPost = 1 ∧ obj.qp.RecvOrdered := by
  have hrun : Reaches (fun s act t => RecvAct.Safe s act ∧ recvStep s act t) newQpObj
      (pollOne.apply (postOne.apply ((moveTo .rtr).apply newQpObj))) :=
    ((Reaches.refl.snoc (a := moveTo .rtr) ⟨trivial, rfl⟩).snoc (a := postOne) ⟨trivial, rfl⟩).snoc
      (a := pollOne) ⟨fun hflush => absurd hflush (by decide), rfl⟩
  exact ⟨_, hrun, by decide, recvRun_ordered newQpObj_ordered hrun⟩

/-! ## Receives without an error -/

/-- No receive failed so far: no entry has an error, those from counter `M` up to `K` were completed
with success, and those from `K` up to `P` wait as receives. -/
structure Qp.RecvClean (qp : Qp) (M K P : Nat) : Prop where
  status : ∀ p, (qp.recvWqe p).opStatus = 0
  done : ∀ k, M ≤ k → k < K → (qp.recvCqe (k % qp.recvCap.toNat)).opStatus = wcSuccess
  code : ∀ k, K ≤ k → k < P → (qp.recvWqe (k % qp.recvCap.toNat)).opCode = wrRecv

/-- A queue pair whose receives are in order, without an error, and not in abort nor on the way to
it. -/
def Qp.RecvWell (qp : Qp) : Prop :=
  (∃ M K D P, qp.RecvRing M K D P ∧ qp.RecvClean M K P) ∧
    qp.recvAborting = false ∧ qp.recvAbort = false

/-- A queue pair in a run: `early` says that `ntrdma_qp_recv_work` was called, by itself or by a
post, in a state that does not take receives and that has not changed since. -/
structure RecvHist where
  obj : QpObj
  early : Bool
  reported : List Cqe

/-- A transfer to a receive succeeds. -/
def RecvAct.succeeds (obj : QpObj) : RecvAct → Bool
  | consume dev batch rqp mem chan => (rqpSendWork dev batch obj.qp rqp mem chan).fault.isNone
  | _ => true

def RecvAct.earlyAfter (obj : QpObj) (early : Bool) : RecvAct → Bool
  | post _ _ _ _ _ => early || (isStateOutOfReset obj.qp.state && !isStateRecvReady obj.qp.state)
  | work _ => early || !isStateRecvReady obj.qp.state
  | modify attr => early && (modifyQpLocal obj attr).2.qp.state == obj.qp.state
  | _ => early

def RecvAct.reports (obj : QpObj) : RecvAct → List Cqe
  | poll room cqe =>
    match (pollBatch recvPoll (room + 1) obj.qp cqe).1 with
    | .ok (out, _) => out
    | .error _ => []
  | _ => []

namespace RecvHist

def start (obj : QpObj) : RecvHist := ⟨obj, false, []⟩

/-- The runs in which every transfer succeeds. -/
def exec (s : RecvHist) (act : RecvAct) : Option RecvHist :=
  if act.succeeds s.obj then
    some ⟨act.apply s.obj, act.earlyAfter s.obj s.early, s.reported ++ act.reports s.obj⟩
  else none

/-- No poll comes early: with a receive outstanding and none of them completed. -/
def Timely (s : RecvHist) : RecvAct → Prop
  | .poll _ _ => s.early = true → s.obj.qp.recvCons = s.obj.qp.recvCmpl →
    s.obj.qp.recvPost = s.obj.qp.recvCmpl
  | _ => True

end RecvHist

/-- The flags of the abort follow the actions: a queue pair is on its way to abort after an early
call, and goes over to it only in a poll that finds nothing posted. -/
structure Qp.RecvFollows (qp : Qp) (early : Bool) (M K D P : Nat) : Prop where
  ring : qp.RecvRing M K D P
  clean : qp.RecvClean M K P
  aborting : qp.recvAborting = early
  ready : early = true → isStateRecvReady qp.state = false
  abort : qp.recvAbort = true → early = true ∧ M = K

section
variable {qp qp' : Qp} {M K D P : Nat}

lemma Qp.RecvClean.congr (h : qp.RecvClean M K P) (hwqe : qp'.recvWqe = qp.recvWqe)
    (hcap : qp'.recvCap = qp.recvCap) (hcqe : qp'.recvCqe = qp.recvCqe) : qp'.RecvClean M K P := by
  refine ⟨fun p => ?_, fun k hk hlt => ?_, fun k hk hlt => ?_⟩
  · rw [hwqe]
    exact h.status p
  · rw [hcqe, hcap]
    exact h.done k hk hlt
  · rw [hwqe, hcap]
    exact h.code k hk hlt

/-- Sending the ring changes nothing for the receives, but marks them if it comes early. -/
lemma recvWork_clean (hring : qp.RecvRing M K D P) (hclean : qp.RecvClean M K P) (chan : Chan) :
    (recvWork qp chan).qp.RecvClean M K P ∧
      (recvWork qp chan).qp.recvAborting = (qp.recvAborting || !isStateRecvReady qp.state) ∧
      (recvWork qp chan).qp.recvAbort = qp.recvAbort ∧ (recvWork qp chan).qp.state = qp.state := by
  cases hready : isStateRecvReady qp.state with
  | false =>
    rw [recvWork_notReady chan hready]
    exact ⟨hclean.congr rfl rfl rfl, (Bool.or_true _).symm, rfl, rfl⟩
  | true =>
    obtain ⟨-, heq⟩ | ⟨-, D', hsent⟩ := recvWork_ready chan hring hready
    · rw [heq]
      exact ⟨hclean, (Bool.or_false _).symm, rfl, rfl⟩
    · rw [hsent.frame]
      exact ⟨hclean.congr rfl rfl rfl, (Bool.or_false _).symm, rfl, rfl⟩

/-- The entries that are posted are receives. -/
lemma RecvPosted.clean {dev sgCap wrs n res} (h : RecvPosted dev sgCap qp wrs M P n res)
    (hring : qp.RecvRing M K D P) (hclean : qp.RecvClean M K P) :
    res.2.2.RecvClean M K (P + n) := by
  have hcap : res.2.2.recvCap = qp.recvCap := by rw [h.frame.eq]
  have hcqe : res.2.2.recvCqe = qp.recvCqe := by rw [h.frame.eq]
  refine ⟨fun p => (h.frame.status p).trans (hclean.status p),
    fun k hk hlt => ?_, fun k hk hlt => ?_⟩
  · rw [hcqe, hcap]
    exact hclean.done k hk hlt
  rw [hcap]
  rcases Nat.lt_or_ge k P with hkP | hkP
  · rw [h.slots k (hring.cmpl_le.trans hk) hkP]
    exact hclean.code k hk hkP
  obtain ⟨j, rfl⟩ := Nat.exists_eq_add_of_le hkP
  have hj : j < (wrs.take n).length := by
    rw [List.length_take, Nat.min_eq_left h.le]
    omega
  obtain ⟨alloc, wqe, hone⟩ := h.entries j _ (List.getElem?_eq_getElem hj)
  have hcode := (ibRecvToWqe_fields dev sgCap alloc wqe (wrs.take n)[j]).2.1
  rwa [hone] at hcode

lemma rqpSendWork_notReady {dev batch rqp mem chan} (hready : isStateRecvReady qp.state = false) :
    (rqpSendWork dev batch qp rqp mem chan).qp = qp := by
  simp only [rqpSendWork, hready, Bool.not_false, if_true]
  split_ifs <;> rfl

/-- Receives that the peer takes with success are completed with success. -/
lemma Qp.RecvClean.consume (hring : qp.RecvRing M K D P) (hclean : qp.RecvClean M K P)
    {dev batch rqp mem chan} (hfault : (rqpSendWork dev batch qp rqp mem chan).fault = none) :
    ∃ K', (rqpSendWork dev batch qp rqp mem chan).qp.RecvRing M K' D P ∧
      (rqpSendWork dev batch qp rqp mem chan).qp.RecvClean M K' P ∧
      qp.RecvTook (rqpSendWork dev batch qp rqp mem chan).qp K K' := by
  obtain ⟨K', hring', hK, htook, hdone⟩ := rqpSendWork_ring dev batch rqp mem chan hring
  have hcap : (rqpSendWork dev batch qp rqp mem chan).qp.recvCap = qp.recvCap := by rw [htook.frame]
  have hcmpl := hring.cmpl_le
  have hcons := hring'.cons_le
  have hprod := hring.prod_le
  have hfull := hring.full
  refine ⟨K', hring', ⟨fun p => (htook.kept p).2.trans (hclean.status p), fun k hk hlt => ?_,
    fun k hk hlt => ?_⟩, htook⟩
  · rw [hcap]
    rcases Nat.lt_or_ge k K with hkK | hkK
    · rw [(htook.slots _ fun j hj hj' => slot_ne (by omega) (by omega)).2]
      exact hclean.done k hk hkK
    · exact (hdone hfault k hkK hlt).1
  · rw [hcap, (htook.slots _ fun j hj hj' => (slot_ne (by omega) (by omega)).symm).1]
    exact hclean.code k (by omega) hlt

lemma PollRun.recv_clean {pos : UInt32} {cqe cqe' : Cqe} {recs : List Cqe}
    (h : PollRun recvPoll pos qp cqe recs qp' cqe') (habort : qp.recvAbort = false)
    (hstatus : ∀ p, (qp.recvWqe p).opStatus = 0) (hlt : pos.toNat + recs.length < 2 ^ 32)
    (hdone : ∀ k < recs.length, (qp.recvCqe (pos.toNat + k)).opStatus = wcSuccess) :
    qp' = qp ∧ ∀ c ∈ recs, c.opStatus = wcSuccess := by
  induction h with
  | nil => exact ⟨rfl, nofun⟩
  | cons hcqe hrun ih =>
    rename_i pos qp cqe qp1 cqe1 recs qp' cqe'
    rw [List.length_cons] at hlt hdone
    have hhead : (qp.recvCqe pos.toNat).opStatus = wcSuccess := hdone 0 (Nat.succ_pos _)
    have hone : qp.pollRecvCqe pos cqe = (qp.recvCqe pos.toNat, qp) := by
      simp [Qp.pollRecvCqe, habort, hstatus, hhead, wcSuccess]
    rw [show recvPoll.pollCqe qp pos cqe = _ from hone] at hcqe
    cases hcqe
    have hpos : (pos + 1).toNat = pos.toNat + 1 := toNat_succ (by omega)
    obtain ⟨hqp, hrecs⟩ := ih habort hstatus (by omega) fun k hk => by
      rw [hpos, show pos.toNat + 1 + k = pos.toNat + (k + 1) by omega]
      exact hdone (k + 1) (by omega)
    exact ⟨hqp, List.forall_mem_cons.2 ⟨hhead, hrecs⟩⟩

/-- A poll that does not flush reports what the peer completed. -/
lemma Qp.RecvClean.poll (hring : qp.RecvRing M K D P) (hclean : qp.RecvClean M K P)
    (hflush : qp.recvFlushes = false) (room : Nat) (cqe : Cqe) :
    ∃ M' cmpl, M' ≤ K ∧ Idx qp.recvCap cmpl M' ∧ M ≤ M' ∧
      (pollBatch recvPoll (room + 1) qp cqe).2 = { qp with recvCmpl := cmpl } ∧
      ∀ out last, (pollBatch recvPoll (room + 1) qp cqe).1 = .ok (out, last) →
        ∀ c ∈ out, c.opStatus = wcSuccess := by
  have habort : qp.recvAbort = false := (Bool.or_eq_false_iff.1 hflush).1
  obtain ⟨htake, hpolled⟩ := hring.opened_ready hflush room cqe
  generalize pollBatch recvPoll (room + 1) qp cqe = res at hpolled ⊢
  cases hpolled with
  | empty => exact ⟨M, qp.recvCmpl, hring.cmpl_le, hring.cmpl, Nat.le_refl M, rfl, nofun⟩
  | some hover hn hidx =>
    rename_i n recs batch
    have hle := hover.le
    have hstop := htake.stop
    have hlt := qp.recvDone.stop.toNat_lt
    have hend := htake.le
    obtain ⟨hqp, hrecs⟩ := hover.run.recv_clean habort hclean.status (by omega) fun k hk => by
      rw [← htake.slot_add (by omega)]
      exact hclean.done _ (by omega) (by omega)
    refine ⟨M + recs.length, _, by omega, hidx, Nat.le_add_right .., ?_,
      fun out last heq c hc => ?_⟩
    · simp only [recvPoll, Qp.recvCmplPut, hqp]
    · cases heq
      rw [hover.out] at hc
      exact hrecs c (List.mem_of_mem_filter hc)

/-- In abort, an entry is reported as failed. -/
lemma PollRun.recv_flush {pos : UInt32} {cqe cqe' : Cqe} {recs : List Cqe}
    (h : PollRun recvPoll pos qp cqe recs qp' cqe') (habort : qp.recvAbort = true)
    (hne : 0 < recs.length) :
    (recvFail cqe (qp.recvWqe pos.toNat) (flushStatus qp.recvAbortFirst)).1 ∈ recs := by
  cases h with
  | nil => exact absurd hne (Nat.lt_irrefl 0)
  | cons hcqe =>
    rw [show recvPoll.pollCqe = Qp.pollRecvCqe from rfl, Qp.pollRecvCqe, if_pos habort] at hcqe
    cases hcqe
    exact List.mem_cons_self

/-- A poll that flushes reports the first receive that was posted as failed. -/
lemma Qp.RecvClean.flush (hring : qp.RecvRing M M D P) (hclean : qp.RecvClean M M P)
    (hflush : qp.recvFlushes = true) (hlt : M < P) (room : Nat) (cqe : Cqe) :
    ∃ out last, (pollBatch recvPoll (room + 1) qp cqe).1 = .ok (out, last) ∧
      ∃ c ∈ out, c.opStatus ≠ wcSuccess := by
  obtain ⟨htake, hpolled⟩ := hring.opened room cqe
  rw [hflush, if_pos rfl] at htake hpolled
  have habort : qp.recvGot.recvAbort = true := by rw [Qp.recvGot, if_pos hflush]
  have hcode : (qp.recvGot.recvWqe qp.recvDone.pos.toNat).opCode = wrRecv := by
    rw [htake.slot, Qp.recvGot, if_pos hflush]
    exact hclean.code M (Nat.le_refl M) hlt
  generalize pollBatch recvPoll (room + 1) qp cqe = res at hpolled ⊢
  cases hpolled with
  | empty => omega
  | some hover hn hidx =>
    rename_i n recs batch
    have hmem := hover.run.recv_flush habort hover.nonempty
    have hshown : cqeReported (recvFail cqe (qp.recvGot.recvWqe qp.recvDone.pos.toNat)
        (flushStatus qp.recvGot.recvAbortFirst)).1 = true := by
      rw [cqeReported, recvFail]
      rw [hcode]
      rfl
    refine ⟨batch.out, batch.cqe, rfl, _, hover.out ▸ List.mem_filter.2 ⟨hmem, hshown⟩, ?_⟩
    rw [recvFail, flushStatus]
    dsimp only
    split <;> decide

variable {early : Bool}

lemma Qp.RecvFollows.work (h : qp.RecvFollows early M K D P) (chan : Chan) :
    ∃ D', (recvWork qp chan).qp.RecvFollows (early || !isStateRecvReady qp.state) M K D' P := by
  obtain ⟨D', hring⟩ := h.ring.work chan
  obtain ⟨hclean, haborting, habort, hstate⟩ := recvWork_clean h.ring h.clean chan
  refine ⟨D', hring, hclean, h.aborting ▸ haborting, fun hearly => ?_, fun hab => ?_⟩
  · rw [hstate]
    rcases Bool.or_eq_true_iff.1 hearly with hearly | hready
    · exact h.ready hearly
    · simpa using hready
  · obtain ⟨hearly, hdone⟩ := h.abort (habort ▸ hab)
    exact ⟨by rw [hearly, Bool.true_or], hdone⟩

lemma Qp.RecvFollows.post (h : qp.RecvFollows early M K D P) (dev : Dev) (sgCap : UInt32)
    (alloc : Nat → Nat → ShadowAlloc) (chan : Chan) (wrs : List RecvWr) :
    ∃ D' P', (postRecv dev sgCap alloc qp chan wrs).work.qp.RecvFollows
      (early || (isStateOutOfReset qp.state && !isStateRecvReady qp.state)) M K D' P' := by
  rw [postRecv]
  cases hout : isStateOutOfReset qp.state with
  | false => exact ⟨D, P, by rwa [Bool.false_and, Bool.or_false]⟩
  | true =>
    obtain ⟨k, hposted⟩ := postRecvWrs_spec dev sgCap alloc wrs h.ring
    have hframe := hposted.frame.eq
    have hposts : (postRecvWrs dev sgCap alloc qp wrs).2.2.RecvFollows early M K D (P + k) := by
      refine ⟨hposted.ring h.ring, hposted.clean h.ring h.clean, ?_, ?_, ?_⟩ <;> rw [hframe]
      · exact h.aborting
      · exact h.ready
      · exact h.abort
    obtain ⟨D', hwork⟩ := hposts.work chan
    rw [show (postRecvWrs dev sgCap alloc qp wrs).2.2.state = qp.state by rw [hframe]] at hwork
    exact ⟨D', P + k, hwork⟩

lemma Qp.RecvFollows.consume (h : qp.RecvFollows early M K D P) {dev batch rqp mem chan}
    (hfault : (rqpSendWork dev batch qp rqp mem chan).fault = none) :
    ∃ K', (rqpSendWork dev batch qp rqp mem chan).qp.RecvFollows early M K' D P := by
  cases hearly : early with
  | true =>
    -- in a state that takes no receives nothing is consumed
    rw [rqpSendWork_notReady (h.ready hearly), ← hearly]
    exact ⟨K, h⟩
  | false =>
    obtain ⟨K', hring, hclean, htook⟩ := h.clean.consume h.ring hfault
    refine ⟨K', hring, hclean, ?_, nofun, fun hab => ?_⟩
    · rw [htook.frame]
      exact h.aborting.trans hearly
    · rw [htook.frame] at hab
      exact absurd (hearly.symm.trans (h.abort hab).1) nofun

lemma Qp.RecvFollows.modify {obj : QpObj} (h : obj.qp.RecvFollows early M K D P) (attr : QpAttr) :
    (modifyQpLocal obj attr).2.qp.RecvFollows
      (early && (modifyQpLocal obj attr).2.qp.state == obj.qp.state) M K D P := by
  obtain heq | ⟨-, -, -, hne, heq⟩ := modifyQpLocal_cases obj attr
  · rw [heq, beq_self_eq_true, Bool.and_true]
    exact h
  · have hring := h.ring
    rw [heq, modifyQpState_eq, show (attr.qpState == obj.qp.state) =
      false from beq_eq_false_iff_ne.2 hne,
      Bool.and_false]
    exact ⟨⟨hring.cap, hring.cmpl, hring.cons, hring.prod, hring.post, hring.cmpl_le, hring.cons_le,
      hring.prod_le, hring.full⟩, h.clean.congr rfl rfl rfl, rfl, nofun, nofun⟩

/-- A poll that is not early, or finds a completed receive, reports only successes. -/
lemma Qp.RecvFollows.poll (h : qp.RecvFollows early M K D P) (room : Nat) (cqe : Cqe)
    (htimely : early = true → qp.recvCons = qp.recvCmpl → qp.recvPost = qp.recvCmpl) :
    (∃ M' K', (pollBatch recvPoll (room + 1) qp cqe).2.RecvFollows early M' K' D P) ∧
      ∀ out last, (pollBatch recvPoll (room + 1) qp cqe).1 = .ok (out, last) →
        ∀ c ∈ out, c.opStatus = wcSuccess := by
  have hring := h.ring
  have hcmpl := hring.cmpl_le
  have hcons := hring.cons_le
  have hprod := hring.prod_le
  have hfull := hring.full
  have hpos := hring.cap.pos
  cases hflush : qp.recvFlushes with
  | false =>
    obtain ⟨M', cmpl, hM', hidx, hM, hqp, hout⟩ := h.clean.poll hring hflush room cqe
    refine ⟨⟨M', K, ?_⟩, hout⟩
    rw [hqp]
    refine ⟨⟨hring.cap, hidx, hring.cons, hring.prod, hring.post, hM', hcons, hprod, ?_⟩,
      ⟨h.clean.status, fun k hk hlt => h.clean.done k (by omega) hlt, h.clean.code⟩,
        h.aborting, h.ready,
      fun hab => ?_⟩
    · dsimp only
      omega
    · have habort := (Bool.or_eq_false_iff.1 hflush).1
      exact absurd (habort.symm.trans hab) nofun
  | true =>
    -- the poll goes over to abort, but finds nothing posted
    have hstart : early = true ∧ M = K := by
      rcases Bool.or_eq_true_iff.1 hflush with hab | hab
      · exact h.abort hab
      · rw [Bool.and_eq_true, beq_iff_eq] at hab
        have hcons' := hring.cons
        rw [hab.2] at hcons'
        exact ⟨h.aborting ▸ hab.1, hring.cmpl.inj hcons' hcmpl (by omega)⟩
    obtain ⟨hearly, rfl⟩ := hstart
    have hdrained : qp.recvCons = qp.recvCmpl :=
      UInt32.toNat_inj.1 (hring.cons.trans hring.cmpl.symm)
    have hnone : M = P := by
      have hpost := hring.post
      rw [htimely hearly hdrained] at hpost
      exact hring.cmpl.inj hpost (by omega) (by omega)
    obtain ⟨-, hpolled⟩ := hring.opened room cqe
    rw [hflush, if_pos rfl] at hpolled
    generalize pollBatch recvPoll (room + 1) qp cqe = res at hpolled ⊢
    cases hpolled with
    | empty =>
      refine ⟨⟨M, M, ?_⟩, nofun⟩
      rw [Qp.recvGot, if_pos hflush]
      have hpost := hring.post
      rw [← hnone] at hpost
      exact ⟨⟨hring.cap, hring.cmpl, hpost, hring.prod, hring.post, hcmpl, hcons, hprod, hfull⟩,
        h.clean.congr rfl rfl rfl, h.aborting, h.ready, fun _ => ⟨hearly, rfl⟩⟩
    | some hover =>
      have hle := hover.le
      have hne := hover.nonempty
      omega

/-- An early poll that finds a receive posted and none completed reports a failure. -/
lemma Qp.RecvFollows.poll_early (h : qp.RecvFollows early M K D P) (room : Nat) (cqe : Cqe)
    (hearly : early = true) (hdrained : qp.recvCons = qp.recvCmpl)
    (hpost : qp.recvPost ≠ qp.recvCmpl) :
    ∃ out last, (pollBatch recvPoll (room + 1) qp cqe).1 = .ok (out, last) ∧
      ∃ c ∈ out, c.opStatus ≠ wcSuccess := by
  have hring := h.ring
  have hflush : qp.recvFlushes = true := by simp [Qp.recvFlushes, h.aborting, hearly, hdrained]
  have hcons := hring.cons
  rw [hdrained] at hcons
  have hcmpl := hring.cmpl_le
  have hfull := hring.full
  have hcons_le := hring.cons_le
  have hprod := hring.prod_le
  have hpos := hring.cap.pos
  obtain rfl := hring.cmpl.inj hcons hcmpl (by omega)
  refine h.clean.flush hring hflush (lt_of_le_of_ne hring.post_le ?_) room cqe
  rintro rfl
  exact hpost (UInt32.toNat_inj.1 (hring.post.trans hring.cmpl.symm))

end

namespace RecvHist
variable {s t : RecvHist}

/-- The receives follow the actions, and only successes were reported. -/
def Sound (s : RecvHist) : Prop :=
  (∃ M K D P, s.obj.qp.RecvFollows s.early M K D P) ∧ ∀ c ∈ s.reported, c.opStatus = wcSuccess

lemma exec_eq {act : RecvAct} (h : s.exec act = some t) : act.succeeds s.obj = true ∧
    t = ⟨act.apply s.obj, act.earlyAfter s.obj s.early, s.reported ++ act.reports s.obj⟩ := by
  obtain ⟨hok, ht⟩ := Option.ite_none_right_eq_some.1 h
  exact ⟨hok, (Option.some.inj ht).symm⟩

lemma Sound.timely {act : RecvAct} (h : s.Sound) (ht : s.exec act = some t)
    (htimely : s.Timely act) : t.Sound := by
  obtain ⟨⟨M, K, D, P, h⟩, hreported⟩ := h
  obtain ⟨hok, rfl⟩ := exec_eq ht
  cases act with
  | post dev sgCap alloc chan wrs =>
    obtain ⟨D', P', hpost⟩ := h.post dev sgCap alloc chan wrs
    exact ⟨⟨M, K, D', P', hpost⟩, by simpa [RecvAct.reports] using hreported⟩
  | work chan =>
    obtain ⟨D', hwork⟩ := h.work chan
    exact ⟨⟨M, K, D', P, hwork⟩, by simpa [RecvAct.reports] using hreported⟩
  | consume =>
    obtain ⟨K', hconsume⟩ := h.consume (Option.isNone_iff_eq_none.1 hok)
    exact ⟨⟨M, K', D, P, hconsume⟩, by simpa [RecvAct.reports] using hreported⟩
  | modify attr => exact ⟨⟨M, K, D, P, h.modify attr⟩, by simpa [RecvAct.reports] using hreported⟩
  | poll room cqe =>
    obtain ⟨⟨M', K', hpoll⟩, hout⟩ := h.poll room cqe htimely
    refine ⟨⟨M', K', D, P, hpoll⟩, fun c hc => ?_⟩
    rcases List.mem_append.1 hc with hc | hc
    · exact hreported c hc
    · simp only [RecvAct.reports] at hc
      split at hc
      next out last heq => exact hout out last heq c hc
      next => cases hc

lemma Sound.early {act : RecvAct} (h : s.Sound) (ht : s.exec act = some t) (hnot : ¬ s.Timely act) :
    ∃ c ∈ t.reported, c.opStatus ≠ wcSuccess := by
  obtain ⟨⟨M, K, D, P, h⟩, -⟩ := h
  obtain ⟨-, rfl⟩ := exec_eq ht
  cases act with
  | poll room cqe =>
    simp only [Timely, not_forall] at hnot
    obtain ⟨hearly, hdrained, hpost⟩ := hnot
    obtain ⟨out, last, heq, c, hc, hfail⟩ := h.poll_early room cqe hearly hdrained hpost
    refine ⟨c, List.mem_append_right _ ?_, hfail⟩
    simpa only [RecvAct.reports, heq] using hc
  | _ => exact absurd trivial hnot

lemma reported_mono {acts : List RecvAct} (h : acts.foldlM exec s = some t) {c : Cqe}
    (hc : c ∈ s.reported) : c ∈ t.reported := by
  induction acts generalizing s with
  | nil => exact Option.some.inj h ▸ hc
  | cons _ _ ih =>
    obtain ⟨u, hu, hrest⟩ := Option.bind_eq_some_iff.1 h
    refine ih hrest ?_
    rw [(exec_eq hu).2]
    exact List.mem_append_left _ hc

lemma Sound.run_iff {acts : List RecvAct} (h : s.Sound) (hrun : acts.foldlM exec s = some t) :
    (∀ c ∈ t.reported, c.opStatus = wcSuccess) ↔ Each exec Timely s acts := by
  induction acts generalizing s with
  | nil =>
    cases hrun
    exact iff_of_true h.2 trivial
  | cons act _ ih =>
    obtain ⟨u, hu, hrest⟩ := Option.bind_eq_some_iff.1 hrun
    by_cases htimely : s.Timely act
    · rw [ih (h.timely hu htimely) hrest]
      refine ⟨fun heach => ⟨htimely, fun v hv => ?_⟩, fun heach => heach.2 u hu⟩
      obtain rfl := Option.some.inj (hu.symm.trans hv)
      exact heach
    · obtain ⟨c, hc, hfail⟩ := h.early hu htimely
      exact iff_of_false (fun hall => hfail (hall c (reported_mono hrest hc)))
        fun heach => htimely heach.1

end RecvHist

/-- **No flush without an error**: in every run in which the transfers succeed, the polls report
only successes exactly if none of them comes early: between a post or a call of
`ntrdma_qp_recv_work` in a state that does not take receives and the next change of the state, with
a receive outstanding and none completed. -/
theorem recvRun_success_iff {obj : QpObj} (h : obj.qp.RecvWell) {acts : List RecvAct} {s : RecvHist}
    (hrun : acts.foldlM RecvHist.exec (.start obj) = some s) :
    (∀ c ∈ s.reported, c.opStatus = wcSuccess) ↔
      Each RecvHist.exec RecvHist.Timely (.start obj) acts := by
  obtain ⟨⟨M, K, D, P, hring, hclean⟩, haborting, habort⟩ := h
  have hfollows : obj.qp.RecvFollows false M K D P :=
    ⟨hring, hclean, haborting, nofun, fun hab => absurd (habort.symm.trans hab) nofun⟩
  exact RecvHist.Sound.run_iff ⟨⟨M, K, D, P, hfollows⟩, nofun⟩ hrun

lemma newQpObj_well : newQpObj.qp.RecvWell :=
  ⟨⟨0, 0, 0, 0, ⟨⟨by decide, by decide⟩, rfl, rfl, rfl, rfl, Nat.le_refl 0,
    Nat.le_refl 0, Nat.le_refl 0,
    Nat.zero_le _⟩, fun _ => rfl, nofun, nofun⟩, rfl, rfl⟩

def oneSendRqp : Rqp :=
  { Rqp.fresh 4 with
    sendProd := 1
    sendWqe := fun _ => ⟨9, wrSend, 0, 0, ⟨0, 0, 0⟩, 0, sendSignaled, 0, []⟩ }

def consumeOne : RecvAct := .consume smallDev qpBatchSize oneSendRqp (fun _ => 0) freshChan

/-- A receive is posted while the queue pair is being set up, and polled when it was taken. -/
def setUp : List RecvAct := [moveTo .init, postOne, moveTo .rtr,
    .work freshChan, consumeOne, pollOne]

theorem recvRun_success_set_up : ∃ s, setUp.foldlM RecvHist.exec (.start newQpObj) = some s ∧
    s.reported = [⟨7, wrRecv, 0, 0, 0, 0⟩] ∧ ∀ c ∈ s.reported, c.opStatus = wcSuccess := by
  obtain ⟨s, hrun, hreported⟩ : ∃ s, setUp.foldlM RecvHist.exec (.start newQpObj) = some s ∧
      s.reported = [⟨7, wrRecv, 0, 0, 0, 0⟩] := ⟨_, rfl, by decide⟩
  refine ⟨s, hrun, hreported, (recvRun_success_iff newQpObj_well hrun).2 ?_⟩
  -- the post comes in `INIT`, but the poll after the move to `RTR`
  refine ⟨trivial, fun s1 h1 => ?_⟩
  cases h1
  refine ⟨trivial, fun s2 h2 => ?_⟩
  cases h2
  refine ⟨trivial, fun s3 h3 => ?_⟩
  cases h3
  refine ⟨trivial, fun s4 h4 => ?_⟩
  cases h4
  refine ⟨trivial, fun s5 h5 => ?_⟩
  cases h5
  exact ⟨fun hearly => absurd hearly (by decide), fun _ _ => trivial⟩

/-- A receive that is posted in the state `INIT` and polled before the next move is reported as
failed. -/
theorem recvPoll_flushes_init :
    ∃ s, [moveTo .init, postOne, pollOne].foldlM RecvHist.exec (.start newQpObj) = some s ∧
      s.obj.qp.state = .init ∧ ∃ c ∈ s.reported, c.ulpHandle = 7 ∧ c.opStatus = wcErrLocPort := by
  refine ⟨_, rfl, rfl, ⟨7, wrRecv, wcErrLocPort, 0, 0, 0⟩, by decide, rfl, rfl⟩

end Ntrdma
