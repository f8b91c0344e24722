import Ntrdma.Lib.Run
import Ntrdma.Qp.Order
import Ntrdma.Qp.Poll
import Ntrdma.Qp.State

/-!
# The error state and the abort

A queue pair in the error state should be marked for an abort on both sides, so that polling flushes
what is outstanding. `ntrdma_qp_reset` and `ntrdma_qp_send_stall` set the marks, and the data path
keeps them. The two functions that modify a state move a queue pair to the error state without
marking it: `ntrdma_modify_qp_local` even clears the marks of the receives.
-/

namespace Ntrdma
open Lib Ntrdma.Ring

def Qp.Marked (qp : Qp) : Prop :=
  (qp.sendAborting || qp.sendAbort) = true ∧ (qp.recvAborting || qp.recvAbort) = true

def Qp.ErrMarked (qp : Qp) : Prop := qp.state = .err → qp.Marked

def Host.ErrMarked (host : Host) : Prop := ∀ key obj, host.qps key = some obj → obj.qp.ErrMarked

/-! ## What the data path leaves alone -/

structure Qp.MarksKept (qp qp' : Qp) : Prop where
  state : qp'.state = qp.state
  send : (qp.sendAborting || qp.sendAbort) = true → (qp'.sendAborting || qp'.sendAbort) = true
  recv : (qp.recvAborting || qp.recvAbort) = true → (qp'.recvAborting || qp'.recvAbort) = true

lemma Qp.MarksKept.refl (qp : Qp) : qp.MarksKept qp := ⟨rfl, id, id⟩

lemma Qp.MarksKept.trans {a b c : Qp} (h : a.MarksKept b) (h' : b.MarksKept c) : a.MarksKept c :=
  ⟨h'.state.trans h.state, fun hs => h'.send (h.send hs), fun hr => h'.recv (h.recv hr)⟩

variable {qp qp' : Qp}

lemma Qp.MarksKept.errMarked (h : qp.MarksKept qp') (herr : qp.ErrMarked) :
    qp'.ErrMarked := fun hstate => by
  obtain ⟨hsend, hrecv⟩ := herr (h.state.symm.trans hstate)
  exact ⟨h.send hsend, h.recv hrecv⟩

lemma Qp.Worked.marks (h : qp.Worked qp') : qp.MarksKept qp' := by
  rw [h.frame]
  exact ⟨rfl, id, id⟩

lemma postSendLoop_marks (dev : Dev) (umem : UInt64 → Option UInt8) (wrs : List SendWr) (r : Range)
    (qp : Qp) (chan : Chan) (imm more : Bool) :
    qp.MarksKept (postSendLoop dev umem wrs r qp chan imm more).qp := by
  induction wrs generalizing r qp chan imm more with
  | nil => exact ⟨rfl, id, id⟩
  | cons _ _ ih =>
    rw [postSendLoop]
    split
    next e qp' chan' hone =>
      obtain rfl | ⟨wqe, rfl⟩ := postSendOne_error hone <;> exact ⟨rfl, id, id⟩
    next sent qp' chan' hone =>
      obtain ⟨-, -, wqe, rfl, -⟩ := postSendOne_ok hone
      have hset : qp.MarksKept (qp.setSendWqe r.pos wqe) := ⟨rfl, id, id⟩
      dsimp only
      generalize (if sent = true then r.pos else r.pos + 1) = pos
      have hput : qp.MarksKept ((qp.setSendWqe r.pos wqe).sendPostPut pos r.base) := ⟨rfl, id, id⟩
      split
      · split
        · exact ⟨rfl, id, id⟩
        · exact hput.trans (ih _ _ _ _ _)
      · exact hset.trans (ih _ _ _ _ _)

lemma postSend_marks (dev : Dev) (umem : UInt64 → Option UInt8) (qp : Qp) (rqp : Rqp) (chan : Chan)
    (wrs : List SendWr) : qp.MarksKept (postSend dev umem qp rqp chan wrs).qp := by
  have hlocked : qp.MarksKept (postSendLocked dev umem qp chan wrs).qp := by
    rw [postSendLocked]
    split
    · exact .refl qp
    · split
      · exact .refl qp
      · exact postSendLoop_marks ..
  rw [postSend]
  split
  · exact hlocked.trans (additionalWork_worked ..).marks
  · exact .refl qp

lemma recvWork_marks (qp : Qp) (chan : Chan) : qp.MarksKept (recvWork qp chan).qp := by
  have hloop : ∀ n r (qp : Qp) chan copies, qp.MarksKept (recvWorkLoop n r qp chan copies).qp := by
    intro n
    induction n with
    | zero => exact fun _ qp _ _ => .refl qp
    | succ _ ih =>
      intro r qp chan copies
      have hput : qp.MarksKept (qp.recvProdPut r.stop r.base) := ⟨rfl, id, id⟩
      rw [recvWorkLoop]
      dsimp only
      split
      · exact hput
      · split
        · split <;> exact hput
        · exact hput.trans (ih _ _ _ _)
  simp only [recvWork]
  split
  · exact ⟨rfl, id, fun _ => rfl⟩
  · split
    · exact .refl qp
    · exact hloop ..

lemma postRecv_marks (dev : Dev) (sgCap : UInt32) (alloc : Nat → Nat → ShadowAlloc) (qp : Qp)
    (chan : Chan) (wrs : List RecvWr) :
    qp.MarksKept (postRecv dev sgCap alloc qp chan wrs).work.qp := by
  have hloop : ∀ wrs alloc r (qp : Qp), qp.MarksKept
      (postRecvLoop dev sgCap wrs alloc r qp).2.2 := by
    intro wrs
    induction wrs with
    | nil => exact fun _ _ qp => ⟨rfl, id, id⟩
    | cons _ _ ih =>
      intro alloc r qp
      rw [postRecvLoop]
      split
      · exact ⟨rfl, id, id⟩
      next wqe hone =>
        have hset : qp.MarksKept (qp.setRecvWqe r.pos wqe) := ⟨rfl, id, id⟩
        have hput : qp.MarksKept ((qp.setRecvWqe r.pos wqe).recvPostPut (r.pos + 1) r.base) :=
          ⟨rfl, id, id⟩
        dsimp only
        split
        · split
          · exact hput
          · exact hput.trans (ih _ _ _)
        · exact hset.trans (ih _ _ _)
  have hwrs : qp.MarksKept (postRecvWrs dev sgCap alloc qp wrs).2.2 := by
    rw [postRecvWrs]
    split
    · exact .refl qp
    · split
      · exact .refl qp
      · exact hloop ..
  simp only [postRecv]
  split
  · exact .refl qp
  · exact hwrs.trans (recvWork_marks _ _)

lemma pollBatch_marks {ops : PollOps} (hget : ∀ qp : Qp, qp.MarksKept (ops.pollStartAndGet qp).2)
    (hcqe : ∀ (qp : Qp) pos cqe, qp.MarksKept (ops.pollCqe qp pos cqe).2)
    (hput : ∀ (qp : Qp) pos base, qp.MarksKept (ops.pollPutAndDone qp pos base)) (room : Nat)
    (qp : Qp) (cqe : Cqe) : qp.MarksKept (pollBatch ops room qp cqe).2 := by
  have hentries : ∀ n room stop pos (qp : Qp) cqe,
      qp.MarksKept (pollEntries ops stop n room pos qp cqe).qp := by
    intro n
    induction n with
    | zero => exact fun _ _ _ qp _ => .refl qp
    | succ _ ih =>
      intro room stop pos qp cqe
      rw [pollEntries]
      dsimp only
      generalize (if cqeReported (ops.pollCqe qp pos cqe).1 = true then _ else _) = out
      split
      · exact hcqe qp pos cqe
      · exact (hcqe qp pos cqe).trans (ih _ _ _ _ _)
  have hstart := hget qp
  rw [pollBatch]
  split
  next e qp' heq =>
    rw [heq] at hstart
    exact hstart
  next r qp' heq =>
    rw [heq] at hstart
    exact (hstart.trans (hentries _ _ _ _ _ _)).trans (hput _ _ _)

lemma pollStartAndGet_marks {get : Qp → Range × Qp} {abortFirst : Qp → Bool}
    (hget : ∀ qp : Qp, qp.MarksKept (get qp).2) (qp : Qp) :
    qp.MarksKept (pollStartAndGet get abortFirst qp).2 := by
  have htwice : qp.MarksKept (if (get qp).1.pos == (get qp).1.stop && abortFirst (get qp).2 then
      get (get qp).2 else ((get qp).1, (get qp).2)).2 := by
    split
    · exact (hget qp).trans (hget _)
    · exact hget qp
  simp only [pollStartAndGet]
  generalize (if (get qp).1.pos == (get qp).1.stop && abortFirst (get qp).2 then get (get qp).2
    else ((get qp).1, (get qp).2)) = res at htwice ⊢
  split <;> exact htwice

lemma Qp.recvCmplGet_marks (qp : Qp) : qp.MarksKept qp.recvCmplGet.2 := by
  have hshort : qp.MarksKept (if qp.recvAbort then
      { qp with recvCons := qp.recvPost } else qp) := by
    split <;> exact ⟨rfl, id, id⟩
  simp only [Qp.recvCmplGet]
  generalize (if qp.recvAbort then { qp with recvCons := qp.recvPost } else qp) = qp1 at hshort ⊢
  split
  · exact hshort.trans ⟨rfl, id, fun _ => Bool.or_true _⟩
  · exact hshort

lemma Qp.sendCmplGet_marks (qp : Qp) : qp.MarksKept qp.sendCmplGet.2 := by
  have hshort : qp.MarksKept
      (if qp.sendAbort then { qp with sendProd := qp.sendPost, sendCons := qp.sendPost }
        else qp) := by
    split <;> exact ⟨rfl, id, id⟩
  simp only [Qp.sendCmplGet]
  generalize (if qp.sendAbort then
    { qp with sendProd := qp.sendPost, sendCons := qp.sendPost } else qp) = qp1 at hshort ⊢
  split
  · exact hshort.trans ⟨rfl, fun _ => Bool.or_true _, id⟩
  · exact hshort

lemma Qp.pollRecvCqe_marks (qp : Qp) (pos : UInt32) (cqe : Cqe) :
    qp.MarksKept (qp.pollRecvCqe pos cqe).2 := by
  have hframe := qp.pollRecvCqe_frame pos cqe
  refine ⟨by rw [hframe.eq], by rw [hframe.eq]; exact id, ?_⟩
  rw [Bool.or_eq_true, Bool.or_eq_true]
  refine Or.imp hframe.aborting fun habort => ?_
  rw [hframe.eq]
  exact habort

lemma Qp.pollSendCqe_marks (qp : Qp) (pos : UInt32) (cqe : Cqe) :
    qp.MarksKept (qp.pollSendCqe pos cqe).2 := by
  have hframe := qp.pollSendCqe_frame pos cqe
  refine ⟨by rw [hframe.eq], ?_, by rw [hframe.eq]; exact id⟩
  rw [Bool.or_eq_true, Bool.or_eq_true]
  refine Or.imp hframe.aborting fun habort => ?_
  rw [hframe.eq]
  exact habort

lemma recvPoll_marks (room : Nat) (qp : Qp) (cqe : Cqe) :
    qp.MarksKept (pollBatch recvPoll room qp cqe).2 :=
  pollBatch_marks (pollStartAndGet_marks Qp.recvCmplGet_marks) Qp.pollRecvCqe_marks
    (fun _ _ _ => ⟨rfl, id, id⟩) room qp cqe

lemma sendPoll_marks (room : Nat) (qp : Qp) (cqe : Cqe) :
    qp.MarksKept (pollBatch sendPoll room qp cqe).2 :=
  pollBatch_marks (pollStartAndGet_marks Qp.sendCmplGet_marks) Qp.pollSendCqe_marks
    (fun _ _ _ => ⟨rfl, id, id⟩) room qp cqe

/-! ## What happens to the queue pairs of a host -/

inductive HostAct where
  | modify (key : UInt32) (attr : QpAttr)
  | peerModify (srcQpKey access : UInt32) (newState : QpState) (destQpKey : UInt32)
  | reset (key : UInt32)
  | stall (key : UInt32)
  | postSend (key : UInt32) (dev : Dev) (umem : UInt64 → Option UInt8) (rqp : Rqp) (chan : Chan)
      (wrs : List SendWr)
  | postRecv (key : UInt32) (dev : Dev) (sgCap : UInt32)
    (alloc : Nat → Nat → ShadowAlloc) (chan : Chan)
      (wrs : List RecvWr)
  | recvWork (key : UInt32) (chan : Chan)
  | pollSend (key : UInt32) (room : Nat) (cqe : Cqe)
  | pollRecv (key : UInt32) (room : Nat) (cqe : Cqe)

def Host.onQp (host : Host) (key : UInt32) (f : Qp → Qp) : Host :=
  match host.qps key with
  | none => host
  | some obj => host.setQp key { obj with qp := f obj.qp }

/-- The host after an action. What a post of sends does to the view of the peer's receives is left
out. -/
def HostAct.apply (host : Host) : HostAct → Host
  | modify key attr =>
    match host.qps key with
    | none => host
    | some obj => host.setQp key (modifyQpLocal obj attr).2
  | peerModify srcQpKey access newState destQpKey =>
    (rqpModifyLocal host srcQpKey access newState destQpKey).2
  | reset key => host.qpReset key
  | stall key => host.onQp key qpSendStall
  | postSend key dev umem rqp chan wrs =>
    host.onQp key fun qp => (Ntrdma.postSend dev umem qp rqp chan wrs).qp
  | postRecv key dev sgCap alloc chan wrs =>
    host.onQp key fun qp => (Ntrdma.postRecv dev sgCap alloc qp chan wrs).work.qp
  | recvWork key chan => host.onQp key fun qp => (Ntrdma.recvWork qp chan).qp
  | pollSend key room cqe => host.onQp key fun qp => (pollBatch sendPoll room qp cqe).2
  | pollRecv key room cqe => host.onQp key fun qp => (pollBatch recvPoll room qp cqe).2

def hostStep (host : Host) (act : HostAct) (host' : Host) : Prop := host' = act.apply host

/-- No modification moves a queue pair to the error state that is not in it already, or, if the peer
asks for it, not marked. -/
def HostAct.Safe (host : Host) : HostAct → Prop
  | modify key attr => ∀ obj, host.qps key = some obj → attr.mask &&& ~~~qpMaskSupported = 0 →
      (attr.has qpMaskCurState = true → attr.curQpState = obj.qp.state) →
      attr.has qpMaskState = true → attr.qpState = .err → obj.qp.state = .err
  | peerModify srcQpKey _ newState destQpKey => newState = .err →
      ∀ robj, host.rqps srcQpKey = some robj → robj.qpKey = destQpKey →
        ∀ obj, host.qps destQpKey = some obj → obj.qp.Marked
  | _ => True

section
variable {host : Host}

variable {obj : QpObj}

lemma Host.ErrMarked.setQp (h : host.ErrMarked) (key : UInt32) (hobj : obj.qp.ErrMarked) :
    (host.setQp key obj).ErrMarked := by
  intro k o hk
  simp only [Host.setQp] at hk
  by_cases hkey : k = key
  · subst hkey
    rw [Function.update_self, Option.some.injEq] at hk
    rwa [← hk]
  · rw [Function.update_of_ne hkey] at hk
    exact h k o hk

variable {f : Qp → Qp}

lemma Host.ErrMarked.onQp (h : host.ErrMarked) (key : UInt32)
    (hf : ∀ qp : Qp, qp.ErrMarked → (f qp).ErrMarked) : (host.onQp key f).ErrMarked := by
  rw [Host.onQp]
  split
  · exact h
  next obj hobj => exact h.setQp key (hf _ (h key obj hobj))

lemma Host.ErrMarked.onQp_kept (h : host.ErrMarked) (key : UInt32)
    (hf : ∀ qp : Qp, qp.MarksKept (f qp)) : (host.onQp key f).ErrMarked :=
  h.onQp key fun qp herr => (hf qp).errMarked herr

variable {attr : QpAttr}

lemma modifyQpLocal_errMarked (h : obj.qp.ErrMarked) (hsafe : attr.mask &&& ~~~qpMaskSupported = 0 →
      (attr.has qpMaskCurState = true → attr.curQpState = obj.qp.state) →
      attr.has qpMaskState = true → attr.qpState = .err → obj.qp.state = .err) :
    (modifyQpLocal obj attr).2.qp.ErrMarked := by
  obtain heq | ⟨hsupported, hcur, hmask, hne, heq⟩ := modifyQpLocal_cases obj attr
  · rwa [heq]
  · rw [heq, modifyQpState_eq]
    intro herr
    exact absurd (herr.trans (hsafe hsupported hcur hmask herr).symm) hne

lemma modifyQpLocal_unmarked (hsupported : attr.mask &&& ~~~qpMaskSupported = 0)
    (hcur : attr.has qpMaskCurState = true → attr.curQpState = obj.qp.state)
    (hmask : attr.has qpMaskState = true) (herr : attr.qpState = .err) (hne : obj.qp.state ≠ .err) :
    ¬ (modifyQpLocal obj attr).2.qp.ErrMarked := by
  have hqp : (modifyQpLocal obj attr).2.qp = modifyQpState obj.qp .err := by
    simp only [modifyQpLocal]
    rw [if_neg (by simpa using hcur), if_neg (by simp [hsupported]),
      if_neg (by simp [hmask, herr, Ne.symm hne]), if_pos hmask, herr]
    split <;> split <;> rfl
  rw [hqp]
  exact fun hmarked => Bool.false_ne_true (hmarked rfl).2

variable {srcQpKey access destQpKey : UInt32}

lemma rqpModifyLocal_errMarked {newState : QpState} (h : host.ErrMarked)
    (hsafe : newState = .err → ∀ robj, host.rqps srcQpKey = some robj →
      robj.qpKey = destQpKey → ∀ obj, host.qps destQpKey = some obj → obj.qp.Marked) :
    (rqpModifyLocal host srcQpKey access newState destQpKey).2.ErrMarked := by
  simp only [rqpModifyLocal]
  split
  · exact h
  next robj hrobj =>
    have hset : ∀ robj, (host.setRqp srcQpKey robj).ErrMarked := fun _ => h
    cases herr : isStateError newState with
    | false =>
      rw [Bool.false_and, if_neg Bool.false_ne_true]
      exact hset _
    | true =>
      simp only [Bool.not_true, Bool.false_eq_true, if_false, Bool.true_and]
      generalize hrobj' : (if access ≠ 0 then
        ({ rqp := { robj.rqp with state := newState }, qpKey := robj.qpKey, access } : RqpObj)
        else
          { rqp := { robj.rqp with state := newState },
            qpKey := robj.qpKey, access := robj.access })
        = robj'
      have hqpKey : robj'.qpKey = robj.qpKey := by
        rw [← hrobj']
        split <;> rfl
      split
      next hhit =>
        split
        · exact hset _
        next obj hobj =>
          refine (hset _).setQp destQpKey fun hstate => ?_
          exact hsafe hstate robj hrobj (hqpKey.symm.trans (eq_of_beq hhit)) obj hobj
      · exact hset _

lemma rqpModifyLocal_unmarked {robj : RqpObj} (hrobj : host.rqps srcQpKey = some robj)
    (hkey : robj.qpKey = destQpKey) (hobj : host.qps destQpKey = some obj)
    (hunmarked : ¬ obj.qp.Marked) :
    ¬ (rqpModifyLocal host srcQpKey access .err destQpKey).2.ErrMarked := by
  have hqps : (rqpModifyLocal host srcQpKey access .err destQpKey).2.qps destQpKey =
      some { obj with qp := { obj.qp with state := .err } } := by
    have herr : isStateError .err = true := rfl
    simp only [rqpModifyLocal, hrobj, herr, Bool.not_true,
      Bool.false_eq_true, if_false, Bool.true_and]
    have hqpKey : (if access ≠ 0 then
        ({ rqp := { robj.rqp with state := .err }, qpKey := robj.qpKey, access } : RqpObj)
        else
          { rqp := { robj.rqp with state := .err },
            qpKey := robj.qpKey, access := robj.access }).qpKey
        = destQpKey := by
      split <;> exact hkey
    rw [hqpKey, beq_self_eq_true, if_pos rfl]
    simp only [Host.setRqp, hobj, Host.setQp, Function.update_self]
  intro hmarked
  have hobj' := hmarked destQpKey _ hqps
  exact hunmarked (hobj' rfl)

variable {act : HostAct}

lemma HostAct.apply_errMarked (h : host.ErrMarked) (hsafe : act.Safe host) :
    (act.apply host).ErrMarked := by
  cases act with
  | modify key =>
    simp only [HostAct.apply]
    split
    · exact h
    next obj hobj => exact h.setQp key (modifyQpLocal_errMarked (h key obj hobj) (hsafe obj hobj))
  | peerModify => exact rqpModifyLocal_errMarked h hsafe
  | reset key =>
    simp only [HostAct.apply, Host.qpReset]
    split
    · exact h
    · split
      · exact h.setQp key fun _ => ⟨rfl, rfl⟩
      · exact Host.ErrMarked.setQp h key fun _ => ⟨rfl, rfl⟩
  | stall key =>
    refine h.onQp key fun qp herr => ?_
    simp only [qpSendStall]
    split
    · intro _
      refine ⟨?_, ?_⟩
      · cases qp.sendAbort <;> simp
      · cases qp.recvAbort <;> simp
    · exact fun _ => ⟨rfl, rfl⟩
  | postSend key dev umem rqp chan wrs =>
    exact h.onQp_kept key fun qp => postSend_marks dev umem qp rqp chan wrs
  | postRecv key dev sgCap alloc chan wrs =>
    exact h.onQp_kept key fun qp => postRecv_marks dev sgCap alloc qp chan wrs
  | recvWork key chan => exact h.onQp_kept key fun qp => recvWork_marks qp chan
  | pollSend key room cqe =>
    rw [HostAct.apply]
    exact h.onQp_kept key fun qp => sendPoll_marks room qp cqe
  | pollRecv key room cqe =>
    rw [HostAct.apply]
    exact h.onQp_kept key fun qp => recvPoll_marks room qp cqe

lemma HostAct.apply_errMarked_iff (h : host.ErrMarked) :
    (act.apply host).ErrMarked ↔ act.Safe host := by
  refine ⟨fun hmarked => ?_, HostAct.apply_errMarked h⟩
  cases act with
  | modify key =>
    intro obj hobj hsupported hcur hmask herr
    by_contra hne
    refine modifyQpLocal_unmarked hsupported hcur hmask herr hne (hmarked key _ ?_)
    simp only [HostAct.apply, hobj, Host.setQp, Function.update_self]
  | peerModify =>
    rintro rfl robj hrobj hkey obj hobj
    by_contra hunmarked
    exact rqpModifyLocal_unmarked hrobj hkey hobj hunmarked hmarked
  | _ => trivial

end

/-- Where no modification moves an unmarked queue pair to the error state, every queue pair in it is
marked for an abort on both sides. -/
theorem hostRun_errMarked {host host' : Host} (h : host.ErrMarked)
    (hrun : Reaches (fun s act t => act.Safe s ∧ hostStep s act t) host host') :
    host'.ErrMarked := by
  refine hrun.invariant (I := Host.ErrMarked) h fun s act t hs hstep => ?_
  obtain ⟨hsafe, rfl⟩ := hstep
  exact HostAct.apply_errMarked hs hsafe

def sendingHost : Host :=
    ⟨fun key => if key = 1 then some ⟨Qp.fresh 4, 2, 0⟩ else none, fun _ => none⟩

/-- The application moves the queue pair that is ready to send to the error state: nothing marks
it. -/
theorem modifyQp_err_unmarked :
    ∃ host obj, Reaches hostStep sendingHost host ∧ host.qps 1 = some obj ∧ obj.qp.state = .err ∧
      obj.qp.sendAborting = false ∧ obj.qp.sendAbort = false ∧ obj.qp.recvAborting = false ∧
      obj.qp.recvAbort = false :=
  ⟨_, _, Reaches.refl.snoc (a := .modify 1 ⟨qpMaskState, .err, .reset, 0, 0⟩) rfl,
    rfl, by decide, by decide,
    by decide, by decide, by decide⟩

theorem hostRun_errMarked_stall :
    ∃ host obj, Reaches (fun s act t => act.Safe s ∧ hostStep s act t) sendingHost host ∧
      host.qps 1 = some obj ∧ obj.qp.state = .err ∧ host.ErrMarked := by
  have hrun : Reaches (fun s act t => HostAct.Safe s act ∧ hostStep s act t) sendingHost
      ((HostAct.stall 1).apply sendingHost) := Reaches.refl.snoc (a := .stall 1) ⟨trivial, rfl⟩
  have hstart : sendingHost.ErrMarked := by
    intro key obj hobj hstate
    simp only [sendingHost] at hobj
    split at hobj
    · rw [← Option.some.inj hobj] at hstate
      exact absurd hstate (by decide)
    · cases hobj
  exact ⟨_, _, hrun, rfl, by decide, hostRun_errMarked hstart hrun⟩

end Ntrdma
