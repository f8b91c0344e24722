import Ntrdma.Cmd.QpCreate
import Ntrdma.Cmd.Recv
import Ntrdma.Qp.Poll
import Ntrdma.Qp.State
import Ntrdma.Recv.Post

/-!
# A queue pair and its new view at the peer

What the rings of a queue pair and of the view that the peer makes of it anew (`ntrdma_rqp_init`)
have to do with each other after the link was lost. `ntrdma_qp_enable_prep` samples where the sends
and the receives were consumed last, and the queue pair goes on from where it produced last. Between
the loss of the link and the new view come `ntrdma_qp_reset`, polls (which flush what is left once
an abort has begun) and `ntrdma_modify_qp`, in any order with the sample.
-/

namespace Ntrdma
open Lib Ntrdma.Ring

/-! ## What can happen -/

/-- What happens to a queue pair between the loss of the link and its new view at the peer. -/
inductive ReconAct where
  | reset
  | pollSend (room : Nat) (cqe : Cqe)
  | pollRecv (room : Nat) (cqe : Cqe)
  | modify (attr : QpAttr)
  | recvWork (chan : Chan)

/-- The queue pair after an action. The peer's buffers are not mapped yet, so `ntrdma_qp_recv_work`
takes the link down again if it has something to send. -/
def ReconAct.apply (obj : QpObj) : ReconAct → Option QpObj
  | reset => some { obj with qp := qpReset obj.qp }
  | pollSend room cqe => some { obj with qp := (pollBatch sendPoll room obj.qp cqe).2 }
  | pollRecv room cqe => some { obj with qp := (pollBatch recvPoll room obj.qp cqe).2 }
  | modify attr => some (modifyQpLocal obj attr).2
  | recvWork chan =>
    if isStateRecvReady obj.qp.state && obj.qp.recvProdGet.pos != obj.qp.recvProdGet.stop then none
    else some { obj with qp := (Ntrdma.recvWork obj.qp chan).qp }

def reconRun (obj : QpObj) (acts : List ReconAct) : Option QpObj := acts.foldlM ReconAct.apply obj

def ReconAct.flushedSends (obj : QpObj) : ReconAct → Bool
  | pollSend _ _ => obj.qp.sendAbort
  | _ => false

def ReconAct.flushedRecvs (obj : QpObj) : ReconAct → Bool
  | pollRecv _ _ => obj.qp.recvAbort
  | _ => false

def someAct (did : QpObj → ReconAct → Bool) : QpObj → List ReconAct → Bool
  | _, [] => false
  | obj, act :: acts =>
    match act.apply obj with
    | none => false
    | some obj => did obj act || someAct did obj acts

def newRqp (res : QpRes) (sampled : QpObj) (cmd : Cmd) : Rqp :=
  (rqpInit (qpEnablePrep { res with qp := sampled.qp } cmd).qpCreate).rqp

/-- When `ntrdma_qp_recv_work` announces an index that is not the view's own, the next receive that
the view hands out is among those it has copied. -/
def Qp.SendsNext (qp : Qp) (rqp : Rqp) : Prop :=
  ∀ post chan idx, valid post qp.recvPost qp.recvCap = true →
    valid post qp.recvProd qp.recvCap = true →
    (recvWork { qp with state := .rts, recvPost := post } chan).idx = some idx →
      idx ≠ rqp.recvCons →
    ∃ c ∈ (recvWork { qp with state := .rts, recvPost := post } chan).copies,
      c.1 ≤ rqp.recvConsGet.pos ∧ rqp.recvConsGet.pos < c.2

/-- The view will consume the sends from where they will be produced, and the next receive it hands
out is sent to it. -/
structure Qp.Agrees (qp : Qp) (rqp : Rqp) : Prop where
  send : rqp.sendCons = qp.sendProd
  recv : qp.SendsNext rqp

/-! ## Polls -/

section
variable {qp q : Qp}

variable {ops : PollOps} {I : Qp → Prop}

lemma pollEntries_keeps (hcqe : ∀ q pos cqe, I q → I (ops.pollCqe q pos cqe).2) (stop : UInt32)
    (n room : Nat) (pos : UInt32) (cqe : Cqe) (h : I q) :
    I (pollEntries ops stop n room pos q cqe).qp := by
  induction n generalizing room pos q cqe with
  | zero => exact h
  | succ _ ih =>
    have hnext := hcqe q pos cqe h
    rw [pollEntries]
    generalize ops.pollCqe q pos cqe = entry at hnext ⊢
    dsimp only
    generalize (if cqeReported entry.1 then [entry.1] else []) = out
    split
    · exact hnext
    · exact ih _ _ _ hnext

lemma pollBatch_keeps (hget : I (ops.pollStartAndGet qp).2)
    (hcqe : ∀ q pos cqe, I q → I (ops.pollCqe q pos cqe).2)
    (hput : ∀ q pos base, I q → I (ops.pollPutAndDone q pos base)) (room : Nat) (cqe : Cqe) :
    I (pollBatch ops room qp cqe).2 := by
  unfold pollBatch
  split
  next heq =>
    rw [heq] at hget
    exact hget
  next heq =>
    rw [heq] at hget
    exact hput _ _ _ (pollEntries_keeps hcqe _ _ _ _ _ hget)

/-- A poll of the sends: they stay where they are, or everything that was posted is behind. -/
structure Qp.SendPolled (qp q : Qp) : Prop where
  post : q.sendPost = qp.sendPost
  recv : q.recvCap = qp.recvCap ∧ q.recvPost = qp.recvPost ∧
    q.recvProd = qp.recvProd ∧ q.recvCons = qp.recvCons
  prod : q.sendProd = if q.sendAbort then qp.sendPost else qp.sendProd
  cons : q.sendCons = if q.sendAbort then qp.sendPost else qp.sendCons

/-- The receives stay where they are, or all that was posted is behind; the index up to which they
were sent stays. -/
structure Qp.RecvPolled (qp q : Qp) : Prop where
  send : q.sendPost = qp.sendPost ∧ q.sendProd = qp.sendProd ∧ q.sendCons = qp.sendCons
  same : q.recvCap = qp.recvCap ∧ q.recvPost = qp.recvPost ∧ q.recvProd = qp.recvProd
  cons : q.recvCons = if q.recvAbort then qp.recvPost else qp.recvCons

lemma Qp.SendPolled.of_poll (qp : Qp) (room : Nat) (cqe : Cqe) : qp.SendPolled
    (pollBatch sendPoll room qp cqe).2 := by
  refine pollBatch_keeps ?_ (fun q pos cqe h => ?_) (fun q pos base h =>
    ⟨h.post, h.recv, h.prod, h.cons⟩) room cqe
  · change qp.SendPolled qp.pollSendStartAndGet.2
    rw [Qp.pollSendStartAndGet_got, Getter.got]
    split
    next hab => exact ⟨rfl, ⟨rfl, rfl, rfl, rfl⟩, (if_pos hab).symm, (if_pos hab).symm⟩
    next hab =>
      split
      · exact ⟨rfl, ⟨rfl, rfl, rfl, rfl⟩, rfl, rfl⟩
      · exact ⟨rfl, ⟨rfl, rfl, rfl, rfl⟩, (if_neg hab).symm, (if_neg hab).symm⟩
  · simp only [sendPoll, Qp.pollSendCqe]
    repeat' split
    all_goals exact ⟨h.post, h.recv, h.prod, h.cons⟩

lemma Qp.RecvPolled.of_poll (qp : Qp) (room : Nat) (cqe : Cqe) : qp.RecvPolled
    (pollBatch recvPoll room qp cqe).2 := by
  refine pollBatch_keeps ?_ (fun q pos cqe h => ?_) (fun q pos base h =>
    ⟨h.send, h.same, h.cons⟩) room cqe
  · change qp.RecvPolled qp.pollRecvStartAndGet.2
    rw [Qp.pollRecvStartAndGet_got, Getter.got]
    split
    next hab => exact ⟨⟨rfl, rfl, rfl⟩, ⟨rfl, rfl, rfl⟩, (if_pos hab).symm⟩
    next hab =>
      split
      · exact ⟨⟨rfl, rfl, rfl⟩, ⟨rfl, rfl, rfl⟩, rfl⟩
      · exact ⟨⟨rfl, rfl, rfl⟩, ⟨rfl, rfl, rfl⟩, (if_neg hab).symm⟩
  · simp only [recvPoll, Qp.pollRecvCqe]
    repeat' split
    all_goals exact ⟨h.send, h.same, h.cons⟩

end

/-! ## A run -/

section
variable {obj obj' sampled made : QpObj} {act : ReconAct} {acts before after : List ReconAct}

/-- A poll that flushes takes the sends, or the receives, to what was posted, and everything else
stays. -/
structure ReconAct.Moves (obj obj' : QpObj) (sends recvs : Bool) : Prop where
  sendPost : obj'.qp.sendPost = obj.qp.sendPost
  sendProd : obj'.qp.sendProd = if sends then obj.qp.sendPost else obj.qp.sendProd
  sendCons : obj'.qp.sendCons = if sends then obj.qp.sendPost else obj.qp.sendCons
  recvCap : obj'.qp.recvCap = obj.qp.recvCap
  recvPost : obj'.qp.recvPost = obj.qp.recvPost
  recvProd : obj'.qp.recvProd = obj.qp.recvProd
  recvCons : obj'.qp.recvCons = if recvs then obj.qp.recvPost else obj.qp.recvCons

lemma ReconAct.Moves.refl (obj : QpObj) :
    ReconAct.Moves obj obj false false := ⟨rfl, rfl, rfl, rfl, rfl, rfl, rfl⟩

lemma ReconAct.apply_moves (h : act.apply obj = some obj') :
    ReconAct.Moves obj obj' (act.flushedSends obj') (act.flushedRecvs obj') := by
  cases act with
  | reset =>
    cases h
    exact ⟨rfl, rfl, rfl, rfl, rfl, rfl, rfl⟩
  | pollSend room cqe =>
    cases h
    have hp := Qp.SendPolled.of_poll obj.qp room cqe
    generalize (pollBatch sendPoll room obj.qp cqe).2 = qp at hp
    obtain ⟨hcap, hpost, hprod, hcons⟩ := hp.recv
    exact ⟨hp.post, hp.prod, hp.cons, hcap, hpost, hprod, hcons⟩
  | pollRecv room cqe =>
    cases h
    have hp := Qp.RecvPolled.of_poll obj.qp room cqe
    generalize (pollBatch recvPoll room obj.qp cqe).2 = qp at hp
    exact ⟨hp.send.1, hp.send.2.1, hp.send.2.2, hp.same.1, hp.same.2.1, hp.same.2.2, hp.cons⟩
  | modify attr =>
    cases h
    have hqp := modifyQpLocal_cases obj attr
    generalize (modifyQpLocal obj attr).2 = obj' at hqp
    obtain ⟨qp, rqpKey, access⟩ := obj'
    obtain rfl | ⟨-, -, -, -, rfl⟩ := hqp
    · exact ⟨rfl, rfl, rfl, rfl, rfl, rfl, rfl⟩
    · rw [modifyQpState_eq]
      exact ⟨rfl, rfl, rfl, rfl, rfl, rfl, rfl⟩
  | recvWork =>
    simp only [ReconAct.apply] at h
    split at h <;> cases h
    next hidle =>
      simp only [Bool.and_eq_true, bne_iff_ne, not_and, not_not] at hidle
      simp only [Ntrdma.recvWork]
      split
      · exact ⟨rfl, rfl, rfl, rfl, rfl, rfl, rfl⟩
      next hready =>
        rw [Bool.not_eq_true', Bool.not_eq_false] at hready
        rw [if_pos (hidle hready)]
        exact .refl obj

lemma ReconAct.Moves.trans {obj'' : QpObj} {s s' r r' : Bool} (h : ReconAct.Moves obj obj' s r)
    (h' : ReconAct.Moves obj' obj'' s' r') : ReconAct.Moves obj obj'' (s || s') (r || r') where
  sendPost := h'.sendPost.trans h.sendPost
  sendProd := by
    rw [h'.sendProd, h.sendPost, h.sendProd]
    cases s <;> cases s' <;> rfl
  sendCons := by
    rw [h'.sendCons, h.sendPost, h.sendCons]
    cases s <;> cases s' <;> rfl
  recvCap := h'.recvCap.trans h.recvCap
  recvPost := h'.recvPost.trans h.recvPost
  recvProd := h'.recvProd.trans h.recvProd
  recvCons := by
    rw [h'.recvCons, h.recvPost, h.recvCons]
    cases r <;> cases r' <;> rfl

lemma reconRun_moves (h : reconRun obj acts = some obj') :
    ReconAct.Moves obj obj' (someAct ReconAct.flushedSends obj acts)
      (someAct ReconAct.flushedRecvs obj acts) := by
  induction acts generalizing obj with
  | nil =>
    obtain rfl := Option.some.inj h
    exact .refl obj
  | cons _ _ ih =>
    obtain ⟨mid, hact, hrest⟩ := Option.bind_eq_some_iff.mp h
    have hmoves := (ReconAct.apply_moves hact).trans (ih hrest)
    simp only [someAct]
    rw [hact]
    exact hmoves

end

/-! ## The receives that are sent -/

section
variable {qp : Qp} {chan : Chan} {cap : UInt32} {n K D P : Nat}

lemma recvWorkLoop_send (cons cmpl : UInt32) (rounds : Nat) (r : Range) (qp : Qp) (chan : Chan)
    (copies : List (UInt32 × UInt32)) :
    (recvWorkLoop rounds r { qp with recvCons := cons, recvCmpl := cmpl } chan copies).copies =
        (recvWorkLoop rounds r qp chan copies).copies ∧
      (recvWorkLoop rounds r { qp with recvCons := cons, recvCmpl := cmpl } chan copies).idx =
        (recvWorkLoop rounds r qp chan copies).idx := by
  induction rounds generalizing r qp chan copies with
  | zero => exact ⟨rfl, rfl⟩
  | succ _ ih =>
    have hput : Qp.recvProdPut { qp with recvCons := cons, recvCmpl := cmpl } r.stop r.base =
        { qp.recvProdPut r.stop r.base with recvCons := cons, recvCmpl := cmpl } := rfl
    have hget :
      Qp.recvProdGet { qp.recvProdPut r.stop r.base with recvCons := cons, recvCmpl := cmpl } =
        (qp.recvProdPut r.stop r.base).recvProdGet := rfl
    simp only [recvWorkLoop, hput, hget]
    split
    · exact ⟨rfl, rfl⟩
    · split
      · split <;> exact ⟨rfl, rfl⟩
      · exact ih ..

lemma recvWork_send (cons cmpl : UInt32) (qp : Qp) (chan : Chan) :
    (recvWork { qp with recvCons := cons, recvCmpl := cmpl } chan).copies =
      (recvWork qp chan).copies ∧
      (recvWork { qp with recvCons := cons, recvCmpl := cmpl } chan).idx =
        (recvWork qp chan).idx := by
  have hget : Qp.recvProdGet { qp with recvCons := cons, recvCmpl := cmpl } = qp.recvProdGet := rfl
  simp only [recvWork, hget]
  split
  · exact ⟨rfl, rfl⟩
  · split
    · exact ⟨rfl, rfl⟩
    · exact recvWorkLoop_send ..

lemma recvWorkLoop_announced (rounds : Nat) (r : Range) (qp : Qp) (chan : Chan)
    (copies : List (UInt32 × UInt32)) (idx : UInt32) :
    (recvWorkLoop rounds r qp chan copies).idx = some idx →
      (recvWorkLoop rounds r qp chan copies).abort = false := by
  induction rounds generalizing r qp chan copies with
  | zero => exact fun _ => rfl
  | succ _ ih =>
    simp only [recvWorkLoop]
    split
    · intro hidx
      cases hidx
    · split
      · split
        · intro hidx
          cases hidx
        · exact fun _ => rfl
      · exact ih _ _ _ _

variable {idx : UInt32}

lemma recvWork_announced (h : (recvWork qp chan).idx = some idx) :
    (recvWork qp chan).abort = false := by
  revert h
  simp only [recvWork]
  split
  · intro hidx
    cases hidx
  · split
    · intro hidx
      cases hidx
    · exact recvWorkLoop_announced _ _ _ _ _ idx

/-- What `ntrdma_qp_recv_work` sends when it is not behind by more than the ring: all that was
posted since, and then its index. -/
lemma recvWork_sends (qp : Qp) (hcap : Cap qp.recvCap) (hready : isStateRecvReady qp.state = true)
    (hprod : Idx qp.recvCap qp.recvProd D) (hpost : Idx qp.recvCap qp.recvPost P) (hle : D ≤ P)
    (hfull : P ≤ D + qp.recvCap.toNat) (h : (recvWork qp chan).idx = some idx) :
    D < P ∧ Portions qp.recvCap (recvWork qp chan).copies D P ∧ Idx qp.recvCap idx P := by
  obtain ⟨hcopies, hidx⟩ := recvWork_send qp.recvProd qp.recvProd qp chan
  have hring : Qp.RecvRing { qp with recvCons := qp.recvProd, recvCmpl := qp.recvProd } D D D P :=
    ⟨hcap, hprod, hprod, hprod, hpost, Nat.le_refl D, Nat.le_refl D, hle, hfull⟩
  rw [← hidx] at h
  rw [← hcopies]
  obtain ⟨-, heq⟩ | ⟨hlt, D', hsent⟩ := recvWork_ready chan hring hready
  · rw [heq] at h
    cases h
  · have habort := recvWork_announced h
    obtain ⟨rfl, hportions, hann⟩ := hsent.sent habort
    rw [hann, Option.some.injEq] at h
    refine ⟨hlt, hportions, ?_⟩
    have := hsent.ring.prod
    rw [hsent.frame, h] at this
    exact this

lemma recvWorkLoop_accepted (chan : Chan) (hchan : ∀ k, chan.outcome k = .accept) (rounds : Nat)
    (r : Range) (qp : Qp) (copies : List (UInt32 × UInt32)) :
    (recvWorkLoop rounds r qp chan copies).abort = false := by
  have hreq (chan : Chan) (hchan : ∀ k, chan.outcome k = .accept) :
      ntcRequestRing chan = (.ok (), chan.refuse) := by
    rw [ntcRequestRing, hchan]
  induction rounds generalizing r qp chan copies with
  | zero => rfl
  | succ _ ih =>
    simp only [recvWorkLoop, hreq chan hchan, hreq chan.refuse hchan]
    split
    · rfl
    · exact ih chan.refuse hchan ..

lemma recvWork_announces (qp : Qp) (hcap : Cap qp.recvCap)
    (hready : isStateRecvReady qp.state = true) (hprod : Idx qp.recvCap qp.recvProd D)
    (hpost : Idx qp.recvCap qp.recvPost P) (hlt : D < P) (hfull : P ≤ D + qp.recvCap.toNat) :
    ∃ idx, (recvWork qp freshChan).idx = some idx := by
  have hring : Qp.RecvRing { qp with recvCons := qp.recvProd, recvCmpl := qp.recvProd } D D D P :=
    ⟨hcap, hprod, hprod, hprod, hpost, Nat.le_refl D, Nat.le_refl D, hlt.le, hfull⟩
  obtain ⟨heq, -⟩ | ⟨-, D', hsent⟩ := recvWork_ready freshChan hring hready
  · exact absurd heq hlt.ne
  · have habort : (recvWork { qp with recvCons := qp.recvProd, recvCmpl := qp.recvProd }
        freshChan).abort = false := by
      simp only [recvWork]
      split
      · rfl
      · split
        · rfl
        · exact recvWorkLoop_accepted freshChan (fun _ => rfl) ..
    exact ⟨_, (recvWork_send qp.recvProd qp.recvProd qp freshChan).2.symm.trans
      (hsent.sent habort).2.2⟩

lemma exists_idx (hcap : Cap cap) (n : Nat) : ∃ idx, Idx cap idx n := by
  have := Nat.mod_lt n (show 0 < 2 * cap.toNat by have := hcap.pos; omega)
  have := hcap.lt
  exact ⟨UInt32.ofNat (n % (2 * cap.toNat)), by
    rw [Idx, UInt32.toNat_ofNat', Nat.mod_eq_of_lt (by omega)]⟩

variable {prod cons : UInt32}

lemma idx_ahead (hcap : Cap cap) (hcons : Idx cap cons n) (h : valid prod cons cap = true) :
    ∃ i ≤ cap.toNat, Idx cap prod (n + i) := by
  obtain ⟨-, hprod, hle⟩ := idx_of_valid hcap h
  refine ⟨(count prod cons cap).toNat, hle, ?_⟩
  rw [Idx] at hprod hcons ⊢
  rw [hprod, hcons, Nat.mod_add_mod]

lemma idx_behind (hcap : Cap cap) (hprod : Idx cap prod n) (h : valid prod cons cap = true)
    (hle : 2 * cap.toNat ≤ n) : Idx cap cons (n - (count prod cons cap).toNat) := by
  obtain ⟨-, hprod', hcount⟩ := idx_of_valid hcap h
  rw [Idx] at hprod hprod' ⊢
  have hmod : n ≡ cons.toNat + (count prod cons cap).toNat [MOD 2 * cap.toNat] :=
    hprod.symm.trans hprod'
  have hsub := Nat.ModEq.sub (show (count prod cons cap).toNat ≤ n by omega)
    (Nat.le_add_left (count prod cons cap).toNat cons.toNat) hmod (Nat.ModEq.refl _)
  rw [Nat.add_sub_cancel] at hsub
  rw [hsub, Nat.mod_eq_of_lt ((valid_iff hcap).mp h).2.1]

lemma count_eq_zero_iff (hcap : Cap cap) (h : valid prod cons cap = true) :
    (count prod cons cap).toNat = 0 ↔ prod = cons := by
  obtain ⟨hcons, hprod, -⟩ := idx_of_valid hcap h
  constructor
  · intro h0
    rw [h0, Nat.add_zero] at hprod
    exact UInt32.toNat_inj.mp (hprod.trans hcons.symm)
  · rintro rfl
    rw [count, if_neg (UInt32.lt_irrefl prod), UInt32.sub_self]
    rfl

/-- The view gets the slot, unless it is behind what was sent before; behind by the whole ring, the
queue pair has come round to it. -/
lemma Qp.sendsNext_iff {rqp : Rqp} (hcap : Cap qp.recvCap) (hrcap : rqp.recvCap = qp.recvCap)
    (hcons : Idx qp.recvCap rqp.recvCons K) (hprod : Idx qp.recvCap qp.recvProd D)
    (hpost : Idx qp.recvCap qp.recvPost P) (hK : K ≤ P) (hKfull : P ≤ K + qp.recvCap.toNat)
    (hD : D ≤ P) (hDfull : P ≤ D + qp.recvCap.toNat) :
    qp.SendsNext rqp ↔ D ≤ K ∨ D = K + qp.recvCap.toNat := by
  have hslot : rqp.recvConsGet.pos.toNat = K % qp.recvCap.toNat := by
    obtain ⟨hstands, hlt⟩ := consume_stands rqp.recvProd hcap hcons
    rw [← hrcap] at hstands hlt hcap ⊢
    exact hstands.slot hcap hlt
  constructor
  · intro h
    by_contra hbehind
    -- what is posted already shows it, or one more receive
    obtain ⟨P', hP', hP'1, hDP', hKP'⟩ :
        ∃ P', P ≤ P' ∧ P' ≤ D + qp.recvCap.toNat ∧ D < P' ∧ P' ≤ K + qp.recvCap.toNat := by
      by_cases hlt : D < P
      · exact ⟨P, Nat.le_refl P, hDfull, hlt, hKfull⟩
      · exact ⟨D + 1, by omega, by omega, by omega, by omega⟩
    obtain ⟨post, hpost'⟩ := exists_idx hcap P'
    have hready : isStateRecvReady { qp with state := .rts, recvPost := post }.state = true := rfl
    obtain ⟨idx, hidx⟩ :=
      recvWork_announces { qp with state := .rts, recvPost := post } hcap hready hprod
      hpost' hDP' hP'1
    obtain ⟨-, hportions, hann⟩ := recvWork_sends
      { qp with state := .rts, recvPost := post } hcap hready
      hprod hpost' hDP'.le hP'1 hidx
    have hne : idx ≠ rqp.recvCons := fun heq => by
      have := hcons.inj (heq ▸ hann) (by omega) (by omega)
      omega
    obtain ⟨k, hlo, hhi, hk⟩ := (hportions.covers_iff _).mp
      (h post freshChan idx (valid_of_idx hcap hpost' hpost hP' (by omega))
        (valid_of_idx hcap hpost' hprod hDP'.le hP'1) hidx hne)
    rw [hslot] at hk
    have := slot_inj (Nat.le_refl K) (by omega) (by omega) (by omega : k < K + qp.recvCap.toNat) hk
    omega
  · intro hreach post chan idx hvpost hvprod hidx hne
    obtain ⟨i, hi, hpost'⟩ := idx_ahead hcap hpost hvpost
    obtain ⟨j, hj, hprod'⟩ := idx_ahead hcap hprod hvprod
    obtain ⟨hlt, hportions, hann⟩ := recvWork_sends
      { qp with state := .rts, recvPost := post } hcap rfl
      hprod hprod' (Nat.le_add_right D j) (Nat.add_le_add_left hj D) hidx
    have heq : P + i = D + j := by
      by_cases hlap : P + i < D + j + 2 * qp.recvCap.toNat
      · by_cases hle : D + j ≤ P + i
        · exact (hprod'.inj hpost' hle hlap).symm
        · exact hpost'.inj hprod' (by omega) (by omega)
      · omega
    refine (hportions.covers_iff _).mpr ?_
    rw [hslot]
    rcases hreach with hle | rfl
    · refine ⟨K, hle, ?_, rfl⟩
      by_contra hge
      obtain rfl : K = D + j := by omega
      exact hne (UInt32.toNat_inj.mp (hann.trans hcons.symm))
    · exact ⟨K + qp.recvCap.toNat, Nat.le_refl _, hlt, (Nat.add_mod_right ..).symm⟩

end

/-! ## Agreement -/

section
variable {obj sampled made : QpObj} {before after : List ReconAct}

lemma sendsNext_newRqp_iff (hcap : Cap obj.qp.recvCap)
    (hcons : valid obj.qp.recvPost obj.qp.recvCons obj.qp.recvCap = true)
    (hprod : valid obj.qp.recvPost obj.qp.recvProd obj.qp.recvCap = true)
    (hbefore : reconRun obj before = some sampled) (hafter : reconRun sampled after = some made)
    (res : QpRes) (cmd : Cmd) :
    made.qp.SendsNext (newRqp res sampled cmd) ↔ someAct ReconAct.flushedRecvs obj before = true ∨
      count obj.qp.recvPost obj.qp.recvCons obj.qp.recvCap ≤ count obj.qp.recvPost
        obj.qp.recvProd obj.qp.recvCap ∨
      count obj.qp.recvPost obj.qp.recvCons obj.qp.recvCap = obj.qp.recvCap ∧
        obj.qp.recvPost = obj.qp.recvProd := by
  have hm := reconRun_moves hbefore
  have hm' := reconRun_moves hafter
  have hcap' : made.qp.recvCap = obj.qp.recvCap := hm'.recvCap.trans hm.recvCap
  have hrcap : (newRqp res sampled cmd).recvCap = made.qp.recvCap := hm'.recvCap.symm
  have hrcons : (newRqp res sampled cmd).recvCons =
      if someAct ReconAct.flushedRecvs obj before then obj.qp.recvPost else
        obj.qp.recvCons := hm.recvCons
  -- the counter of the post index, one revolution ahead so that the others are not below 0
  obtain ⟨P, hP, hpost⟩ : ∃ P, 2 * obj.qp.recvCap.toNat ≤ P ∧
    Idx obj.qp.recvCap obj.qp.recvPost P :=
    ⟨obj.qp.recvPost.toNat + 2 * obj.qp.recvCap.toNat, Nat.le_add_left .., by
      rw [Idx, Nat.add_mod_right, Nat.mod_eq_of_lt ((valid_iff hcap).mp hcons).1]⟩
  have hK := idx_behind hcap hpost hcons hP
  have hD := idx_behind hcap hpost hprod hP
  have hKle := ((valid_iff hcap).mp hcons).2.2
  have hDle := ((valid_iff hcap).mp hprod).2.2
  rw [← hcap'] at hcap
  have hD' : Idx made.qp.recvCap made.qp.recvProd
      (P - (count obj.qp.recvPost obj.qp.recvProd obj.qp.recvCap).toNat) := by
    rwa [hcap', hm'.recvProd, hm.recvProd]
  have hpost' : Idx made.qp.recvCap made.qp.recvPost P := by rwa [hcap', hm'.recvPost, hm.recvPost]
  cases hflush : someAct ReconAct.flushedRecvs obj before with
  | true =>
    rw [hflush, if_pos rfl] at hrcons
    rw [Qp.sendsNext_iff (K := P) hcap hrcap (by rwa [hrcons, hcap']) hD' hpost'
      (Nat.le_refl P) (by omega) (by omega)
      (by rw [hcap']; omega)]
    exact ⟨fun _ => .inl rfl, fun _ => .inl (Nat.sub_le ..)⟩
  | false =>
    rw [hflush, if_neg Bool.false_ne_true] at hrcons
    rw [Qp.sendsNext_iff hcap hrcap (by rwa [hrcons, hcap']) hD' hpost'
      (Nat.sub_le ..) (by rw [hcap']; omega)
      (Nat.sub_le ..) (by rw [hcap']; omega), ← count_eq_zero_iff (hcap' ▸ hcap) hprod,
        UInt32.le_iff_toNat_le,
      ← UInt32.toNat_inj, hcap', Bool.false_eq_true, false_or]
    omega

/-- The new view agrees with the queue pair exactly if sends and receives were flushed before the
sample, or none of them were left. -/
theorem newRqp_agrees_iff (hcap : Cap obj.qp.recvCap)
    (hcons : valid obj.qp.recvPost obj.qp.recvCons obj.qp.recvCap = true)
    (hprod : valid obj.qp.recvPost obj.qp.recvProd obj.qp.recvCap = true)
    (hbefore : reconRun obj before = some sampled) (hafter : reconRun sampled after = some made)
    (res : QpRes) (cmd : Cmd) :
    made.qp.Agrees (newRqp res sampled cmd) ↔
      (someAct ReconAct.flushedSends obj before = true ∨ obj.qp.sendCons =
        if someAct ReconAct.flushedSends sampled after then obj.qp.sendPost else obj.qp.sendProd) ∧
      (someAct ReconAct.flushedRecvs obj before = true ∨
        count obj.qp.recvPost obj.qp.recvCons obj.qp.recvCap ≤ count obj.qp.recvPost
          obj.qp.recvProd obj.qp.recvCap ∨
        count obj.qp.recvPost obj.qp.recvCons obj.qp.recvCap = obj.qp.recvCap ∧
          obj.qp.recvPost = obj.qp.recvProd) := by
  have hm := reconRun_moves hbefore
  have hm' := reconRun_moves hafter
  have hsend : (newRqp res sampled cmd).sendCons = made.qp.sendProd ↔
      (someAct ReconAct.flushedSends obj before = true ∨ obj.qp.sendCons =
        if someAct ReconAct.flushedSends sampled after then obj.qp.sendPost
          else obj.qp.sendProd) := by
    change sampled.qp.sendCons = made.qp.sendProd ↔ _
    rw [hm'.sendProd, hm.sendPost, hm.sendProd, hm.sendCons]
    cases someAct ReconAct.flushedSends obj before with
    | true => simp only [if_true, ite_self, true_or]
    | false => simp only [Bool.false_eq_true, if_false, false_or]
  have hrecv := sendsNext_newRqp_iff hcap hcons hprod hbefore hafter res cmd
  exact ⟨fun h => ⟨hsend.mp h.send, hrecv.mp h.recv⟩, fun h => ⟨hsend.mpr h.1, hrecv.mpr h.2⟩⟩

end

def lostObj : QpObj :=
  ⟨{ Qp.fresh 4 with sendPost := 1, sendProd := 1, recvPost := 1, recvProd := 1 }, 1, 0⟩

def lostRes : QpRes := ⟨1, 1, 4, ⟨8, by decide⟩, ⟨0, 0⟩, lostObj.qp⟩

def pollBoth : List ReconAct := [.pollSend 1 ⟨0, 0, 0, 0, 0, 0⟩, .pollRecv 1 ⟨0, 0, 0, 0, 0, 0⟩]

def backToRts : List ReconAct :=
  [QpState.reset, .init, .rtr, .rts].map fun state => .modify ⟨qpMaskState, state, .reset, 0, 0⟩

/-- The polls come after the sample: the view starts at index 0, the queue pair sends from index 1
on and announces a receive that this view has never got. -/
theorem newRqp_disagrees : ∃ sampled made, reconRun lostObj [.reset] = some sampled ∧
    reconRun sampled (pollBoth ++ backToRts) = some made ∧ made.qp.state = .rts ∧
    ¬ (newRqp lostRes sampled emptyCmd).sendCons = made.qp.sendProd ∧
    ¬ made.qp.SendsNext (newRqp lostRes sampled emptyCmd) := by
  refine ⟨_, _, rfl, rfl, rfl, by decide, fun h => ?_⟩
  obtain ⟨c, hc, hin⟩ := h 2 freshChan 2 (by decide) (by decide) (by decide) (by decide)
  obtain rfl := List.mem_singleton.mp hc
  exact absurd hin.1 (by decide)

theorem newRqp_agrees_iff_flushed : ∃ sampled made,
    reconRun lostObj (.reset :: pollBoth) = some sampled ∧
    reconRun sampled backToRts = some made ∧ made.qp.Agrees (newRqp lostRes sampled emptyCmd) := by
  obtain ⟨sampled, hsampled⟩ : ∃ sampled, reconRun lostObj
    (.reset :: pollBoth) = some sampled := ⟨_, rfl⟩
  obtain ⟨made, hmade⟩ : ∃ made, reconRun sampled backToRts = some made := by
    cases hsampled
    exact ⟨_, rfl⟩
  refine ⟨sampled, made, hsampled, hmade, ?_⟩
  exact (newRqp_agrees_iff ⟨by decide, by decide⟩ (by decide) (by decide) hsampled
    hmade lostRes emptyCmd).mpr
    ⟨.inl (by decide), .inl (by decide)⟩

end Ntrdma
