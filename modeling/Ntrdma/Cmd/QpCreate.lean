import Ntrdma.Cmd.Basic
import Ntrdma.Lib.Run
import Ntrdma.Qp.Basic
import Ntrdma.Ring.Unrolled

/-!
# Queue pairs that the peer accepts

Model of `ntrdma_create_qp` as far as `ntrdma_res_add`, which enables the new queue pair, and of
`ntrdma_qp_enable_prep`, which describes it to the peer whenever it is enabled. The peer checks the
description with `ntrdma_qp_create_sanity`.

The two sides go by different limits for the length of a scatter-gather list: `NTRDMA_DEV_MAX_SGE`
where a queue pair is created, `MAX_WQE_SG_CAP` where its description is checked.
-/

namespace Ntrdma
open Lib Ntrdma.Ring

/-! ## Creation -/

def devMaxSge : UInt32 := 4096

def devMaxQpWr : UInt32 := 4096

def devMaxQp : Nat := 4096

def devMaxInlineData : UInt32 := 8

def devVbellStart : UInt32 := 8

structure CqVbell where
  idx : UInt32
  lt : idx < devVbellCount

/-- C `ntrdma_dev_vbell_next`, where `next` is the counter before the call. -/
def devVbellNext (next : UInt32) : UInt32 := devVbellStart + next % (devVbellCount - devVbellStart)

/-- The doorbell that `ntrdma_create_cq` gives to a completion queue. -/
def createCqVbell (compVector next : UInt32) : Except Errno CqVbell :=
  let idx := if compVector ≠ 0 then compVector else devVbellNext next
  if h : idx < devVbellCount then .ok ⟨idx, h⟩ else .error .einval

structure IbQpCap where
  maxSendWr : UInt32
  maxRecvWr : UInt32
  maxSendSge : UInt32
  maxRecvSge : UInt32
  maxInlineData : UInt32

structure QpInitAttr where
  pdKey : UInt32
  recvWqeCap : UInt32
  recvWqeSgCap : UInt32
  sendWqeCap : UInt32
  sendWqeInlineCap : UInt32
  sendWqeSgCap : UInt32

/-- A queue pair with what the peer is told about it (C `struct ntrdma_qp`). -/
structure QpRes where
  key : UInt32
  pdKey : UInt32
  recvWqeSgCap : UInt32
  sendCqVbell : CqVbell
  sendCqeBuf : RemoteBufDesc
  qp : Qp

structure CreateQpEnv where
  qpNum : Nat
  slab : Bool
  key : Except Errno UInt32
  bufs : Except Errno RemoteBufDesc

def qpInitAttr (pdKey : UInt32) (cap : IbQpCap) : QpInitAttr where
  pdKey := pdKey
  recvWqeCap := if cap.maxRecvWr = 0 then 1 else cap.maxRecvWr
  recvWqeSgCap := cap.maxRecvSge
  sendWqeCap := if cap.maxSendWr = 0 then 1 else cap.maxSendWr
  sendWqeInlineCap := if cap.maxInlineData > devMaxInlineData then
    devMaxInlineData else cap.maxInlineData
  sendWqeSgCap := cap.maxSendSge

/-- C `ntrdma_qp_init`, which does not assign `qp->pd_key`. -/
def qpInit (env : CreateQpEnv) (sendCqVbell : CqVbell) (attr : QpInitAttr) : Except Errno QpRes :=
  match env.key with
  | .error e => .error e
  | .ok key =>
    match env.bufs with
    | .error e => .error e
    | .ok sendCqeBuf =>
      let qp :=
        { Qp.fresh attr.sendWqeCap with
          state := .reset, sendWqeSgCap := attr.sendWqeSgCap,
            sendWqeInlineCap := attr.sendWqeInlineCap,
          recvCap := attr.recvWqeCap }
      .ok ⟨key, 0, attr.recvWqeSgCap, sendCqVbell, sendCqeBuf, qp⟩

/-- C `ntrdma_create_qp`, as far as the queue pair is added to the device. -/
def createQp (env : CreateQpEnv) (pdKey : UInt32) (sendCqVbell : CqVbell) (cap : IbQpCap) :
    Except Errno QpRes :=
  if env.qpNum ≥ devMaxQp then .error .etoomanyrefs
  else if !env.slab then .error .enomem
  else
    let attr := qpInitAttr pdKey cap
    if attr.recvWqeCap > devMaxQpWr || attr.sendWqeCap > devMaxQpWr ||
      attr.sendWqeSgCap > devMaxSge ||
        attr.recvWqeSgCap > devMaxSge then .error .etoomanyrefs
    else qpInit env sendCqVbell attr

def qpEnablePrep (res : QpRes) (cmd : Cmd) : Cmd :=
  { cmd with
    hdr := { cmd.hdr with op := cmdQpCreate }
    qpCreate :=
      { qpKey := res.key
        pdKey := res.pdKey
        qpType := 0
        recvWqeCap := res.qp.recvCap
        recvWqeSgCap := res.recvWqeSgCap
        recvRingIdx := res.qp.recvCons
        sendWqeCap := res.qp.sendCap
        sendWqeSgCap := res.qp.sendWqeSgCap
        sendWqeInlineCap := res.qp.sendWqeInlineCap
        sendRingIdx := res.qp.sendCons
        sendCqeBufDesc := res.sendCqeBuf
        sendConsShift := res.qp.sendCap.toUInt64 * 24
        cmplVbellIdx := res.sendCqVbell.idx } }

/-! ## The rings between two enables

The indices of a queue pair move only through the functions that open and close a range, by the
short cut of an abort, and when an index of the peer arrives. -/

/-- What can happen to the indices of a queue pair. An action that closes a range has its end. -/
inductive RingAct where
  | sendPost (pos : UInt32)
  | sendProd (pos : UInt32)
  | sendCmpl (pos : UInt32)
  | recvPost (pos : UInt32)
  | recvProd (pos : UInt32)
  | recvCons (pos : UInt32)
  | recvCmpl (pos : UInt32)
  | sendAbort
  | recvAbort
  | peerSendCons (rqp : Rqp) (pos : UInt32)

def Below (cap idx : UInt32) : Prop := idx.toNat < 2 * cap.toNat

/-- The position lies in the range that was opened. The ring of the peer has the same capacity. -/
def RingAct.Allowed (qp : Qp) : RingAct → Prop
  | sendPost pos => pos ≤ qp.sendPostGet.2.stop
  | sendProd pos => pos ≤ qp.sendProdGet.stop
  | sendCmpl pos => pos ≤ (consume qp.sendCons qp.sendCmpl qp.sendCap).stop
  | recvPost pos => pos ≤ qp.recvPostGet.2.stop
  | recvProd pos => pos ≤ qp.recvProdGet.stop
  | recvCons pos => pos ≤ qp.recvConsGet.stop
  | recvCmpl pos => pos ≤ (consume qp.recvCons qp.recvCmpl qp.recvCap).stop
  | sendAbort => True
  | recvAbort => True
  | peerSendCons rqp pos =>
    rqp.sendCap = qp.sendCap ∧ Below qp.sendCap rqp.sendProd ∧ pos ≤ rqp.sendConsGet.stop

def RingAct.apply (qp : Qp) : RingAct → Qp
  | sendPost pos => qp.sendPostPut pos qp.sendPostGet.2.base
  | sendProd pos => qp.sendProdPut pos qp.sendProdGet.base
  | sendCmpl pos => qp.sendCmplPut pos (consume qp.sendCons qp.sendCmpl qp.sendCap).base
  | recvPost pos => qp.recvPostPut pos qp.recvPostGet.2.base
  | recvProd pos => qp.recvProdPut pos qp.recvProdGet.base
  | recvCons pos => qp.recvConsPut pos qp.recvConsGet.base
  | recvCmpl pos => qp.recvCmplPut pos (consume qp.recvCons qp.recvCmpl qp.recvCap).base
  | sendAbort => { qp with sendProd := qp.sendPost, sendCons := qp.sendPost }
  | recvAbort => { qp with recvCons := qp.recvPost }
  | peerSendCons rqp pos =>
    { qp with sendCons := (rqp.sendConsPut pos rqp.sendConsGet.base).sendCons }

def ringStep (qp : Qp) (act : RingAct) (qp' : Qp) : Prop := act.Allowed qp ∧ qp' = act.apply qp

structure Qp.Indexed (qp : Qp) : Prop where
  sendCap : Cap qp.sendCap
  recvCap : Cap qp.recvCap
  sendPost : Below qp.sendCap qp.sendPost
  sendProd : Below qp.sendCap qp.sendProd
  sendCons : Below qp.sendCap qp.sendCons
  sendCmpl : Below qp.sendCap qp.sendCmpl
  recvPost : Below qp.recvCap qp.recvPost
  recvProd : Below qp.recvCap qp.recvProd
  recvCons : Below qp.recvCap qp.recvCons
  recvCmpl : Below qp.recvCap qp.recvCmpl

section
variable {cap prod cons pos : UInt32}

lemma update_below {base : UInt32} (hc : Cap cap) (hbase : base = 0 ∨ base = cap)
    (hpos : pos.toNat ≤ cap.toNat) : Below cap (update pos base cap) := by
  have hstands : Stands cap base pos (base.toNat + pos.toNat) :=
    ⟨hbase.imp (fun h => by rw [h]; rfl) (fun h => by rw [h]), hpos, rfl⟩
  exact (hstands.update hc).lt hc

lemma consume_below (hc : Cap cap) (hprod : Below cap prod)
    (hpos : pos ≤ (consume prod cons cap).stop) :
    Below cap (update pos (consume prod cons cap).base cap) := by
  rw [UInt32.le_iff_toNat_le] at hpos
  have hsub : ¬ prod < cap → (prod - cap).toNat = prod.toNat - cap.toNat := fun h =>
    UInt32.toNat_sub_of_le _ _ (UInt32.not_lt.mp h)
  simp only [consume] at hpos ⊢
  simp only [Below] at hprod
  split <;> rename_i hcons
  · refine update_below hc (.inl rfl) (hpos.trans ?_)
    simp only [hcons, if_true]
    split <;> rename_i h
    · exact (UInt32.lt_iff_toNat_lt.mp h).le
    · exact le_rfl
  · refine update_below hc (.inr rfl) (hpos.trans ?_)
    simp only [hcons, if_false]
    split <;> rename_i h
    · exact le_rfl
    · rw [hsub h]
      omega

lemma produce_below (hc : Cap cap) (hcons : Below cap cons)
    (hpos : pos ≤ (produce prod cons cap).2.stop) :
    Below cap (update pos (produce prod cons cap).2.base cap) := by
  rw [UInt32.le_iff_toNat_le] at hpos
  have hsub : ¬ cons < cap → (cons - cap).toNat = cons.toNat - cap.toNat := fun h =>
    UInt32.toNat_sub_of_le _ _ (UInt32.not_lt.mp h)
  simp only [produce] at hpos ⊢
  simp only [Below] at hcons
  split <;> rename_i hprod
  · refine update_below hc (.inl rfl) (hpos.trans ?_)
    simp only [hprod, if_true]
    split <;> rename_i h
    · exact le_rfl
    · rw [hsub h]
      omega
  · refine update_below hc (.inr rfl) (hpos.trans ?_)
    simp only [hprod, if_false]
    split <;> rename_i h
    · exact (UInt32.lt_iff_toNat_lt.mp h).le
    · exact le_rfl

end

section
variable {qp : Qp}

lemma RingAct.apply_indexed {act : RingAct} (h : qp.Indexed) (hallowed : act.Allowed qp) :
    (act.apply qp).Indexed := by
  cases act with
  | sendPost => exact { h with sendPost := produce_below h.sendCap h.sendCmpl hallowed }
  | sendProd => exact { h with sendProd := consume_below h.sendCap h.sendPost hallowed }
  | sendCmpl => exact { h with sendCmpl := consume_below h.sendCap h.sendCons hallowed }
  | recvPost => exact { h with recvPost := produce_below h.recvCap h.recvCmpl hallowed }
  | recvProd => exact { h with recvProd := consume_below h.recvCap h.recvPost hallowed }
  | recvCons => exact { h with recvCons := consume_below h.recvCap h.recvProd hallowed }
  | recvCmpl => exact { h with recvCmpl := consume_below h.recvCap h.recvCons hallowed }
  | sendAbort => exact { h with sendProd := h.sendPost, sendCons := h.sendPost }
  | recvAbort => exact { h with recvCons := h.recvPost }
  | peerSendCons =>
    obtain ⟨hcap, hprod, hpos⟩ := hallowed
    refine { h with sendCons := ?_ }
    simp only [RingAct.apply, Rqp.sendConsPut, Rqp.sendConsGet, hcap] at hpos ⊢
    exact consume_below h.sendCap hprod hpos

lemma RingAct.apply_frame (qp : Qp) (act : RingAct) :
    (act.apply qp).sendCap = qp.sendCap ∧ (act.apply qp).recvCap = qp.recvCap ∧
      (act.apply qp).sendWqeSgCap = qp.sendWqeSgCap := by
  cases act <;> exact ⟨rfl, rfl, rfl⟩

/-- The capacities that were checked, and the lengths of lists that a queue pair was created
with. -/
structure Qp.Created (cap : IbQpCap) (qp : Qp) : Prop where
  indexed : qp.Indexed
  sendCap : qp.sendCap ≤ maxWqeCap
  recvCap : qp.recvCap ≤ maxWqeCap
  sendSge : qp.sendWqeSgCap = cap.maxSendSge

lemma Cap.of_wr {wr : UInt32} (h : (if wr = 0 then 1 else wr) ≤ devMaxQpWr) :
    Cap (if wr = 0 then 1 else wr) := by
  rw [UInt32.le_iff_toNat_le] at h
  have hmax : devMaxQpWr.toNat = 4096 := rfl
  refine ⟨?_, by omega⟩
  split
  · decide
  next hwr => exact Nat.pos_of_ne_zero fun hzero => hwr (UInt32.toNat_inj.mp hzero)

variable {cap : IbQpCap}

lemma createQp_created {env : CreateQpEnv} {pdKey : UInt32} {sendCqVbell : CqVbell} {res : QpRes}
    (hok : createQp env pdKey sendCqVbell cap = .ok res) :
    res.qp.Created cap ∧ res.recvWqeSgCap = cap.maxRecvSge := by
  simp only [createQp] at hok
  split at hok
  · cases hok
  · split at hok
    · cases hok
    · split at hok
      · cases hok
      next hcheck =>
        simp only [Bool.or_eq_true, decide_eq_true_eq, not_or, gt_iff_lt, UInt32.not_lt] at hcheck
        obtain ⟨⟨⟨hrecv, hsend⟩, -⟩, -⟩ := hcheck
        have hscap := Cap.of_wr hsend
        have hrcap := Cap.of_wr hrecv
        simp only [qpInit] at hok
        split at hok
        · cases hok
        · split at hok
          · cases hok
          · rw [← Except.ok.inj hok]
            have hs : Below (if cap.maxSendWr = 0 then 1 else cap.maxSendWr) 0 :=
              Nat.mul_pos two_pos hscap.pos
            have hr : Below (if cap.maxRecvWr = 0 then 1 else cap.maxRecvWr) 0 :=
              Nat.mul_pos two_pos hrcap.pos
            exact ⟨⟨⟨hscap, hrcap, hs, hs, hs, hs, hr, hr, hr, hr⟩, hsend, hrecv, rfl⟩, rfl⟩

lemma Qp.Created.run {qp' : Qp} (h : qp.Created cap) (hrun : Reaches ringStep qp qp') :
    qp'.Created cap := by
  refine hrun.invariant (I := Qp.Created cap) h fun s act t hs hstep => ?_
  obtain ⟨hallowed, rfl⟩ := hstep
  obtain ⟨hsend, hrecv, hsge⟩ := act.apply_frame s
  exact ⟨RingAct.apply_indexed hs.indexed hallowed, hsend ▸ hs.sendCap, hrecv ▸ hs.recvCap,
    hsge.trans hs.sendSge⟩

lemma Below.not_ge {cap idx : UInt32} (h : Below cap idx) (hcap : cap ≤ maxWqeCap) :
    ¬ idx ≥ 2 * cap := by
  simp only [Below] at h
  rw [UInt32.le_iff_toNat_le] at hcap
  rw [ge_iff_le, UInt32.le_iff_toNat_le, UInt32.toNat_mul, show (2 : UInt32).toNat = 2 from rfl]
  have hmax : maxWqeCap.toNat = 4096 := rfl
  omega

end

/-- Whatever happened to its rings, a queue pair passes the check of the peer exactly if neither of
its lists is longer than the peer accepts. -/
theorem createQp_sanity_iff {env : CreateQpEnv} {pdKey : UInt32} {sendCqVbell : CqVbell}
    {cap : IbQpCap} {res : QpRes} {qp : Qp} (hok : createQp env pdKey sendCqVbell cap = .ok res)
    (hrun : Reaches ringStep res.qp qp) (cmd : Cmd) :
    qpCreateSanity (qpEnablePrep { res with qp } cmd).qpCreate = .ok () ↔
      cap.maxSendSge ≤ maxWqeSgCap ∧ cap.maxRecvSge ≤ maxWqeSgCap := by
  obtain ⟨hcreated, hrecvSge⟩ := createQp_created hok
  have h := hcreated.run hrun
  have hsend := h.indexed.sendCons.not_ge h.sendCap
  have hrecv := h.indexed.recvCons.not_ge h.recvCap
  have hvbell : ¬ res.sendCqVbell.idx > devVbellCount :=
    UInt32.not_lt.mpr (UInt32.le_of_lt res.sendCqVbell.lt)
  have htype : ¬ (0 : UInt32) > qpNumTypes := by decide
  simp only [qpCreateSanity, qpEnablePrep, hrecvSge, h.sendSge, htype, hvbell, if_false,
    UInt32.not_lt.mpr h.sendCap, UInt32.not_lt.mpr h.recvCap, hsend, hrecv,
      decide_false, Bool.false_or,
    Bool.or_false, decide_eq_true_eq, gt_iff_lt]
  constructor
  · intro hpass
    split at hpass
    · cases hpass
    · split at hpass
      · cases hpass
      · exact ⟨UInt32.not_lt.mp ‹_›, UInt32.not_lt.mp ‹_›⟩
  · rintro ⟨hs, hr⟩
    rw [if_neg (UInt32.not_lt.mpr hs), if_neg (UInt32.not_lt.mpr hr)]

def roomyEnv : CreateQpEnv := ⟨1, true, .ok 1, .ok ⟨0, 0⟩⟩

def oneRequestCap (maxSendSge : UInt32) : IbQpCap := ⟨1, 1, maxSendSge, 1, 0⟩

/-- A queue pair with lists of 129 elements is created here, and its description is refused
there. -/
theorem createQp_refused :
    ∃ res, createQp roomyEnv 0 ⟨8, by decide⟩ (oneRequestCap 129) = .ok res ∧
      qpCreateSanity (qpEnablePrep res emptyCmd).qpCreate = .error .einval :=
  ⟨_, rfl, by decide⟩

theorem createQp_sanity_iff_posted :
    ∃ res qp, createQp roomyEnv 0 ⟨8, by decide⟩ (oneRequestCap 128) = .ok res ∧
      Reaches ringStep res.qp qp ∧ qp.sendPost = 1 ∧
      qpCreateSanity (qpEnablePrep { res with qp } emptyCmd).qpCreate = .ok () := by
  have hok : createQp roomyEnv 0 ⟨8, by decide⟩ (oneRequestCap 128) = .ok _ := rfl
  have hone : (1 : UInt32) ≤ 1 := by decide
  refine ⟨_, _, hok, Reaches.refl.snoc (a := .sendPost 1) ⟨hone, rfl⟩, by decide, ?_⟩
  exact (createQp_sanity_iff hok (Reaches.refl.snoc (a := .sendPost 1) ⟨hone, rfl⟩) emptyCmd).mpr
    ⟨by decide, by decide⟩

end Ntrdma
