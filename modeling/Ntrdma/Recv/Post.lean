import Ntrdma.Qp.SendWork

/-!
# Posting receives

Model of `ntrdma_ib_recv_to_wqe`, `ntrdma_post_recv` and `ntrdma_qp_recv_work`: requests are stored
in the receive ring one after another, and the part of the ring that was not sent yet is copied to
the peer, with the producer index behind it.

A receive entry names the memory of the application where the peer may write to it, and otherwise a
shadow buffer that is copied when the receive completes. What the allocations of shadows give is
outside the driver and is an argument. `qp->recv_wqe_sg_cap` is an argument as well, since nothing
but posting reads it.
-/

namespace Ntrdma
open Lib Ntrdma.Ring

/-- A request to receive (C `struct ib_recv_wr`); `num_sge` is the length of the list. -/
structure RecvWr where
  wrId : UInt64
  sgList : List IbSge

/-- What the allocations for a receive entry give: no shadow, a shadow but no buffer, or both. -/
inductive ShadowAlloc where
  | noShadow
  | noBuf (e : Errno)
  | ok (dmaAddr chanAddr : UInt64)
  deriving DecidableEq, Repr

/-- C `ntc_export_buf_make_desc`, with the channel address that stands for the buffer. -/
def ntcExportBufMakeDesc (buf : ExportBuf) (chanAddr : UInt64) : RemoteBufDesc :=
  if buf.dmaAddr = 0 then ⟨0, 0⟩ else ⟨chanAddr, buf.size⟩

/-- The peer may write to the memory of the entry (the first test in `ntrdma_ib_recv_to_wqe`). -/
def rcvDirect (dev : Dev) (sge : IbSge) : Bool :=
  !ibSgeReserved sge &&
    match dev.mrLook sge.lkey with
    | some mr => mr.access &&& accessRemoteWrite != 0
    | none => false

def rcvShadow (sge : IbSge) (dmaAddr : UInt64) : Shadow where
  target :=
    if ibSgeReserved sge then .dma ⟨sge.length.toUInt64, sge.addr⟩ else .mr sge.lkey sge.addr
  expBuf := ⟨sge.length.toUInt64, dmaAddr⟩

/-- One entry of the list in `ntrdma_ib_recv_to_wqe`. -/
def ibRecvToSge (dev : Dev) (alloc : ShadowAlloc) (sge : IbSge) : Except Errno RcvSge :=
  if rcvDirect dev sge then .ok (.direct sge)
  else
    match alloc with
    | .noShadow => .error .enomem
    | .noBuf e => .error e
    | .ok dmaAddr chanAddr =>
      let shadow := rcvShadow sge dmaAddr
      .ok (.shadow shadow (ntcExportBufMakeDesc shadow.expBuf chanAddr))

/-- The loop in `ntrdma_ib_recv_to_wqe`. -/
def ibRecvToSgl (dev : Dev) : (Nat → ShadowAlloc) → List IbSge → Except Errno (List RcvSge)
  | _, [] => .ok []
  | alloc, sge :: rest =>
    match ibRecvToSge dev (alloc 0) sge with
    | .error e => .error e
    | .ok rcvSge =>
      match ibRecvToSgl dev (fun i => alloc (i + 1)) rest with
      | .error e => .error e
      | .ok rcvSgList => .ok (rcvSge :: rcvSgList)

/-- C `ntrdma_ib_recv_to_wqe`: the result and the entry it leaves behind. The status is not set. -/
def ibRecvToWqe (dev : Dev) (sgCap : UInt32) (alloc : Nat → ShadowAlloc) (wqe : RecvWqe)
    (wr : RecvWr) : Except Errno Unit × RecvWqe :=
  let wqe := { wqe with ulpHandle := wr.wrId, opCode := wrRecv }
  if sgCap.toNat < wr.sgList.length then (.error .einval, wqe)
  else
    match ibRecvToSgl dev alloc wr.sgList with
    -- C `ntrdma_recv_wqe_cleanup` on the shadows allocated so far
    | .error e => (.error e, { wqe with rcvSgList := [] })
    | .ok rcvSgList => (.ok (), { wqe with rcvSgList })

def Qp.setRecvWqe (qp : Qp) (pos : UInt32) (wqe : RecvWqe) : Qp :=
  { qp with recvWqe := Function.update qp.recvWqe pos.toNat wqe }

/-- The two loops of `ntrdma_post_recv`, from a position of an open range on: the result, the
requests that were not accepted, and the queue pair. -/
def postRecvLoop (dev : Dev) (sgCap : UInt32) :
    List RecvWr → (Nat → Nat → ShadowAlloc) → Range → Qp → Except Errno Unit × List RecvWr × Qp
  | [], _, r, qp => (.ok (), [], qp.recvPostPut r.pos r.base)
  | wr :: rest, alloc, r, qp =>
    match ibRecvToWqe dev sgCap (alloc 0) (qp.recvWqe r.pos.toNat) wr with
    | (.error e, wqe) => (.error e, wr :: rest, (qp.setRecvWqe r.pos wqe).recvPostPut r.pos r.base)
    | (.ok _, wqe) =>
      let qp := qp.setRecvWqe r.pos wqe
      let r := { r with pos := r.pos + 1 }
      let alloc := fun k => alloc (k + 1)
      -- at the end of the range, the next one is opened if there are more requests
      if !rest.isEmpty && r.pos == r.stop then
        let qp := qp.recvPostPut r.pos r.base
        match qp.recvPostGet with
        | (false, _) => (.error .einval, rest, qp)
        | (true, r) => postRecvLoop dev sgCap rest alloc r qp
      else postRecvLoop dev sgCap rest alloc r qp

/-- The requests of `ntrdma_post_recv`. -/
def postRecvWrs (dev : Dev) (sgCap : UInt32) (alloc : Nat → Nat → ShadowAlloc) (qp : Qp)
    (wrs : List RecvWr) : Except Errno Unit × List RecvWr × Qp :=
  if wrs.isEmpty then (.ok (), wrs, qp)
  else
    match qp.recvPostGet with
    | (false, _) => (.error .einval, wrs, qp)
    | (true, r) => postRecvLoop dev sgCap wrs alloc r qp

/-- The result of `ntrdma_qp_recv_work`: the portions of the ring that were sent and the producer
index; `abort` is `ntrdma_unrecoverable_err`. -/
structure RecvWork where
  qp : Qp
  chan : Chan
  abort : Bool
  copies : List (UInt32 × UInt32)
  idx : Option UInt32

/-- The loop of `ntrdma_qp_recv_work`, with a bound on its rounds. -/
def recvWorkLoop : Nat → Range → Qp → Chan → List (UInt32 × UInt32) → RecvWork
  | 0, _, qp, chan, copies => ⟨qp, chan, false, copies, none⟩
  | n + 1, r, qp, chan, copies =>
    let qp := qp.recvProdPut r.stop r.base
    match ntcRequestRing chan with
    | (.error _, chan) => ⟨qp, chan, true, copies, none⟩
    | (.ok _, chan) =>
      let copies := copies ++ [(r.pos, r.stop)]
      let r := qp.recvProdGet
      if r.pos = r.stop then
        match ntcRequestRing chan with
        | (.error _, chan) => ⟨qp, chan, true, copies, none⟩
        | (.ok _, chan) => ⟨qp, chan, false, copies, some qp.recvProd⟩
      else recvWorkLoop n r qp chan copies

/-- C `ntrdma_qp_recv_work`. What is not sent yet is in at most two ranges (`recvWorkLoop_spec`). -/
def recvWork (qp : Qp) (chan : Chan) : RecvWork :=
  if !isStateRecvReady qp.state then ⟨{ qp with recvAborting := true }, chan, false, [], none⟩
  else
    let r := qp.recvProdGet
    if r.pos = r.stop then ⟨qp, chan, false, [], none⟩ else recvWorkLoop 4 r qp chan []

structure PostRecv where
  rc : Except Errno Unit
  bad : List RecvWr
  work : RecvWork

def postRecv (dev : Dev) (sgCap : UInt32) (alloc : Nat → Nat → ShadowAlloc) (qp : Qp) (chan : Chan)
    (wrs : List RecvWr) : PostRecv :=
  if !isStateOutOfReset qp.state then ⟨.error .einval, wrs, ⟨qp, chan, false, [], none⟩⟩
  else
    let (rc, bad, qp) := postRecvWrs dev sgCap alloc qp wrs
    ⟨rc, bad, recvWork qp chan⟩

/-! ## The ring in unrolled counters -/

structure Qp.RecvRing (qp : Qp) (M K D P : Nat) : Prop where
  cap : Cap qp.recvCap
  cmpl : Idx qp.recvCap qp.recvCmpl M
  cons : Idx qp.recvCap qp.recvCons K
  prod : Idx qp.recvCap qp.recvProd D
  post : Idx qp.recvCap qp.recvPost P
  cmpl_le : M ≤ K
  cons_le : K ≤ D
  prod_le : D ≤ P
  full : P ≤ M + qp.recvCap.toNat

section
variable {qp : Qp} {M K D P : Nat}

lemma Qp.RecvRing.prodTaking (h : qp.RecvRing M K D P) : Taking qp.recvCap qp.recvProdGet D P :=
  consume_taking h.cap h.post h.prod h.prod_le
    (by have := h.full; have := h.cmpl_le; have := h.cons_le; omega)

lemma Qp.RecvRing.consTaking (h : qp.RecvRing M K D P) : Taking qp.recvCap qp.recvConsGet K D :=
  consume_taking h.cap h.prod h.cons h.cons_le
    (by have := h.full; have := h.cmpl_le; have := h.prod_le; omega)

lemma Qp.RecvRing.post_le (h : qp.RecvRing M K D P) : M ≤ P :=
  h.cmpl_le.trans (h.cons_le.trans h.prod_le)

end

/-! ## Posting -/

lemma ibRecvToWqe_fields (dev : Dev) (sgCap : UInt32) (alloc : Nat → ShadowAlloc) (wqe : RecvWqe)
    (wr : RecvWr) :
    (ibRecvToWqe dev sgCap alloc wqe wr).2.ulpHandle = wr.wrId ∧
      (ibRecvToWqe dev sgCap alloc wqe wr).2.opCode = wrRecv ∧
      (ibRecvToWqe dev sgCap alloc wqe wr).2.opStatus = wqe.opStatus := by
  simp only [ibRecvToWqe]
  split
  · exact ⟨rfl, rfl, rfl⟩
  · split <;> exact ⟨rfl, rfl, rfl⟩

structure Qp.RecvPostFrame (qp qp' : Qp) : Prop where
  eq : qp' = { qp with recvPost := qp'.recvPost, recvWqe := qp'.recvWqe }
  status : ∀ p, (qp'.recvWqe p).opStatus = (qp.recvWqe p).opStatus

lemma Qp.RecvPostFrame.trans {a b c : Qp} (h : a.RecvPostFrame b) (h' : b.RecvPostFrame c) :
    a.RecvPostFrame c :=
  ⟨by rw [h'.eq, h.eq], fun p => (h'.status p).trans (h.status p)⟩

lemma Qp.RecvPostFrame.put (qp : Qp) (pos base : UInt32) :
    qp.RecvPostFrame (qp.recvPostPut pos base) :=
  ⟨rfl, fun _ => rfl⟩

lemma Qp.RecvPostFrame.set {qp : Qp} {pos : UInt32} {wqe : RecvWqe}
    (h : wqe.opStatus = (qp.recvWqe pos.toNat).opStatus) :
    qp.RecvPostFrame (qp.setRecvWqe pos wqe) := by
  refine ⟨rfl, fun p => ?_⟩
  simp only [Qp.setRecvWqe]
  by_cases hp : p = pos.toNat
  · subst hp
    rw [Function.update_self, h]
  · rw [Function.update_of_ne hp]

/-- After posting from counter `P` on, the entries of the first `n` requests are in the ring in
order. -/
structure RecvPosted (dev : Dev) (sgCap : UInt32) (qp : Qp) (wrs : List RecvWr) (M P n : Nat)
    (res : Except Errno Unit × List RecvWr × Qp) : Prop where
  le : n ≤ wrs.length
  bad : res.2.1 = wrs.drop n
  all : res.1 = .ok () → n = wrs.length
  post : Idx qp.recvCap res.2.2.recvPost (P + n)
  full : P + n ≤ M + qp.recvCap.toNat
  frame : qp.RecvPostFrame res.2.2
  slots : ∀ m, M ≤ m → m < P →
    res.2.2.recvWqe (m % qp.recvCap.toNat) = qp.recvWqe (m % qp.recvCap.toNat)
  entries : ∀ k wr, (wrs.take n)[k]? = some wr → ∃ alloc wqe,
    ibRecvToWqe dev sgCap alloc wqe wr = (.ok (), res.2.2.recvWqe ((P + k) % qp.recvCap.toNat))

section
variable {dev : Dev} {sgCap : UInt32} {qp : Qp} {wrs : List RecvWr} {r : Range} {M P n : Nat}

lemma RecvPosted.refused {qp' : Qp} {e : Errno} (h : Filling qp.recvCap r P M n)
    (hframe : qp.RecvPostFrame qp')
    (hslots : ∀ m, M ≤ m → m < P →
      qp'.recvWqe (m % qp.recvCap.toNat) = qp.recvWqe (m % qp.recvCap.toNat)) :
    RecvPosted dev sgCap qp wrs M P 0 (.error e, wrs, qp'.recvPostPut r.pos r.base) := by
  have hfree := h.free
  have hcap : qp'.recvCap = qp.recvCap := by rw [hframe.eq]
  refine ⟨Nat.zero_le _, rfl, nofun, ?_, by omega, hframe.trans (.put ..), hslots, nofun⟩
  simp only [Qp.recvPostPut, hcap]
  exact h.update

lemma RecvPosted.cons {wr : RecvWr} {wqe : RecvWqe} {alloc wqe0 pos res}
    (hone : ibRecvToWqe dev sgCap alloc wqe0 wr = (.ok (), wqe))
    (hstatus : wqe.opStatus = (qp.recvWqe pos.toNat).opStatus)
    (hpos : pos.toNat = P % qp.recvCap.toNat) (hM : M ≤ P) (hP : P < M + qp.recvCap.toNat)
    (h : RecvPosted dev sgCap (qp.setRecvWqe pos wqe) wrs M (P + 1) n res) :
    RecvPosted dev sgCap qp (wr :: wrs) M P (n + 1) res := by
  have hpost := h.post
  have hfull := h.full
  have hslots : ∀ m, M ≤ m → m < P + 1 → res.2.2.recvWqe (m % qp.recvCap.toNat) =
      Function.update qp.recvWqe (P % qp.recvCap.toNat) wqe (m % qp.recvCap.toNat) := by
    rw [← hpos]
    exact h.slots
  rw [Nat.add_assoc, Nat.add_comm 1 n] at hpost hfull
  refine ⟨Nat.succ_le_succ h.le, h.bad, fun hok => congrArg Nat.succ (h.all hok), hpost, hfull,
    Qp.RecvPostFrame.trans (.set hstatus) h.frame, fun m hm hlt => ?_, fun k w hk => ?_⟩
  · rw [hslots m hm (by omega)]
    exact Function.update_of_ne (slot_ne hlt (by omega)) _ _
  · cases k with
    | zero =>
      cases hk
      refine ⟨alloc, wqe0, ?_⟩
      rw [Nat.add_zero, hslots P hM (Nat.lt_succ_self P), Function.update_self]
      exact hone
    | succ k =>
      rw [show P + (k + 1) = P + 1 + k by omega]
      exact h.entries k w hk

lemma RecvPosted.of_put {pos base : UInt32} {res}
    (h : RecvPosted dev sgCap (qp.recvPostPut pos base) wrs M P n res) :
    RecvPosted dev sgCap qp wrs M P n res :=
  ⟨h.le, h.bad, h.all, h.post, h.full, (Qp.RecvPostFrame.put qp pos base).trans h.frame, h.slots,
    h.entries⟩

lemma postRecvLoop_spec (alloc : Nat → Nat → ShadowAlloc) (h : Filling qp.recvCap r P M n)
    (hcmpl : Idx qp.recvCap qp.recvCmpl M) (hn : wrs ≠ [] → 0 < n) :
    ∃ k, RecvPosted dev sgCap qp wrs M P k (postRecvLoop dev sgCap wrs alloc r qp) := by
  induction wrs generalizing alloc r qp P n with
  | nil =>
    have hfree := h.free
    exact ⟨0, Nat.le_refl _, rfl, fun _ => rfl, h.update, by omega,
      .put .., fun _ _ _ => rfl, nofun⟩
  | cons wr rest ih =>
    obtain ⟨n, rfl⟩ := Nat.exists_eq_succ_of_ne_zero (Nat.pos_iff_ne_zero.1 (hn nofun))
    have hfree := h.free
    have hle := h.le
    have hfields := ibRecvToWqe_fields dev sgCap (alloc 0) (qp.recvWqe r.pos.toNat) wr
    simp only [postRecvLoop]
    generalize hone : ibRecvToWqe dev sgCap (alloc 0) (qp.recvWqe r.pos.toNat) wr = one at hfields ⊢
    obtain ⟨rc, wqe⟩ := one
    have hset : qp.RecvPostFrame (qp.setRecvWqe r.pos wqe) := .set hfields.2.2
    have hother : ∀ m, M ≤ m → m < P → (qp.setRecvWqe r.pos wqe).recvWqe (m % qp.recvCap.toNat) =
        qp.recvWqe (m % qp.recvCap.toNat) := by
      intro m hm hlt
      refine Function.update_of_ne ?_ _ _
      rw [h.slot]
      exact slot_ne hlt (by omega)
    cases rc with
    | error => exact ⟨0, .refused h hset hother⟩
    | ok =>
      have key : ∀ res, (∃ k, RecvPosted dev sgCap (qp.setRecvWqe r.pos wqe) rest M (P + 1) k res) →
          ∃ k, RecvPosted dev sgCap qp (wr :: rest) M P k res :=
        fun res ⟨k, hk⟩ => ⟨k + 1, .cons hone hfields.2.2 h.slot hle (by omega) hk⟩
      refine key _ ?_
      have hnext : Filling (qp.setRecvWqe r.pos wqe).recvCap _ (P + 1) M n := h.succ
      dsimp only
      split
      · have hput : Idx qp.recvCap ((qp.setRecvWqe r.pos wqe).recvPostPut
          (r.pos + 1) r.base).recvPost
            (P + 1) := hnext.update
        split
        · exact ⟨0, .refused hnext ⟨rfl, fun _ => rfl⟩ fun _ _ _ => rfl⟩
        next r' hr' =>
          have hroom := produce_room h.hcap hput hcmpl (by omega) (by omega) (congrArg Prod.fst hr')
          have hfill : Filling qp.recvCap
              ((qp.setRecvWqe r.pos wqe).recvPostPut
                (r.pos + 1) r.base).recvPostGet.2 (P + 1) M _ :=
            produce_filling h.hcap hput hcmpl (by omega) (by omega)
          rw [hr'] at hfill
          obtain ⟨k, hk⟩ := @ih ((qp.setRecvWqe r.pos wqe).recvPostPut
            (r.pos + 1) r.base) r' (P + 1) _
            (fun k => alloc (k + 1)) hfill hcmpl fun _ => hroom
          exact ⟨k, hk.of_put⟩
      next hcont =>
        refine ih _ hnext hcmpl fun hne => ?_
        rw [Bool.and_eq_true, not_and, beq_iff_eq] at hcont
        exact hnext.room (hcont (by simpa using hne))

variable {K D : Nat}

lemma postRecvWrs_spec (dev : Dev) (sgCap : UInt32) (alloc : Nat → Nat → ShadowAlloc)
    (wrs : List RecvWr) (h : qp.RecvRing M K D P) :
    ∃ k, RecvPosted dev sgCap qp wrs M P k (postRecvWrs dev sgCap alloc qp wrs) := by
  have hfull := h.full
  have hself : qp.RecvPostFrame qp := ⟨rfl, fun _ => rfl⟩
  simp only [postRecvWrs]
  split
  next hempty =>
    rw [List.isEmpty_iff] at hempty
    subst hempty
    exact ⟨0, Nat.le_refl _, rfl, fun _ => rfl, h.post, by omega, hself, fun _ _ _ => rfl, nofun⟩
  · split
    · exact ⟨0, Nat.zero_le _, rfl, nofun, h.post, by omega, hself, fun _ _ _ => rfl, nofun⟩
    next r hr =>
      have hroom := produce_room h.cap h.post h.cmpl h.post_le hfull (congrArg Prod.fst hr)
      have hfill : Filling qp.recvCap qp.recvPostGet.2 P M _ :=
        produce_filling h.cap h.post h.cmpl h.post_le hfull
      rw [hr] at hfill
      exact postRecvLoop_spec alloc hfill h.cmpl fun _ => hroom

lemma RecvPosted.ring {res} (h : RecvPosted dev sgCap qp wrs M P n res)
    (hring : qp.RecvRing M K D P) : res.2.2.RecvRing M K D (P + n) := by
  rw [h.frame.eq]
  exact ⟨hring.cap, hring.cmpl, hring.cons, hring.prod, h.post, hring.cmpl_le, hring.cons_le,
    by have := hring.prod_le; omega, h.full⟩

end

/-! ## Sending -/

/-- Nothing but the producer index and the flag change, and without an error all of the ring is
sent. -/
structure RecvSent (qp : Qp) (M K D P D' : Nat) (res : RecvWork) : Prop where
  ring : res.qp.RecvRing M K D' P
  le : D ≤ D'
  frame : res.qp = { qp with recvProd := res.qp.recvProd }
  sent : res.abort = false → D' = P ∧ Portions qp.recvCap res.copies D P ∧
    res.idx = some res.qp.recvProd

section
variable {qp : Qp} {M K D P : Nat}

lemma Qp.RecvRing.put_prod (h : qp.RecvRing M K D P)
    (hne : qp.recvProdGet.pos ≠ qp.recvProdGet.stop) :
    (qp.recvProdPut qp.recvProdGet.stop qp.recvProdGet.base).RecvRing M K
      (D + min (P - D) (qp.recvCap.toNat - D % qp.recvCap.toNat)) P :=
  ⟨h.cap, h.cmpl, h.cons, (h.prodTaking.portion hne).2, h.post, h.cmpl_le,
    by have := h.cons_le; omega, by have := h.prod_le; omega, h.full⟩

lemma recvWorkLoop_spec {D0 : Nat} {copies : List (UInt32 × UInt32)} (rounds : Nat) (chan : Chan)
    (h : qp.RecvRing M K D P) (hne : qp.recvProdGet.pos ≠ qp.recvProdGet.stop)
    (hrounds : P - D ≤ qp.recvCap.toNat - D % qp.recvCap.toNat + rounds * qp.recvCap.toNat)
    (hcopies : Portions qp.recvCap copies D0 D) :
    ∃ D', RecvSent qp M K D0 P D' (recvWorkLoop (rounds + 1) qp.recvProdGet qp chan copies) := by
  induction rounds generalizing qp D chan copies with
  | zero =>
    have hput := h.put_prod hne
    have hall := hcopies.append (h.prodTaking.portion hne).1
    have hle := hall.le
    have hD := h.prod_le
    generalize hn : D + min (P - D) (qp.recvCap.toNat - D % qp.recvCap.toNat) = D' at hput hall hle
    have hP : D' = P := by omega
    subst hP
    simp only [recvWorkLoop]
    split
    · exact ⟨D', hput, hle, rfl, nofun⟩
    · rw [if_pos (hput.prodTaking.empty_iff.2 rfl)]
      split
      · exact ⟨D', hput, hle, rfl, nofun⟩
      · exact ⟨D', hput, hle, rfl, fun _ => ⟨rfl, hall, rfl⟩⟩
  | succ rounds ih =>
    have hput := h.put_prod hne
    have hall := hcopies.append (h.prodTaking.portion hne).1
    have hle := hall.le
    have hD := h.prod_le
    have hend := slot_end D h.cap.pos
    generalize hn : D + min (P - D) (qp.recvCap.toNat - D % qp.recvCap.toNat) = D' at hput hall hle
    rw [recvWorkLoop]
    dsimp only
    split
    · exact ⟨D', hput, hle, rfl, nofun⟩
    · split
      next hempty =>
        have hP : D' = P := hput.prodTaking.empty_iff.1 hempty
        subst hP
        split
        · exact ⟨D', hput, hle, rfl, nofun⟩
        · exact ⟨D', hput, hle, rfl, fun _ => ⟨rfl, hall, rfl⟩⟩
      next hnext =>
        have hne' : D' ≠ P := fun heq => hnext (hput.prodTaking.empty_iff.2 heq)
        have hD' : D' = D + (qp.recvCap.toNat - D % qp.recvCap.toNat) := by omega
        have hlt := Nat.mod_lt D h.cap.pos
        have hmul : (rounds + 1) * qp.recvCap.toNat = rounds *
          qp.recvCap.toNat + qp.recvCap.toNat :=
          Nat.succ_mul _ _
        rw [← hD'] at hend
        have hcap :
          (qp.recvProdPut qp.recvProdGet.stop qp.recvProdGet.base).recvCap = qp.recvCap := rfl
        obtain ⟨D'', hsent⟩ := ih _ hput hnext (by rw [hcap, hend]; omega) hall
        exact ⟨D'', hsent.ring, hsent.le, hsent.frame, hsent.sent⟩

lemma recvWork_ready (chan : Chan) (h : qp.RecvRing M K D P)
    (hready : isStateRecvReady qp.state = true) :
    (D = P ∧ recvWork qp chan = ⟨qp, chan, false, [], none⟩) ∨
      D < P ∧ ∃ D', RecvSent qp M K D P D' (recvWork qp chan) := by
  have hle := h.prod_le
  have hempty := h.prodTaking.empty_iff
  simp only [recvWork, hready, Bool.not_true, Bool.false_eq_true, if_false]
  split
  next heq => exact .inl ⟨hempty.1 heq, rfl⟩
  next hne =>
    have hfull := h.full
    have hcmpl := h.cmpl_le
    have hcons := h.cons_le
    rw [hempty] at hne
    exact .inr ⟨by omega, recvWorkLoop_spec 3 chan h (by rwa [ne_eq, hempty]) (by omega) (.nil D)⟩

lemma recvWork_notReady (chan : Chan) (hready : isStateRecvReady qp.state = false) :
    recvWork qp chan = ⟨{ qp with recvAborting := true }, chan, false, [], none⟩ := by
  simp [recvWork, hready]

end

end Ntrdma
