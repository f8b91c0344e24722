import Ntrdma.Recv.Sync

/-!
# Processing the peer's sends

Model of `ntrdma_rqp_send_work`, by which the receiver goes over the send entries that arrived,
takes a posted receive for each send, writes a completion entry for each, and sends the completion
entries and its consumer index back.

`ntrdma_zip_sync`, whose result is only reported, changes no memory and is left out, as are the
doorbells and counters. The connected queue pair, which the source looks up by key, is an argument,
and so is the size of a batch (`NTRDMA_QP_BATCH_SIZE`).
-/

namespace Ntrdma
open Lib Ntrdma.Ring

def qpBatchSize : UInt32 := 0x10

/-- Why `ntrdma_rqp_send_work` gives up: the sender had no receive, took another one, there is none,
or a status is an error. -/
inductive RqpFault where
  | noRecv
  | corrupt
  | recvMissing
  | recvStatus
  | sendStatus
  deriving DecidableEq, Repr

structure RqpLoop where
  pos : UInt32
  recv : Range
  qp : Qp
  rqp : Rqp
  mem : UInt64 → UInt8
  cueRecv : Bool
  fault : Option RqpFault

def SendWqe.statusOr (wqe : SendWqe) (opStatus : UInt16) : UInt16 :=
  if wqe.opStatus = 0 then opStatus else wqe.opStatus

def Rqp.setSendCqe (rqp : Rqp) (pos : UInt32) (cqe : Cqe) : Rqp :=
  { rqp with sendCqe := Function.update rqp.sendCqe pos.toNat cqe }

def RqpLoop.put (s : RqpLoop) (cqe : Cqe) : RqpLoop :=
  { s with pos := s.pos + 1, rqp := s.rqp.setSendCqe s.pos cqe }

def RqpLoop.take (s : RqpLoop) : RqpLoop :=
  { s with recv := { s.recv with pos := s.recv.pos + 1 }, cueRecv := true }

def RqpLoop.putRecv (s : RqpLoop) (pos : UInt32) (cqe : Cqe) (wqe : RecvWqe) : RqpLoop :=
  { s with
    qp := { s.qp with
      recvCqe := Function.update s.qp.recvCqe pos.toNat cqe
      recvWqe := Function.update s.qp.recvWqe pos.toNat wqe } }

def RqpLoop.failRecv (s : RqpLoop) (pos : UInt32) (opStatus : UInt16) : RqpLoop :=
  let (cqe, wqe) := recvFail (s.qp.recvCqe pos.toNat) (s.qp.recvWqe pos.toNat) opStatus
  s.putRecv pos cqe wqe

def RqpLoop.doneRecv (dev : Dev) (s : RqpLoop) (pos : UInt32) (wqe : SendWqe) : RqpLoop :=
  let done := recvDone dev s.mem (s.qp.recvCqe pos.toNat) (s.qp.recvWqe pos.toNat) wqe
  { s.putRecv pos done.cqe done.wqe with mem := done.mem }

def RqpLoop.stop (s : RqpLoop) (fault : RqpFault) (cqe : Cqe) : Bool × RqpLoop :=
  (false, { s.put cqe with fault := some fault })

/-- The completion entry of an entry without an error. That of an operation which neither pushes nor
pulls data is not written. -/
def rqpCompletion (cqe : Cqe) (wqe : SendWqe) : Cqe :=
  if wrCodePullData wqe.opCode then sendFail wqe wcErrRdmaAccess
  else if wrCodePushData wqe.opCode then sendDone wqe wqe.rdmaSge.length
  else cqe

def RqpLoop.complete (s : RqpLoop) (wqe : SendWqe) : RqpLoop :=
  s.put (rqpCompletion (s.rqp.sendCqe s.pos.toNat) wqe)

def RqpLoop.next (s : RqpLoop) : RqpLoop :=
  let (recv, qp) := s.qp.recvNext s.recv
  { s with recv, qp }

/-- One round of the loop in `ntrdma_rqp_send_work`. The result says if the entry was completed. -/
def rqpWorkRound (dev : Dev) (s : RqpLoop) : Bool × RqpLoop :=
  let wqe := s.rqp.sendWqe s.pos.toNat
  if wrCodeIsSend wqe.opCode then
    if wrStatusNoRecv wqe.opStatus then s.stop .noRecv (sendFail wqe wqe.opStatus)
    else if wqe.recvKey ≠ s.recv.pos + s.recv.base then
      s.stop .corrupt (sendFail wqe (wqe.statusOr wcErrCorrupt))
    else if s.recv.pos = s.recv.stop then
      s.stop .recvMissing (sendFail wqe (wqe.statusOr wcErrRecvMissing))
    else
      let recvPos := s.recv.pos
      let recvWqe := s.qp.recvWqe recvPos.toNat
      let s := s.take
      if recvWqe.opStatus ≠ 0 then
        (s.failRecv recvPos recvWqe.opStatus).stop .recvStatus
          (sendFail wqe (wqe.statusOr recvWqe.opStatus))
      else if wqe.opStatus ≠ 0 then
        (s.failRecv recvPos wqe.opStatus).stop .sendStatus (sendFail wqe wqe.opStatus)
      else
        -- every operation that takes a receive pushes data
        (true, ((s.doneRecv dev recvPos wqe).complete wqe).next)
  else if wqe.opStatus ≠ 0 then s.stop .sendStatus (sendFail wqe wqe.opStatus)
  else (true, (s.complete wqe).next)

/-- The loop of `ntrdma_rqp_send_work` up to the end of the range, for as many entries as it has. -/
def rqpWorkLoop (dev : Dev) (stop : UInt32) : Nat → RqpLoop → RqpLoop
  | 0, s => s
  | n + 1, s =>
    match rqpWorkRound dev s with
    | (false, s) => s
    | (true, s) => if s.pos = stop then s else rqpWorkLoop dev stop n s

/-- The result of `ntrdma_rqp_send_work`; `abort` is `ntrdma_unrecoverable_err`, and `sent` the
completions sent back. -/
structure RqpWork where
  qp : Qp
  rqp : Rqp
  mem : UInt64 → UInt8
  chan : Chan
  cueRecv : Bool
  fault : Option RqpFault
  abort : Bool
  sent : Option RingSend

def rqpWorkFinish (r : Range) (chan : Chan) (s : RqpLoop) : RqpWork :=
  let qp := s.qp.recvConsPut s.recv.pos s.recv.base
  let rqp := s.rqp.sendConsPut s.pos r.base
  if s.fault.isSome then ⟨qp, rqp, s.mem, chan, s.cueRecv, s.fault, true, none⟩
  else
    match ntcRequestRing chan with
    | (.error _, chan) => ⟨qp, rqp, s.mem, chan, s.cueRecv, s.fault, true, none⟩
    | (.ok _, chan) =>
      match ntcRequestRing chan with
      | (.error _, chan) => ⟨qp, rqp, s.mem, chan, s.cueRecv, s.fault, true, none⟩
      | (.ok _, chan) =>
        ⟨qp, rqp, s.mem, chan, s.cueRecv, s.fault, false, some ⟨r.pos, s.pos, rqp.sendCons⟩⟩

/-- The end of the range that is processed (C `min_t(u32, end, start + NTRDMA_QP_BATCH_SIZE)`). -/
def batchStop (batch : UInt32) (r : Range) : UInt32 := min r.stop (r.pos + batch)

def rqpSendWork (dev : Dev) (batch : UInt32) (qp : Qp) (rqp : Rqp) (mem : UInt64 → UInt8)
    (chan : Chan) : RqpWork :=
  let idle : RqpWork := ⟨qp, rqp, mem, chan, false, none, false, none⟩
  if !isStateSendReady rqp.state then idle
  else
    let r := rqp.sendConsGet
    if r.pos = r.stop then idle
    else if !isStateRecvReady qp.state then idle
    else
      let stop := batchStop batch r
      rqpWorkFinish r chan (rqpWorkLoop dev stop (stop - r.pos).toNat
        ⟨r.pos, qp.recvConsGet, qp, rqp, mem, false, none⟩)

/-! ## What a round can do -/

inductive RqpStep (dev : Dev) (s : RqpLoop) : Bool × RqpLoop → Prop where
  /-- It stops before a receive is taken. -/
  | stop (fault : RqpFault) (cqe : Cqe)
      (hcorrupt : fault = .corrupt → wrCodeIsSend (s.rqp.sendWqe s.pos.toNat).opCode = true ∧
        (s.rqp.sendWqe s.pos.toNat).recvKey ≠ s.recv.pos + s.recv.base)
      (hmissing : fault = .recvMissing → wrCodeIsSend (s.rqp.sendWqe s.pos.toNat).opCode = true ∧
        s.recv.pos = s.recv.stop) : RqpStep dev s (s.stop fault cqe)
  /-- It stops after the receive was taken, which fails too. -/
  | stopRecv (fault : RqpFault) (cqe : Cqe) (opStatus : UInt16) (hne : s.recv.pos ≠ s.recv.stop)
      (hfault : fault ≠ .corrupt ∧ fault ≠ .recvMissing) :
    RqpStep dev s ((s.take.failRecv s.recv.pos opStatus).stop fault cqe)
  /-- It completes a send with its receive. -/
  | recv (hsend : wrCodeIsSend (s.rqp.sendWqe s.pos.toNat).opCode = true)
      (hkey : (s.rqp.sendWqe s.pos.toNat).recvKey = s.recv.pos + s.recv.base)
      (hne : s.recv.pos ≠ s.recv.stop) (hstatus : (s.rqp.sendWqe s.pos.toNat).opStatus = 0)
      (hrecv : (s.qp.recvWqe s.recv.pos.toNat).opStatus = 0) :
    RqpStep dev s (true, ((s.take.doneRecv dev s.recv.pos (s.rqp.sendWqe s.pos.toNat)).complete
      (s.rqp.sendWqe s.pos.toNat)).next)
  /-- It completes an entry that takes no receive. -/
  | plain (hsend : wrCodeIsSend (s.rqp.sendWqe s.pos.toNat).opCode = false)
      (hstatus : (s.rqp.sendWqe s.pos.toNat).opStatus = 0) :
    RqpStep dev s (true, (s.complete (s.rqp.sendWqe s.pos.toNat)).next)

lemma rqpWorkRound_step (dev : Dev) (s : RqpLoop) : RqpStep dev s (rqpWorkRound dev s) := by
  simp only [rqpWorkRound]
  split
  next hsend =>
    split
    · exact .stop _ _ nofun nofun
    · split
      next hkey => exact .stop _ _ (fun _ => ⟨hsend, hkey⟩) nofun
      next hkey =>
        split
        next hempty => exact .stop _ _ nofun fun _ => ⟨hsend, hempty⟩
        next hne =>
          split
          · exact .stopRecv _ _ _ hne ⟨nofun, nofun⟩
          next hrecv =>
            split
            · exact .stopRecv _ _ _ hne ⟨nofun, nofun⟩
            · rename_i hstatus
              exact .recv hsend (not_not.1 hkey) hne (not_not.1 hstatus) (not_not.1 hrecv)
  next hsend =>
    split
    · exact .stop _ _ nofun nofun
    next hstatus => exact .plain (by simpa using hsend) (not_not.1 hstatus)

/-! ## The receives that are taken -/

/-- The receives from counter `K` up to `K'` were taken; nothing changed but the lists of these
entries. -/
structure Qp.RecvTook (qp qp' : Qp) (K K' : Nat) : Prop where
  frame : qp' = { qp with
    recvCons := qp'.recvCons, recvCqe := qp'.recvCqe, recvWqe := qp'.recvWqe }
  slots : ∀ p, (∀ k, K ≤ k → k < K' → p ≠ k % qp.recvCap.toNat) →
    qp'.recvWqe p = qp.recvWqe p ∧ qp'.recvCqe p = qp.recvCqe p
  kept : ∀ p, (qp'.recvWqe p).ulpHandle = (qp.recvWqe p).ulpHandle ∧
    (qp'.recvWqe p).opStatus = (qp.recvWqe p).opStatus

lemma Qp.RecvTook.refl (qp : Qp) (K : Nat) : qp.RecvTook qp K K :=
  ⟨rfl, fun _ _ => ⟨rfl, rfl⟩, fun _ => ⟨rfl, rfl⟩⟩

lemma Qp.RecvTook.trans {a b c : Qp} {K K1 K2 : Nat} (h : a.RecvTook b K K1)
    (h' : b.RecvTook c K1 K2) (hle : K ≤ K1) (hle' : K1 ≤ K2) : a.RecvTook c K K2 := by
  have hcap : b.recvCap = a.recvCap := by rw [h.frame]
  refine ⟨by rw [h'.frame, h.frame], fun p hp => ?_, fun p => ?_⟩
  · have h1 := h.slots p fun k hk hlt => hp k hk (by omega)
    have h2 := h'.slots p fun k hk hlt => by rw [hcap]; exact hp k (by omega) hlt
    exact ⟨h2.1.trans h1.1, h2.2.trans h1.2⟩
  · exact ⟨(h'.kept p).1.trans (h.kept p).1, (h'.kept p).2.trans (h.kept p).2⟩

lemma Qp.recvNext_took (qp : Qp) (recv : Range) (K : Nat) :
    qp.RecvTook (qp.recvNext recv).2 K K := by
  simp only [Qp.recvNext]
  split
  · exact ⟨rfl, fun _ _ => ⟨rfl, rfl⟩, fun _ => ⟨rfl, rfl⟩⟩
  · exact .refl qp K

lemma RqpLoop.putRecv_took {s : RqpLoop} {pos : UInt32} {cqe : Cqe} {wqe : RecvWqe} {K : Nat}
    (hpos : pos.toNat = K % s.qp.recvCap.toNat)
    (hkept : wqe.ulpHandle = (s.qp.recvWqe pos.toNat).ulpHandle ∧
      wqe.opStatus = (s.qp.recvWqe pos.toNat).opStatus) :
    s.qp.RecvTook (s.putRecv pos cqe wqe).qp K (K + 1) := by
  refine ⟨rfl, fun p hp => ?_, fun p => ?_⟩
  · have hne : p ≠ pos.toNat := hpos ▸ hp K (Nat.le_refl K) (Nat.lt_succ_self K)
    exact ⟨Function.update_of_ne hne _ _, Function.update_of_ne hne _ _⟩
  · simp only [RqpLoop.putRecv]
    by_cases hp : p = pos.toNat
    · subst hp
      rw [Function.update_self]
      exact hkept
    · rw [Function.update_of_ne hp]
      exact ⟨rfl, rfl⟩

variable {qp : Qp} {K D : Nat}

lemma Qp.recvNext_taking {recv : Range} (hcap : Cap qp.recvCap)
    (hprod : Idx qp.recvCap qp.recvProd D) (hst : Stands qp.recvCap recv.base recv.pos K)
    (hle : K ≤ D) (hfull : D ≤ K + qp.recvCap.toNat)
    (hgo : recv.pos ≠ recv.stop → Taking qp.recvCap recv K D) :
    Taking qp.recvCap (qp.recvNext recv).1 K D := by
  simp only [Qp.recvNext]
  split
  · exact consume_taking hcap hprod (hst.update hcap) hle hfull
  next hne => exact hgo hne

/-- The receives a round takes, from counter `K` of the consumer on. -/
structure RqpTakes (s s' : RqpLoop) (K K' D : Nat) : Prop where
  le : K ≤ K'
  prod_le : K' ≤ D
  took : s.qp.RecvTook s'.qp K K'
  stands : Stands s.qp.recvCap s'.recv.base s'.recv.pos K'
  rqp : s'.rqp = { s.rqp with sendCqe := s'.rqp.sendCqe }

section
variable {dev : Dev} {s s' : RqpLoop} {K D : Nat}

lemma RqpTakes.next {K' : Nat} (h : RqpTakes s s' K K' D) (hcap : Cap s.qp.recvCap)
    (hprod : Idx s.qp.recvCap s.qp.recvProd D) (hfull : D ≤ K' + s.qp.recvCap.toNat)
    (hgo : s'.recv.pos ≠ s'.recv.stop → Taking s.qp.recvCap s'.recv K' D) :
    RqpTakes s s'.next K K' D ∧ Taking s.qp.recvCap s'.next.recv K' D := by
  have hcap' : s'.qp.recvCap = s.qp.recvCap := by rw [h.took.frame]
  have hprod' : s'.qp.recvProd = s.qp.recvProd := by rw [h.took.frame]
  have hnext : Taking s'.qp.recvCap s'.next.recv K' D :=
    Qp.recvNext_taking (by rwa [hcap']) (by rwa [hcap', hprod']) (by rw [hcap']; exact h.stands)
      h.prod_le (by rwa [hcap']) (by rwa [hcap'])
  rw [hcap'] at hnext
  exact ⟨⟨h.le, h.prod_le, h.took.trans (s'.qp.recvNext_took s'.recv K') h.le (Nat.le_refl K'),
    hnext.stands, h.rqp⟩, hnext⟩

lemma RqpTakes.trans {s1 : RqpLoop} {K1 K' : Nat} (h : RqpTakes s s1 K K1 D)
    (h' : RqpTakes s1 s' K1 K' D) : RqpTakes s s' K K' D := by
  have hcap : s1.qp.recvCap = s.qp.recvCap := by rw [h.took.frame]
  exact ⟨h.le.trans h'.le, h'.prod_le, h.took.trans h'.took h.le h'.le, hcap ▸ h'.stands,
    by rw [h'.rqp, h.rqp]⟩

lemma RqpStep.takes {res : Bool × RqpLoop} (h : RqpStep dev s res)
    (htake : Taking s.qp.recvCap s.recv K D) (hprod : Idx s.qp.recvCap s.qp.recvProd D) :
    ∃ K', RqpTakes s res.2 K K' D ∧ (res.1 = true → Taking s.qp.recvCap res.2.recv K' D ∧
      K' = K + if wrCodeIsSend (s.rqp.sendWqe s.pos.toNat).opCode then 1 else 0) := by
  have hslot := htake.slot
  have hle := htake.le
  have hfull := htake.full
  have hsucc := htake.stands.succ htake.hcap htake.lt
  cases h with
  | stop => exact ⟨K, ⟨Nat.le_refl K, hle, .refl _ K, htake.stands, rfl⟩, nofun⟩
  | stopRecv _ _ _ hne =>
    rw [ne_eq, htake.empty_iff] at hne
    exact ⟨K + 1, ⟨by omega, by omega, RqpLoop.putRecv_took hslot ⟨rfl, rfl⟩, hsucc, rfl⟩, nofun⟩
  | recv hsend _ hne =>
    have hlt := hne
    rw [ne_eq, htake.empty_iff] at hlt
    have htakes : RqpTakes s ((s.take.doneRecv dev s.recv.pos (s.rqp.sendWqe s.pos.toNat)).complete
        (s.rqp.sendWqe s.pos.toNat)) K (K + 1) D :=
      ⟨by omega, by omega, RqpLoop.putRecv_took hslot ⟨rfl, rfl⟩, hsucc, rfl⟩
    obtain ⟨hnext, hopen⟩ := htakes.next htake.hcap hprod (by omega) fun hlast =>
      htake.succ hne hlast
    exact ⟨K + 1, hnext, fun _ => ⟨hopen, by rw [if_pos hsend]⟩⟩
  | plain hsend =>
    have htakes : RqpTakes s (s.complete (s.rqp.sendWqe s.pos.toNat)) K K D :=
      ⟨Nat.le_refl K, hle, .refl _ K, htake.stands, rfl⟩
    obtain ⟨hnext, hopen⟩ := htakes.next htake.hcap hprod hfull fun _ => htake
    exact ⟨K, hnext, fun _ => ⟨hopen, by rw [if_neg (Bool.eq_false_iff.1 hsend)]; rfl⟩⟩

lemma rqpWorkLoop_takes (stop : UInt32) (n : Nat) (htake : Taking s.qp.recvCap s.recv K D)
    (hprod : Idx s.qp.recvCap s.qp.recvProd D) :
    ∃ K', RqpTakes s (rqpWorkLoop dev stop n s) K K' D := by
  induction n generalizing s K with
  | zero => exact ⟨K, Nat.le_refl K, htake.le, .refl _ K, htake.stands, rfl⟩
  | succ _ ih =>
    obtain ⟨K1, h1, hgo⟩ := (rqpWorkRound_step dev s).takes htake hprod
    rw [rqpWorkLoop]
    generalize rqpWorkRound dev s = res at h1 hgo
    obtain ⟨go, s1⟩ := res
    cases go with
    | false => exact ⟨K1, h1⟩
    | true =>
      dsimp only
      split
      · exact ⟨K1, h1⟩
      · have hcap : s1.qp.recvCap = s.qp.recvCap := by rw [h1.took.frame]
        have hprod1 : s1.qp.recvProd = s.qp.recvProd := by rw [h1.took.frame]
        obtain ⟨K2, h2⟩ := ih (by rw [hcap]; exact (hgo rfl).1) (by rwa [hcap, hprod1])
        exact ⟨K2, h1.trans h2⟩

end

/-! ## Entries that are completed -/

inductive RqpRun (dev : Dev) : RqpLoop → Nat → RqpLoop → Prop where
  | nil (s) : RqpRun dev s 0 s
  | cons {s s1 s' n} : RqpStep dev s (true, s1) → RqpRun dev s1 n s' → RqpRun dev s (n + 1) s'

variable {dev : Dev} {s s' : RqpLoop}

lemma RqpStep.sends (h : RqpStep dev s (true, s')) : s'.pos = s.pos + 1 ∧ s'.fault = s.fault ∧
      s'.rqp = s.rqp.setSendCqe s.pos
        (rqpCompletion (s.rqp.sendCqe s.pos.toNat) (s.rqp.sendWqe s.pos.toNat)) := by
  cases h with
  | recv => exact ⟨rfl, rfl, rfl⟩
  | plain => exact ⟨rfl, rfl, rfl⟩

variable {n : Nat}

lemma rqpWorkLoop_run {stop : UInt32} {s : RqpLoop} (h : (rqpWorkLoop dev stop n s).fault = none) :
    ∃ k, RqpRun dev s k (rqpWorkLoop dev stop n s) ∧
      (stop.toNat = s.pos.toNat + n → k = n) := by
  induction n generalizing s with
  | zero => exact ⟨0, .nil s, fun _ => rfl⟩
  | succ n ih =>
    have hlt := stop.toNat_lt
    have hstep := rqpWorkRound_step dev s
    rw [rqpWorkLoop] at h ⊢
    generalize rqpWorkRound dev s = res at h hstep ⊢
    obtain ⟨go, s1⟩ := res
    cases go with
    | false => cases hstep <;> cases h
    | true =>
      have hpos : stop.toNat = s.pos.toNat + (n + 1) → s1.pos.toNat = s.pos.toNat + 1 := by
        intro hstop
        rw [hstep.sends.1, toNat_succ (by omega)]
      dsimp only at h ⊢
      split at h
      next hend =>
        rw [if_pos hend]
        refine ⟨1, .cons hstep (.nil s1), fun hstop => ?_⟩
        have := hpos hstop
        rw [hend] at this
        omega
      next hend =>
        rw [if_neg hend]
        obtain ⟨k, hrun, hk⟩ := ih h
        exact ⟨k + 1, .cons hstep hrun, fun hstop => by rw [hk (by have := hpos hstop; omega)]⟩

lemma RqpRun.sends (h : RqpRun dev s n s') (hlt : s.pos.toNat + n < 2 ^ 32) :
    s'.pos.toNat = s.pos.toNat + n ∧ s'.fault = s.fault ∧
      s'.rqp = { s.rqp with sendCqe := s'.rqp.sendCqe } ∧
      (∀ p, p < s.pos.toNat ∨ s.pos.toNat + n ≤ p → s'.rqp.sendCqe p = s.rqp.sendCqe p) ∧
      ∀ k < n, s'.rqp.sendCqe (s.pos.toNat + k) =
        rqpCompletion (s.rqp.sendCqe (s.pos.toNat + k)) (s.rqp.sendWqe (s.pos.toNat + k)) := by
  induction h with
  | nil => exact ⟨rfl, rfl, rfl, fun _ _ => rfl, nofun⟩
  | cons hstep hrun ih =>
    rename_i s s1 s' n
    obtain ⟨hpos1, hfault1, hrqp1⟩ := hstep.sends
    have hpos : s1.pos.toNat = s.pos.toNat + 1 := by
      rw [hpos1, toNat_succ (by omega)]
    have hother : ∀ p ≠ s.pos.toNat, s1.rqp.sendCqe p = s.rqp.sendCqe p := by
      intro p hp
      rw [hrqp1]
      exact Function.update_of_ne hp _ _
    have hwqe : s1.rqp.sendWqe = s.rqp.sendWqe := by rw [hrqp1]; rfl
    obtain ⟨hpos', hfault, hrqp, hframe, hslots⟩ := ih (by omega)
    refine ⟨by omega, hfault.trans hfault1, by rw [hrqp, hrqp1]; rfl, ?_, ?_⟩
    · exact fun p hp => (hframe p (by omega)).trans (hother p (by omega))
    · intro k hk
      cases k with
      | zero =>
        refine (hframe _ (by omega)).trans ?_
        rw [hrqp1]
        exact Function.update_self _ _ _
      | succ k =>
        have := hslots k (by omega)
        rw [hwqe, hpos, show s.pos.toNat + 1 + k = s.pos.toNat + (k + 1) by omega] at this
        rw [this, hother _ (by omega)]

def RqpLoop.ahead (s : RqpLoop) (n : Nat) : List SendWqe :=
  (List.range n).map fun k => s.rqp.sendWqe (s.pos + .ofNat k).toNat

lemma RqpStep.ahead (h : RqpStep dev s (true, s')) (n : Nat) :
    s.ahead (n + 1) = s.rqp.sendWqe s.pos.toNat :: s'.ahead n := by
  obtain ⟨hpos, -, hrqp⟩ := h.sends
  have hwqe : s'.rqp.sendWqe = s.rqp.sendWqe := by rw [hrqp]; rfl
  have hzero : s.pos + .ofNat 0 = s.pos := UInt32.add_zero _
  rw [RqpLoop.ahead, List.range_succ_eq_map, List.map_cons, List.map_map, RqpLoop.ahead, hwqe, hpos,
    hzero]
  refine congrArg _ (List.map_congr_left fun k _ => ?_)
  simp only [Function.comp_apply, Nat.succ_eq_add_one, UInt32.ofNat_add]
  rw [UInt32.add_comm (UInt32.ofNat k), UInt32.add_assoc]
  rfl

/-- The receives from counter `K` up to `K'` were completed with success. -/
def Qp.RecvDone (qp qp' : Qp) (K K' : Nat) : Prop :=
  ∀ k, K ≤ k → k < K' → (qp'.recvCqe (k % qp.recvCap.toNat)).opStatus = wcSuccess ∧
    (qp'.recvCqe (k % qp.recvCap.toNat)).ulpHandle =
      (qp.recvWqe (k % qp.recvCap.toNat)).ulpHandle

lemma Qp.recvNext_recvCqe (qp : Qp) (recv : Range) : (qp.recvNext recv).2.recvCqe = qp.recvCqe := by
  simp only [Qp.recvNext]
  split <;> rfl

lemma RqpStep.recvDone (h : RqpStep dev s (true, s')) (htake : Taking s.qp.recvCap s.recv K D) :
    s.qp.RecvDone s'.qp K
      (K + if wrCodeIsSend (s.rqp.sendWqe s.pos.toNat).opCode then 1 else 0) := by
  intro k hk hlt
  cases h with
  | recv hsend =>
    rw [if_pos hsend] at hlt
    have hkK : k = K := by omega
    subst hkK
    rw [← htake.slot, RqpLoop.next, Qp.recvNext_recvCqe]
    simp only [RqpLoop.complete, RqpLoop.put, RqpLoop.doneRecv,
      RqpLoop.putRecv, Function.update_self]
    exact ⟨rfl, rfl⟩
  | plain hsend =>
    rw [if_neg (Bool.eq_false_iff.1 hsend)] at hlt
    omega

lemma RqpRun.recvs {n K D : Nat} (h : RqpRun dev s n s') (htake : Taking s.qp.recvCap s.recv K D)
    (hprod : Idx s.qp.recvCap s.qp.recvProd D) :
    RqpTakes s s' K (K + sendCount (s.ahead n)) D ∧
      s.qp.RecvDone s'.qp K (K + sendCount (s.ahead n)) := by
  induction h generalizing K with
  | nil =>
    exact ⟨⟨Nat.le_refl _, htake.le, .refl _ K, htake.stands, rfl⟩,
      fun k hk hlt => absurd hk (Nat.not_le_of_lt hlt)⟩
  | cons hstep hrun ih =>
    rename_i s s1 s' n
    have hahead := hstep.ahead n
    obtain ⟨K1, h1, hgo⟩ := hstep.takes htake hprod
    obtain ⟨htake1, hK1⟩ := hgo rfl
    have hdone1 := hstep.recvDone htake
    rw [← hK1] at hdone1
    have hframe := h1.took.frame
    have hcap : s1.qp.recvCap = s.qp.recvCap := by rw [hframe]
    have hprod1 : s1.qp.recvProd = s.qp.recvProd := by rw [hframe]
    obtain ⟨h2, hdone2⟩ := ih (by rw [hcap]; exact htake1) (by rwa [hcap, hprod1])
    have hcount : K + sendCount (s.ahead (n + 1)) = K1 + sendCount (s1.ahead n) := by
      rw [hahead, sendCount_cons, hK1, Nat.add_assoc]
    have hfull := htake.full
    have hD := h2.prod_le
    rw [hcount]
    refine ⟨h1.trans h2, fun k hk hlt => ?_⟩
    -- a receive completed by the first round is left alone by the others
    rcases Nat.lt_or_ge k K1 with hk1 | hk1
    · have hcqe := (h2.took.slots (k % s.qp.recvCap.toNat) fun j hj hj' => by
        rw [hcap]; exact slot_ne (by omega) (by omega)).2
      rw [hcqe]
      exact hdone1 k hk hk1
    · have := hdone2 k hk1 hlt
      rw [hcap, (h1.took.kept _).1] at this
      exact this

/-! ## A whole call -/

/-- What is stored and sent after the loop. -/
structure RqpFinished (r : Range) (s : RqpLoop) (res : RqpWork) : Prop where
  qp : res.qp = s.qp.recvConsPut s.recv.pos s.recv.base
  rqp : res.rqp = s.rqp.sendConsPut s.pos r.base
  fault : res.fault = s.fault
  sent : res.abort = false →
    s.fault = none ∧ res.sent = some ⟨r.pos, s.pos, res.rqp.sendCons⟩

lemma rqpWorkFinish_spec (r : Range) (chan : Chan) (s : RqpLoop) :
    RqpFinished r s (rqpWorkFinish r chan s) := by
  simp only [rqpWorkFinish]
  split
  · exact ⟨rfl, rfl, rfl, nofun⟩
  next hfault =>
    split
    · exact ⟨rfl, rfl, rfl, nofun⟩
    · split
      · exact ⟨rfl, rfl, rfl, nofun⟩
      · exact ⟨rfl, rfl, rfl, fun _ => ⟨by simpa using hfault, rfl⟩⟩

/-- The state in which a call leaves its loop. -/
def rqpWorkEnd (dev : Dev) (batch : UInt32) (qp : Qp) (rqp : Rqp) (mem : UInt64 → UInt8) :
    RqpLoop :=
  rqpWorkLoop dev (batchStop batch rqp.sendConsGet)
    (batchStop batch rqp.sendConsGet - rqp.sendConsGet.pos).toNat
    ⟨rqp.sendConsGet.pos, qp.recvConsGet, qp, rqp, mem, false, none⟩

/-- A call does nothing, or goes over a range that is not empty. -/
lemma rqpSendWork_cases (dev : Dev) (batch : UInt32) (qp : Qp) (rqp : Rqp) (mem : UInt64 → UInt8)
    (chan : Chan) :
    rqpSendWork dev batch qp rqp mem chan = ⟨qp, rqp, mem, chan, false, none, false, none⟩ ∨
      rqp.sendConsGet.pos ≠ rqp.sendConsGet.stop ∧ rqpSendWork dev batch qp rqp mem chan =
        rqpWorkFinish rqp.sendConsGet chan (rqpWorkEnd dev batch qp rqp mem) := by
  simp only [rqpSendWork]
  split
  · exact .inl rfl
  · split
    · exact .inl rfl
    next hne =>
      split
      · exact .inl rfl
      · exact .inr ⟨hne, rfl⟩

/-- A call keeps the order of the receive ring, with the consumer moved on over the receives that
were taken. -/
lemma rqpSendWork_ring {M K D P : Nat} (dev : Dev) (batch : UInt32) (rqp : Rqp)
    (mem : UInt64 → UInt8) (chan : Chan) (h : qp.RecvRing M K D P) :
    ∃ K', (rqpSendWork dev batch qp rqp mem chan).qp.RecvRing M K' D P ∧ K ≤ K' ∧
      qp.RecvTook (rqpSendWork dev batch qp rqp mem chan).qp K K' ∧
      ((rqpSendWork dev batch qp rqp mem chan).fault = none →
        qp.RecvDone (rqpSendWork dev batch qp rqp mem chan).qp K K') := by
  obtain hidle | ⟨-, hwork⟩ := rqpSendWork_cases dev batch qp rqp mem chan
  · rw [hidle]
    exact ⟨K, h, Nat.le_refl K, .refl qp K, fun _ k hk hlt => absurd hk (Nat.not_le_of_lt hlt)⟩
  rw [hwork]
  generalize hloop : rqpWorkEnd dev batch qp rqp mem = s
  rw [rqpWorkEnd] at hloop
  obtain ⟨K', htakes, hdone⟩ : ∃ K',
      RqpTakes ⟨_, qp.recvConsGet, qp, rqp, mem, false, none⟩ s K K' D ∧
        (s.fault = none → qp.RecvDone s.qp K K') := by
    by_cases hfault : s.fault = none
    · obtain ⟨k, hrun, -⟩ := rqpWorkLoop_run (by rw [hloop]; exact hfault)
      rw [hloop] at hrun
      exact ⟨_, (hrun.recvs h.consTaking h.prod).imp id fun hdone _ => hdone⟩
    · obtain ⟨K', htakes⟩ : ∃ K',
          RqpTakes ⟨_, qp.recvConsGet, qp, rqp, mem, false, none⟩ s K K' D :=
        hloop ▸ rqpWorkLoop_takes _ _ h.consTaking h.prod
      exact ⟨K', htakes, fun hnone => absurd hnone hfault⟩
  have hfin := rqpWorkFinish_spec rqp.sendConsGet chan s
  have hframe := htakes.took.frame
  have hcap : s.qp.recvCap = qp.recvCap := by rw [hframe]
  have hstands : Idx qp.recvCap (update s.recv.pos s.recv.base qp.recvCap) K' :=
    htakes.stands.update h.cap
  have hle := htakes.le
  have hcmpl := h.cmpl_le
  rw [hfin.qp, hfin.fault]
  refine ⟨K', ?_, hle, ?_, hdone⟩
  · rw [Qp.recvConsPut, hcap, hframe]
    exact ⟨h.cap, h.cmpl, hstands, h.prod, h.post, by omega, htakes.prod_le, h.prod_le, h.full⟩
  · exact ⟨by rw [Qp.recvConsPut, hframe], htakes.took.slots, htakes.took.kept⟩

/-- What a call leaves behind that completed the first `n` entries of its range and sent that
back. -/
structure RqpWorkDone (dev : Dev) (qp : Qp) (rqp : Rqp)
    (mem : UInt64 → UInt8) (n : Nat) (res : RqpWork)
    (s' : RqpLoop) : Prop where
  run : RqpRun dev ⟨rqp.sendConsGet.pos, qp.recvConsGet, qp, rqp, mem, false, none⟩ n s'
  pos : 0 < n
  qp_eq : res.qp = s'.qp.recvConsPut s'.recv.pos s'.recv.base
  rqp_eq : res.rqp = s'.rqp.sendConsPut s'.pos rqp.sendConsGet.base
  sent : res.sent = some ⟨rqp.sendConsGet.pos, s'.pos, res.rqp.sendCons⟩

variable {batch : UInt32}

lemma batchStop_eq {r : Range} (hlt : r.pos.toNat + batch.toNat < 2 ^ 32) :
    (batchStop batch r).toNat = min r.stop.toNat (r.pos.toNat + batch.toNat) := by
  have hsum : (r.pos + batch).toNat = r.pos.toNat + batch.toNat := by
    rw [UInt32.toNat_add, Nat.mod_eq_of_lt hlt]
  rw [batchStop, ← hsum, UInt32.min_def]
  split <;> rename_i hle <;> rw [UInt32.le_iff_toNat_le] at hle <;> omega

lemma rqpSendWork_done {rqp : Rqp} {mem : UInt64 → UInt8} {chan : Chan} {C P : Nat}
    (htake : Taking rqp.sendCap rqp.sendConsGet C P) (hpos : 0 < batch.toNat)
    (hlt : rqp.sendConsGet.pos.toNat + batch.toNat < 2 ^ 32)
    (habort : (rqpSendWork dev batch qp rqp mem chan).abort = false) :
    ((rqpSendWork dev batch qp rqp mem chan).qp = qp ∧
      (rqpSendWork dev batch qp rqp mem chan).rqp = rqp ∧
        (rqpSendWork dev batch qp rqp mem chan).sent = none) ∨
      ∃ n s', n ≤ min (P - C) (rqp.sendCap.toNat - C % rqp.sendCap.toNat) ∧
        (batchStop batch rqp.sendConsGet - rqp.sendConsGet.pos).toNat = n ∧
        (batchStop batch rqp.sendConsGet).toNat = rqp.sendConsGet.pos.toNat + n ∧
        s' = rqpWorkLoop dev (batchStop batch rqp.sendConsGet) n
          ⟨rqp.sendConsGet.pos, qp.recvConsGet, qp, rqp, mem, false, none⟩ ∧
        RqpWorkDone dev qp rqp mem n (rqpSendWork dev batch qp rqp mem chan) s' := by
  have hstop := htake.stop
  have hend := batchStop_eq hlt
  obtain hidle | ⟨hne, hwork⟩ := rqpSendWork_cases dev batch qp rqp mem chan
  · rw [hidle]
    exact .inl ⟨rfl, rfl, rfl⟩
  rw [hwork] at habort ⊢
  rw [ne_eq, ← UInt32.toNat_inj] at hne
  have hn : (batchStop batch rqp.sendConsGet - rqp.sendConsGet.pos).toNat =
      (batchStop batch rqp.sendConsGet).toNat - rqp.sendConsGet.pos.toNat :=
    toNat_sub32 (by omega)
  have hfin := rqpWorkFinish_spec rqp.sendConsGet chan (rqpWorkEnd dev batch qp rqp mem)
  obtain ⟨hfault, hsent⟩ := hfin.sent habort
  obtain ⟨k, hrun, hk⟩ := rqpWorkLoop_run hfault
  obtain rfl := hk (by dsimp only; omega)
  exact .inr ⟨_, _, by omega, rfl, by omega, rfl, hrun, by omega, hfin.qp, hfin.rqp, hsent⟩

end Ntrdma
