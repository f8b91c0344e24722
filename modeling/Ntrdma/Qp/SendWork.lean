import Ntrdma.Qp.Post
import Ntrdma.Zip.Requests

/-!
# Sending posted entries

Model of `ntrdma_qp_send_work`, which executes the entries that were left in the send ring and sends
the portion of the ring to the peer.

The ring copy and the producer index are requests like all others, but what matters of them is the
part of the ring they name, so they are returned apart (`SendWork.sent`) and only data goes to the
log of the channel. The doorbell and the interrupt that follow them are left out. The connected
`rqp`, which the source looks up by key, is an argument.
-/

namespace Ntrdma
open Lib Ntrdma.Ring

/-- A portion of a ring that is copied to the peer, and the index that is sent behind it. -/
structure RingSend where
  start : UInt32
  stop : UInt32
  idx : UInt32

/-- A fenced request for a part of a ring or an index (C `ntc_request_memcpy_fenced` with
`NTC_DMA_WAIT`, and `ntc_request_imm32`). -/
def ntcRequestRing (chan : Chan) : Except Errno Unit × Chan :=
  match chan.outcome chan.made with
  | .accept | .blocked => (.ok (), chan.refuse)
  | .noMem => (.error .enomem, chan.refuse)
  | .ioErr => (.error .eio, chan.refuse)

structure SendLoop where
  pos : UInt32
  recv : Range
  qp : Qp
  rqp : Rqp
  chan : Chan
  abort : Bool
  reschedule : Bool

/-- The part of the loop that takes a receive for a send. The result says if it failed, and gives
the receive entry if not. -/
def sendWorkRecv (rqp : Rqp) (recv : Range) (wqe : SendWqe) :
    Except Unit RecvWqe × SendWqe × Range × Rqp :=
  let wqe := { wqe with recvKey := recv.pos + recv.base }
  if recv.pos = recv.stop then
    (.error (),
      { wqe with opStatus := if wqe.opStatus = 0 then wcErrRecvMissing else wqe.opStatus },
      recv, rqp)
  else
    let recvWqe := rqp.recvWqe recv.pos.toNat
    let recv := { recv with pos := recv.pos + 1 }
    if recvWqe.opStatus ≠ 0 then
      (.error (),
        { wqe with opStatus := if wqe.opStatus = 0 then recvWqe.opStatus else wqe.opStatus },
          recv, rqp)
    else
      let (recv, rqp) := rqp.recvNext recv
      (.ok recvWqe, wqe, recv, rqp)

/-- The part of the loop that pushes data. An entry that is not an RDMA write is a send, for which
`recvWqe` was taken. -/
def sendWorkPush (dev : Dev) (chan : Chan) (rqp : Rqp) (wqe : SendWqe) (recvWqe : Option RecvWqe) :
    Except Errno Unit × SendWqe × Chan :=
  if !wrCodePushData wqe.opCode then (.ok (), wqe, chan)
  else if wrCodeIsRdma wqe.opCode then qpRdmaWrite dev chan wqe
  else
    let rcvSgList := (recvWqe.map RecvWqe.rcvSgList).getD []
    -- C `check_recv_wqe_sanity`
    if rcvSgList.length ≤ rqp.recvWqeSgCap.toNat then
      match zipRdma dev chan rcvSgList wqe.sndSgList 0 .wait with
      | (.error e, chan) => (.error e, wqe, chan)
      | (.ok rdmaLen, chan) =>
        (.ok (), { wqe with rdmaSge := { wqe.rdmaSge with length := rdmaLen } }, chan)
    else (.error .einval, wqe, chan)

def SendLoop.put (s : SendLoop) (wqe : SendWqe) : SendLoop :=
  { s with pos := s.pos + 1, qp := s.qp.setSendWqe s.pos wqe }

/-- The part of the loop after a receive was taken. The result says if the loop goes on. -/
def sendWorkEntry (dev : Dev) (s : SendLoop) (wqe : SendWqe) (recvWqe : Option RecvWqe) :
    Bool × SendLoop :=
  if wqe.opStatus ≠ 0 then (false, { s.put wqe with abort := true })
  else
    match sendWorkPush dev s.chan s.rqp wqe recvWqe with
    | (.ok _, wqe, chan) => (true, { s.put wqe with chan })
    | (.error e, wqe, chan) =>
      let opStatus := if e = .eagain then wcErrLocPort else wcErrRdmaRange
      (false, { s.put { wqe with opStatus } with chan, abort := e ≠ .eagain })

/-- One round of the loop in `ntrdma_qp_send_work`. -/
def sendWorkRound (dev : Dev) (s : SendLoop) : Bool × SendLoop :=
  let wqe := s.qp.sendWqe s.pos.toNat
  if wrCodeIsSend wqe.opCode then
    match sendWorkRecv s.rqp s.recv wqe with
    | (.error _, wqe, recv, rqp) =>
      (false, { s.put wqe with recv, rqp, abort := true })
    | (.ok recvWqe, wqe, recv, rqp) => sendWorkEntry dev { s with recv, rqp } wqe (some recvWqe)
  else sendWorkEntry dev s wqe none

/-- The loop of `ntrdma_qp_send_work` up to the end of the range, for as many entries as it has. -/
def sendWorkLoop (dev : Dev) (stop : UInt32) : Nat → SendLoop → SendLoop
  | 0, s => s
  | n + 1, s =>
    match sendWorkRound dev s with
    | (false, s) => s
    | (true, s) => if s.pos = stop then { s with reschedule := true } else sendWorkLoop dev stop n s

/-- The result of `ntrdma_qp_send_work`; `abort` stands for the call of
`ntrdma_unrecoverable_err`. -/
structure SendWork where
  qp : Qp
  rqp : Rqp
  chan : Chan
  reschedule : Bool
  abort : Bool
  sent : Option RingSend

/-- The part of `ntrdma_qp_send_work` after its loop: the indices are stored, and the portion of the
ring and the producer index are sent. -/
def sendWorkFinish (r : Range) (s : SendLoop) : SendWork :=
  let rqp := s.rqp.recvConsPut s.recv.pos s.recv.base
  let qp := s.qp.sendProdPut s.pos r.base
  if s.abort then ⟨qp, rqp, s.chan, s.reschedule, true, none⟩
  else if s.pos = r.pos then ⟨qp, rqp, s.chan, s.reschedule, false, none⟩
  else
    match ntcRequestRing s.chan with
    | (.error _, chan) => ⟨qp, rqp, chan, s.reschedule, true, none⟩
    | (.ok _, chan) =>
      match ntcRequestRing chan with
      | (.error _, chan) => ⟨qp, rqp, chan, s.reschedule, true, none⟩
      | (.ok _, chan) => ⟨qp, rqp, chan, s.reschedule, false, some ⟨r.pos, s.pos, qp.sendProd⟩⟩

def sendWork (dev : Dev) (qp : Qp) (rqp : Rqp) (chan : Chan) : SendWork :=
  let r := qp.sendProdGet
  if r.pos = r.stop then ⟨qp, rqp, chan, false, false, none⟩
  else if qp.sendAbort || qp.sendAborting then ⟨qp, rqp, chan, false, false, none⟩
  else if !isStateRecvReady rqp.state then ⟨qp, rqp, chan, false, false, none⟩
  else
    sendWorkFinish r (sendWorkLoop dev r.stop (r.stop.toNat - r.pos.toNat)
      ⟨r.pos, rqp.recvConsGet, qp, rqp, chan, false, false⟩)

/-! ## A round that goes on -/

/-- An entry without what `ntrdma_qp_send_work` fills in. -/
def SendWqe.core (wqe : SendWqe) : SendWqe :=
  { wqe with recvKey := 0, rdmaSge := { wqe.rdmaSge with length := 0 } }

variable {wqe wqe' : SendWqe}

lemma SendWqe.opCode_of_core (h : wqe'.core = wqe.core) : wqe'.opCode = wqe.opCode := by
  have := congrArg SendWqe.opCode h
  exact this

/-- An entry that has been executed: nothing but the receive key and the length differs. -/
structure Executed (wqe wqe' : SendWqe) : Prop where
  core : wqe'.core = wqe.core
  status : wqe.opStatus = 0

variable {dev : Dev} {chan chan' : Chan}

lemma qpRdmaWrite_core (h : qpRdmaWrite dev chan wqe = (.ok (), wqe', chan')) :
    wqe'.core = wqe.core ∧ wqe'.recvKey = wqe.recvKey := by
  obtain ⟨rdmaLen, rfl, -⟩ := qpRdmaWrite_ok h
  exact ⟨rfl, rfl⟩

variable {rqp : Rqp}

lemma sendWorkPush_ok {recvWqe}
    (h : sendWorkPush dev chan rqp wqe recvWqe = (.ok (), wqe', chan')) :
    wqe'.core = wqe.core ∧ wqe'.recvKey = wqe.recvKey ∧
      (wqe.opCode = wrRdmaWrite → qpRdmaWrite dev chan wqe = (.ok (), wqe', chan')) := by
  simp only [sendWorkPush] at h
  split at h
  next hpush =>
    cases h
    refine ⟨rfl, rfl, fun hop => ?_⟩
    rw [hop] at hpush
    cases hpush
  · split at h
    · exact ⟨(qpRdmaWrite_core h).1, (qpRdmaWrite_core h).2, fun _ => h⟩
    next hrdma =>
      have hno : wqe.opCode = wrRdmaWrite → qpRdmaWrite dev chan wqe = (.ok (), wqe', chan') :=
        fun hop => absurd (by rw [hop]; rfl) hrdma
      split at h
      · split at h
        · cases h
        · cases h
          exact ⟨rfl, rfl, hno⟩
      · cases h

structure SendRound (dev : Dev) (s s' : SendLoop) (wqe' : SendWqe) : Prop where
  executed : Executed (s.qp.sendWqe s.pos.toNat) wqe'
  pos : s'.pos = s.pos + 1
  qp : s'.qp = s.qp.setSendWqe s.pos wqe'
  flags : s'.abort = s.abort ∧ s'.reschedule = s.reschedule
  recv : if wrCodeIsSend wqe'.opCode then
      s.recv.pos ≠ s.recv.stop ∧ wqe'.recvKey = s.recv.pos + s.recv.base ∧
        (s'.recv, s'.rqp) = s.rqp.recvNext { s.recv with pos := s.recv.pos + 1 }
    else (s'.recv, s'.rqp) = (s.recv, s.rqp)
  write : wqe'.opCode = wrRdmaWrite →
    qpRdmaWrite dev s.chan (s.qp.sendWqe s.pos.toNat) = (.ok (), wqe', s'.chan)

variable {s s' : SendLoop}

lemma sendWorkEntry_true {wqe : SendWqe} {recvWqe}
    (h : sendWorkEntry dev s wqe recvWqe = (true, s')) :
    wqe.opStatus = 0 ∧ ∃ wqe' chan, sendWorkPush dev s.chan s.rqp wqe recvWqe =
      (.ok (), wqe', chan) ∧
      s' = { s.put wqe' with chan } := by
  simp only [sendWorkEntry] at h
  split at h
  · cases h
  next hstatus =>
    split at h
    next wqe' chan hpush =>
      cases h
      exact ⟨by simpa using hstatus, wqe', chan, hpush, rfl⟩
    · cases h

lemma sendWorkRound_true (h : sendWorkRound dev s = (true, s')) :
    ∃ wqe', SendRound dev s s' wqe' := by
  simp only [sendWorkRound] at h
  split at h
  next hsend =>
    split at h
    · cases h
    next recvWqe wqe recv rqp hrecv =>
      simp only [sendWorkRecv] at hrecv
      split at hrecv
      · cases hrecv
      next hne =>
        split at hrecv
        · cases hrecv
        · obtain ⟨-, rfl, rfl, rfl⟩ := hrecv
          obtain ⟨hstatus, wqe', chan, hpush, rfl⟩ := sendWorkEntry_true h
          obtain ⟨hcore, hkey, hwrite⟩ := sendWorkPush_ok hpush
          have hop := SendWqe.opCode_of_core hcore
          have hsend' : wrCodeIsSend wqe'.opCode = true := by rw [hop]; exact hsend
          refine ⟨wqe', ⟨hcore, hstatus⟩, rfl, rfl, ⟨rfl, rfl⟩, ?_, fun hw => ?_⟩
          · rw [if_pos hsend']
            exact ⟨hne, hkey, rfl⟩
          · rw [hw] at hsend'
            cases hsend'
  next hsend =>
    obtain ⟨hstatus, wqe', chan, hpush, rfl⟩ := sendWorkEntry_true h
    obtain ⟨hcore, hkey, hwrite⟩ := sendWorkPush_ok hpush
    have hop := SendWqe.opCode_of_core hcore
    refine ⟨wqe', ⟨hcore, hstatus⟩, rfl, rfl, ⟨rfl, rfl⟩, ?_, fun hw => hwrite (hop ▸ hw)⟩
    rw [hop, if_neg hsend]
    rfl

/-! ## A round, whether it goes on or not -/

def Qp.SendFrame (qp qp' : Qp) : Prop :=
  qp' = { qp with sendProd := qp'.sendProd, sendWqe := qp'.sendWqe }

lemma Qp.SendFrame.trans {a b c : Qp} (h : a.SendFrame b) (h' : b.SendFrame c) : a.SendFrame c := by
  rw [Qp.SendFrame] at h h' ⊢
  rw [h', h]

/-- Two entries stand for the same request: their completions are labelled in the same way. -/
structure SendWqe.SameRequest (wqe wqe' : SendWqe) : Prop where
  ulpHandle : wqe'.ulpHandle = wqe.ulpHandle
  opCode : wqe'.opCode = wqe.opCode
  flags : wqe'.flags = wqe.flags

lemma SendWqe.SameRequest.refl (wqe : SendWqe) : wqe.SameRequest wqe := ⟨rfl, rfl, rfl⟩

lemma SendWqe.SameRequest.trans {a b c : SendWqe} (h : a.SameRequest b) (h' : b.SameRequest c) :
    a.SameRequest c :=
  ⟨h'.ulpHandle.trans h.ulpHandle, h'.opCode.trans h.opCode, h'.flags.trans h.flags⟩

def Qp.SameRequests (qp qp' : Qp) : Prop := ∀ p, (qp.sendWqe p).SameRequest (qp'.sendWqe p)

lemma Qp.SameRequests.trans {a b c : Qp} (h : a.SameRequests b) (h' : b.SameRequests c) :
    a.SameRequests c := fun p => (h p).trans (h' p)

lemma Qp.SameRequests.set {qp : Qp} {pos : UInt32} {wqe : SendWqe}
    (h : (qp.sendWqe pos.toNat).SameRequest wqe) : qp.SameRequests (qp.setSendWqe pos wqe) := by
  intro p
  simp only [Qp.setSendWqe]
  by_cases hp : p = pos.toNat
  · subst hp
    rwa [Function.update_self]
  · rw [Function.update_of_ne hp]
    exact .refl _

section
variable (dev : Dev)

lemma qpRdmaWrite_same (chan : Chan) (wqe : SendWqe) :
    wqe.SameRequest (qpRdmaWrite dev chan wqe).2.1 := by
  simp only [qpRdmaWrite]
  split
  · exact .refl wqe
  · split
    · exact .refl wqe
    · exact ⟨rfl, rfl, rfl⟩

/-- A write that fails in the middle leaves the requests that were made before. -/
lemma qpRdmaWrite_grows (chan : Chan) (wqe : SendWqe) :
    chan.Grows (qpRdmaWrite dev chan wqe).2.2 := by
  have himm := zipRdmaImm_grows chan dev [.direct { wqe.rdmaSge with length := 0xFFFFFFFF }]
    (wqe.tail.take wqe.count.toNat) 0
  have hsgl := zipRdma_grows chan dev [.direct { wqe.rdmaSge with length := 0xFFFFFFFF }]
    wqe.sndSgList 0 (if isSignaled wqe.flags then .wait else .dontWait)
  simp only [qpRdmaWrite]
  split
  · exact .refl chan
  · cases isInlineFlag wqe.flags with
    | true => split <;> exact himm
    | false => split <;> exact hsgl

lemma sendWorkPush_kept (chan : Chan) (rqp : Rqp) (wqe : SendWqe) (recvWqe : Option RecvWqe) :
    wqe.SameRequest (sendWorkPush dev chan rqp wqe recvWqe).2.1 ∧
      chan.Grows (sendWorkPush dev chan rqp wqe recvWqe).2.2 := by
  have hsgl := zipRdma_grows chan dev ((recvWqe.map RecvWqe.rcvSgList).getD [])
    wqe.sndSgList 0 .wait
  simp only [sendWorkPush]
  split
  · exact ⟨.refl wqe, .refl chan⟩
  · split
    · exact ⟨qpRdmaWrite_same dev chan wqe, qpRdmaWrite_grows dev chan wqe⟩
    · split
      · split <;> rename_i hzip <;> rw [hzip] at hsgl
        · exact ⟨.refl wqe, hsgl⟩
        · exact ⟨⟨rfl, rfl, rfl⟩, hsgl⟩
      · exact ⟨.refl wqe, .refl chan⟩

/-- A round changes one entry and goes on to the next position; requests are never taken back. -/
structure SendLoop.Went (s s' : SendLoop) : Prop where
  pos : s'.pos = s.pos + 1
  frame : s.qp.SendFrame s'.qp
  same : s.qp.SameRequests s'.qp
  reschedule : s'.reschedule = s.reschedule
  grows : s.chan.Grows s'.chan

lemma sendWorkEntry_went (s : SendLoop) {wqe : SendWqe} (recvWqe : Option RecvWqe)
    (h : (s.qp.sendWqe s.pos.toNat).SameRequest wqe) :
    s.Went (sendWorkEntry dev s wqe recvWqe).2 := by
  obtain ⟨hpush, hgrows⟩ := sendWorkPush_kept dev s.chan s.rqp wqe recvWqe
  simp only [sendWorkEntry]
  split
  · exact ⟨rfl, rfl, .set h, rfl, .refl _⟩
  · split <;> rename_i heq <;> rw [heq] at hpush hgrows
    · exact ⟨rfl, rfl, .set (h.trans hpush), rfl, hgrows⟩
    · exact ⟨rfl, rfl, .set (h.trans ⟨hpush.ulpHandle, hpush.opCode, hpush.flags⟩), rfl, hgrows⟩

lemma sendWorkRound_went (s : SendLoop) : s.Went (sendWorkRound dev s).2 := by
  have hrecv : ∀ rqp recv (wqe : SendWqe), wqe.SameRequest (sendWorkRecv rqp recv wqe).2.1 := by
    intro rqp recv wqe
    simp only [sendWorkRecv]
    split
    · exact ⟨rfl, rfl, rfl⟩
    · split <;> exact ⟨rfl, rfl, rfl⟩
  have hwqe := hrecv s.rqp s.recv (s.qp.sendWqe s.pos.toNat)
  simp only [sendWorkRound]
  split
  · split
    next wqe recv rqp heq =>
      rw [heq] at hwqe
      exact ⟨rfl, rfl, .set hwqe, rfl, .refl _⟩
    next recvWqe wqe recv rqp heq =>
      rw [heq] at hwqe
      exact { sendWorkEntry_went dev { s with recv, rqp } (some recvWqe) hwqe with }
  · exact sendWorkEntry_went dev s none (.refl _)

lemma SendLoop.Went.toNat_pos {s s' : SendLoop} (h : s.Went s') (hlt : s.pos.toNat + 1 < 2 ^ 32) :
    s'.pos.toNat = s.pos.toNat + 1 := by
  rw [h.pos, toNat_succ hlt]

/-- What the loop does, in at most `n` rounds. -/
structure SendLoop.Ran (n : Nat) (s s' : SendLoop) : Prop where
  frame : s.qp.SendFrame s'.qp
  same : s.qp.SameRequests s'.qp
  grows : s.chan.Grows s'.chan
  pos : s.pos.toNat + n < 2 ^ 32 → ∃ k ≤ n, (0 < n → 0 < k) ∧ s'.pos.toNat = s.pos.toNat + k

lemma SendLoop.Went.ran {s s' : SendLoop} (h : s.Went s') (n : Nat) : s.Ran (n + 1) s' :=
  ⟨h.frame, h.same, h.grows, fun hlt =>
    ⟨1, by omega, fun _ => Nat.one_pos, h.toNat_pos (by omega)⟩⟩

lemma sendWorkLoop_ran (stop : UInt32) (n : Nat) (s : SendLoop) :
    s.Ran n (sendWorkLoop dev stop n s) := by
  induction n generalizing s with
  | zero => exact ⟨rfl, fun _ => .refl _, .refl _, fun _ => ⟨0, Nat.le_refl 0, id, rfl⟩⟩
  | succ n ih =>
    have hround := sendWorkRound_went dev s
    rw [sendWorkLoop]
    split <;> rename_i s1 heq <;> rw [heq] at hround
    · exact hround.ran n
    · split
      · exact { hround.ran n with }
      · have hrest := ih s1
        refine ⟨hround.frame.trans hrest.frame, hround.same.trans hrest.same,
          hround.grows.trans hrest.grows, fun hlt => ?_⟩
        have hone : s1.pos.toNat = s.pos.toNat + 1 := hround.toNat_pos (by omega)
        obtain ⟨k, hk, -, hposk⟩ := hrest.pos (by omega)
        exact ⟨k + 1, by omega, fun _ => Nat.succ_pos k, by omega⟩

end

/-! ## A whole range -/

inductive SendRun (dev : Dev) : SendLoop → List SendWqe → SendLoop → Prop where
  | nil (s : SendLoop) : SendRun dev s [] s
  | cons {s s1 s' : SendLoop} {wqe : SendWqe} {wqes : List SendWqe} :
    SendRound dev s s1 wqe → SendRun dev s1 wqes s' → SendRun dev s (wqe :: wqes) s'

lemma sendWorkLoop_run {stop : UInt32} {n : Nat} {s : SendLoop}
    (hstop : stop.toNat = s.pos.toNat + n) (hs : s.reschedule = false)
    (h : (sendWorkLoop dev stop n s).reschedule = true) :
    ∃ wqes s', SendRun dev s wqes s' ∧ wqes.length = n ∧
      sendWorkLoop dev stop n s = { s' with reschedule := true } := by
  induction n generalizing s with
  | zero => exact absurd (hs.symm.trans h) Bool.false_ne_true
  | succ n ih =>
    have hlt := stop.toNat_lt
    simp only [sendWorkLoop] at h ⊢
    split at h
    next s1 hround =>
      have hwent := (sendWorkRound_went dev s).reschedule
      rw [hround] at hwent
      cases (hwent.trans hs).symm.trans h
    next s1 hround =>
      obtain ⟨wqe, hwqe⟩ := sendWorkRound_true hround
      have hpos : s1.pos.toNat = s.pos.toNat + 1 := by
        rw [hwqe.pos, toNat_succ (by omega)]
      split at h
      next hend =>
        have hn : n = 0 := by
          rw [← hend, hpos] at hstop
          omega
        exact ⟨[wqe], s1, .cons hwqe (.nil s1), by rw [hn]; rfl, if_pos hend⟩
      next hend =>
        obtain ⟨wqes, s', hrun, hlen, heq⟩ := ih (by omega) (hwqe.flags.2.trans hs) h
        exact ⟨wqe :: wqes, s', .cons hwqe hrun, congrArg Nat.succ hlen, by rw [if_neg hend, heq]⟩

variable {wqes : List SendWqe}

lemma SendRun.slots (h : SendRun dev s wqes s') (hlt : s.pos.toNat + wqes.length < 2 ^ 32) :
    s'.pos.toNat = s.pos.toNat + wqes.length ∧
      (∀ p, p < s.pos.toNat ∨ s.pos.toNat + wqes.length ≤ p → s'.qp.sendWqe p = s.qp.sendWqe p) ∧
      ∀ k wqe, wqes[k]? = some wqe → s'.qp.sendWqe (s.pos.toNat + k) = wqe ∧
        Executed (s.qp.sendWqe (s.pos.toNat + k)) wqe := by
  induction h with
  | nil => exact ⟨rfl, fun _ _ => rfl, nofun⟩
  | cons hround hrun ih =>
    rename_i s s1 s' wqe wqes
    rw [List.length_cons] at hlt ⊢
    have hpos : s1.pos.toNat = s.pos.toNat + 1 := by
      rw [hround.pos, toNat_succ (by omega)]
    have hother : ∀ p ≠ s.pos.toNat, s1.qp.sendWqe p = s.qp.sendWqe p := by
      intro p hp
      rw [hround.qp]
      exact Function.update_of_ne hp _ _
    obtain ⟨hpos', hframe, hslots⟩ := ih (by omega)
    refine ⟨by omega, fun p hp => (hframe p (by omega)).trans (hother p (by omega)), ?_⟩
    intro k w hk
    cases k with
    | zero =>
      cases hk
      refine ⟨(hframe _ (by omega)).trans ?_, hround.executed⟩
      rw [hround.qp]
      exact Function.update_self _ _ _
    | succ k =>
      obtain ⟨hslot, hexec⟩ := hslots k w hk
      rw [hpos, show s.pos.toNat + 1 + k = s.pos.toNat + (k + 1) by omega] at hslot hexec
      exact ⟨hslot, by rwa [hother _ (by omega)] at hexec⟩

lemma SendRun.frame (h : SendRun dev s wqes s') : s'.qp = { s.qp with sendWqe := s'.qp.sendWqe } ∧
      s'.rqp = { s.rqp with recvCons := s'.rqp.recvCons } ∧ s'.abort = s.abort := by
  induction h with
  | nil => exact ⟨rfl, rfl, rfl⟩
  | cons hround hrun ih =>
    rename_i s s1 s' wqe wqes
    obtain ⟨hqp, hrqp, habort⟩ := ih
    have hrqp1 : s1.rqp = { s.rqp with recvCons := s1.rqp.recvCons } := by
      have hrecv := hround.recv
      split at hrecv
      · have := congrArg Prod.snd hrecv.2.2
        simp only [Rqp.recvNext] at this
        split at this <;> rw [this]
        rfl
      · rw [(Prod.mk.inj hrecv).2]
    refine ⟨?_, ?_, habort.trans hround.flags.1⟩
    · rw [hqp, hround.qp]
      rfl
    · rw [hrqp, hrqp1]

def sendCount (wqes : List SendWqe) : Nat := wqes.countP fun wqe => wrCodeIsSend wqe.opCode

lemma sendCount_cons (wqe : SendWqe) (wqes : List SendWqe) :
    sendCount (wqe :: wqes) = (if wrCodeIsSend wqe.opCode then 1 else 0) + sendCount wqes := by
  rw [sendCount, List.countP_cons, Nat.add_comm, sendCount]

lemma Rqp.recvNext_taking {recv : Range} {R Rp : Nat} (h : Taking rqp.recvCap recv R Rp)
    (hprod : Idx rqp.recvCap rqp.recvProd Rp) (hne : recv.pos ≠ recv.stop) :
    Taking rqp.recvCap (rqp.recvNext { recv with pos := recv.pos + 1 }).1 (R + 1) Rp := by
  simp only [Rqp.recvNext]
  split
  · exact h.reopen hprod hne
  next hlast => exact h.succ hne hlast

lemma SendRun.recvs {R Rp : Nat} (h : SendRun dev s wqes s')
    (htake : Taking s.rqp.recvCap s.recv R Rp) (hprod : Idx s.rqp.recvCap s.rqp.recvProd Rp) :
    Taking s.rqp.recvCap s'.recv (R + sendCount wqes) Rp ∧
      ∀ k wqe, wqes[k]? = some wqe → wrCodeIsSend wqe.opCode = true →
        Idx s.rqp.recvCap wqe.recvKey (R + sendCount (wqes.take k)) := by
  induction h generalizing R with
  | nil => exact ⟨htake, nofun⟩
  | cons hround hrun ih =>
    rename_i s s1 s' wqe wqes
    have hframe := ((SendRun.cons hround (.nil s1)).frame).2.1
    have hcap : s1.rqp.recvCap = s.rqp.recvCap := by rw [hframe]
    have hprod1 : s1.rqp.recvProd = s.rqp.recvProd := by rw [hframe]
    rw [hcap, hprod1] at ih
    have hrecv := hround.recv
    -- the counter moves on for an entry that takes a receive
    have hstep : Taking s.rqp.recvCap s1.recv
        (R + if wrCodeIsSend wqe.opCode then 1 else 0) Rp := by
      split at hrecv
      next hsend =>
        have hnext : s1.recv = _ := congrArg Prod.fst hrecv.2.2
        rw [if_pos hsend, hnext]
        exact Rqp.recvNext_taking htake hprod hrecv.1
      next hsend =>
        have hnext : s1.recv = s.recv := congrArg Prod.fst hrecv
        rw [if_neg hsend, hnext]
        exact htake
    obtain ⟨htake', hkeys⟩ := ih hstep hprod
    refine ⟨?_, fun k w hk hw => ?_⟩
    · rw [sendCount_cons, ← Nat.add_assoc]
      exact htake'
    · cases k with
      | zero =>
        cases hk
        rw [hw, if_pos rfl] at hrecv
        rw [hrecv.2.1]
        exact htake.key
      | succ k =>
        rw [List.take_succ_cons, sendCount_cons, ← Nat.add_assoc]
        exact hkeys k w hk hw

lemma ntcRequestRing_log {rc} (h : ntcRequestRing chan = (rc, chan')) : chan'.log = chan.log := by
  simp only [ntcRequestRing] at h
  split at h <;> cases h <;> rfl

/-- What is stored and sent after the loop. -/
structure SendFinished (r : Range) (s : SendLoop) (res : SendWork) : Prop where
  qp : res.qp = s.qp.sendProdPut s.pos r.base
  rqp : res.rqp = s.rqp.recvConsPut s.recv.pos s.recv.base
  reschedule : res.reschedule = s.reschedule
  log : res.chan.log = s.chan.log
  sent : res.abort = false → s.pos ≠ r.pos → res.sent = some ⟨r.pos, s.pos, res.qp.sendProd⟩
  ok : ∀ portion, res.sent = some portion → res.abort = false

lemma sendWorkFinish_spec (r : Range) (s : SendLoop) : SendFinished r s (sendWorkFinish r s) := by
  simp only [sendWorkFinish]
  split
  · exact ⟨rfl, rfl, rfl, rfl, nofun, nofun⟩
  · split
    next hpos => exact ⟨rfl, rfl, rfl, rfl, fun _ hne => absurd hpos hne, nofun⟩
    · split
      next hreq => exact ⟨rfl, rfl, rfl, ntcRequestRing_log hreq, nofun, nofun⟩
      next hreq =>
        split <;> rename_i hreq' <;>
          have hlog := (ntcRequestRing_log hreq').trans (ntcRequestRing_log hreq)
        · exact ⟨rfl, rfl, rfl, hlog, nofun, nofun⟩
        · exact ⟨rfl, rfl, rfl, hlog, fun _ _ => rfl, fun _ _ => rfl⟩

/-- The state in which a call leaves its loop. -/
def sendWorkEnd (dev : Dev) (qp : Qp) (rqp : Rqp) (chan : Chan) : SendLoop :=
  sendWorkLoop dev qp.sendProdGet.stop (qp.sendProdGet.stop.toNat - qp.sendProdGet.pos.toNat)
    ⟨qp.sendProdGet.pos, rqp.recvConsGet, qp, rqp, chan, false, false⟩

/-- A call does nothing, or goes over a range that is not empty. -/
lemma sendWork_cases (dev : Dev) (qp : Qp) (rqp : Rqp) (chan : Chan) :
    sendWork dev qp rqp chan = ⟨qp, rqp, chan, false, false, none⟩ ∨
      qp.sendProdGet.pos ≠ qp.sendProdGet.stop ∧
        sendWork dev qp rqp chan = sendWorkFinish qp.sendProdGet (sendWorkEnd dev qp rqp chan) := by
  simp only [sendWork]
  split
  · exact .inl rfl
  next hne =>
    split
    · exact .inl rfl
    · split
      · exact .inl rfl
      · exact .inr ⟨hne, rfl⟩

/-- What a call leaves behind that went over the whole range and sent it to the peer. -/
structure SendWorkDone (dev : Dev) (qp : Qp) (rqp : Rqp) (chan : Chan) (n : Nat) (res : SendWork)
    (wqes : List SendWqe) (s' : SendLoop) : Prop where
  run : SendRun dev ⟨qp.sendProdGet.pos, rqp.recvConsGet, qp, rqp, chan, false, false⟩ wqes s'
  length : wqes.length = n
  pos : 0 < n
  qp_eq : res.qp = s'.qp.sendProdPut s'.pos qp.sendProdGet.base
  rqp_eq : res.rqp = s'.rqp.recvConsPut s'.recv.pos s'.recv.base
  log : res.chan.log = s'.chan.log
  sent : res.abort = false → res.sent = some ⟨qp.sendProdGet.pos, s'.pos, res.qp.sendProd⟩

variable {qp : Qp}

lemma sendWork_done {chan : Chan} {D P : Nat} (htake : Taking qp.sendCap qp.sendProdGet D P)
    (hre : (sendWork dev qp rqp chan).reschedule = true) :
    ∃ wqes s', SendWorkDone dev qp rqp chan
      (min (P - D) (qp.sendCap.toNat - D % qp.sendCap.toNat))
        (sendWork dev qp rqp chan) wqes s' := by
  have hstop := htake.stop
  have hlt := qp.sendProdGet.stop.toNat_lt
  obtain hidle | ⟨hne, hwork⟩ := sendWork_cases dev qp rqp chan
  · rw [hidle] at hre
    cases hre
  rw [hwork] at hre ⊢
  have hfin := sendWorkFinish_spec qp.sendProdGet (sendWorkEnd dev qp rqp chan)
  rw [hfin.reschedule] at hre
  simp only [sendWorkEnd, hstop, Nat.add_sub_cancel_left] at hre hfin ⊢
  have hpos : 0 < min (P - D) (qp.sendCap.toNat - D % qp.sendCap.toNat) := by
    rw [ne_eq, ← UInt32.toNat_inj] at hne
    omega
  obtain ⟨wqes, s', hrun, hlen, heq⟩ := sendWorkLoop_run hstop rfl hre
  rw [heq] at hfin ⊢
  have hend := (hrun.slots (by dsimp only; omega)).1
  refine ⟨wqes, s', hrun, hlen, hpos, hfin.qp, hfin.rqp, hfin.log, fun hab =>
    hfin.sent hab fun hstart => ?_⟩
  dsimp only at hend hstart
  rw [hstart, hlen] at hend
  omega

/-- The entries from counter `D` to `P` are posted and have not been sent. -/
structure Qp.Pending (qp : Qp) (D P : Nat) : Prop where
  cap : Cap qp.sendCap
  prod : Idx qp.sendCap qp.sendProd D
  post : Idx qp.sendCap qp.sendPost P
  le : D ≤ P
  full : P ≤ D + qp.sendCap.toNat

lemma Qp.Pending.taking {D P} (h : qp.Pending D P) : Taking qp.sendCap qp.sendProdGet D P :=
  consume_taking h.cap h.post h.prod h.le h.full

section
variable {dev : Dev} {qp : Qp} {rqp : Rqp} {chan : Chan} {D P n : Nat} {res : SendWork}
variable {wqes : List SendWqe} {s' : SendLoop}

lemma SendWorkDone.end (h : SendWorkDone dev qp rqp chan n res wqes s')
    (htake : Taking qp.sendCap qp.sendProdGet D P)
    (hn : n = min (P - D) (qp.sendCap.toNat - D % qp.sendCap.toNat)) :
    s'.pos.toNat = qp.sendProdGet.pos.toNat + n ∧ s'.pos.toNat ≤ qp.sendCap.toNat := by
  have hstop := htake.stop
  have hle := htake.stop_le
  have hlen := h.length
  have hlt := qp.sendProdGet.stop.toNat_lt
  have hpos := (h.run.slots (by dsimp only; omega)).1
  dsimp only at hpos
  exact ⟨by omega, by omega⟩

lemma SendWorkDone.pending (h : SendWorkDone dev qp rqp chan n res wqes s') (hpend : qp.Pending D P)
    (hn : n = min (P - D) (qp.sendCap.toNat - D % qp.sendCap.toNat)) :
    res.qp.Pending (D + n) P := by
  have htake := hpend.taking
  obtain ⟨hend, hcap⟩ := h.end htake hn
  have hle := hpend.le
  have hfull := hpend.full
  rw [h.qp_eq, h.run.frame.1]
  exact ⟨hpend.cap, (htake.stands.add hend hcap).update hpend.cap, hpend.post, by omega,
    by simp only [Qp.sendProdPut]; omega⟩

lemma SendWorkDone.slot (h : SendWorkDone dev qp rqp chan n res wqes s')
    (htake : Taking qp.sendCap qp.sendProdGet D P)
    (hn : n = min (P - D) (qp.sendCap.toNat - D % qp.sendCap.toNat)) {k : Nat} {wqe : SendWqe}
    (hk : wqes[k]? = some wqe) :
    res.qp.sendWqe ((D + k) % qp.sendCap.toNat) = wqe ∧
      Executed (qp.sendWqe ((D + k) % qp.sendCap.toNat)) wqe := by
  have hlen := h.length
  have hstop := htake.stop
  have hlt := qp.sendProdGet.stop.toNat_lt
  have hkn := (List.getElem?_eq_some_iff.1 hk).1
  rw [htake.slot_add (by omega), h.qp_eq]
  exact (h.run.slots (by dsimp only; omega)).2.2 k wqe hk

lemma SendWorkDone.other (h : SendWorkDone dev qp rqp chan n res wqes s')
    (htake : Taking qp.sendCap qp.sendProdGet D P)
    (hn : n = min (P - D) (qp.sendCap.toNat - D % qp.sendCap.toNat)) {p : Nat}
    (hp : ∀ k < n, p ≠ (D + k) % qp.sendCap.toNat) : res.qp.sendWqe p = qp.sendWqe p := by
  have hlen := h.length
  have hstop := htake.stop
  have hlt := qp.sendProdGet.stop.toNat_lt
  rw [h.qp_eq]
  refine (h.run.slots (by dsimp only; omega)).2.1 p ?_
  by_contra hin
  dsimp only at hin
  refine hp (p - qp.sendProdGet.pos.toNat) (by omega) ?_
  rw [htake.slot_add (by omega)]
  omega

lemma SendWorkDone.cores (h : SendWorkDone dev qp rqp chan n res wqes s')
    (htake : Taking qp.sendCap qp.sendProdGet D P)
    (hn : n = min (P - D) (qp.sendCap.toNat - D % qp.sendCap.toNat)) {posted : List SendWqe}
    (hholds : Holds qp.sendCap.toNat qp.sendWqe D posted) (hlen : n ≤ posted.length) :
    wqes.map SendWqe.core = (posted.take n).map SendWqe.core := by
  have hn' := h.length
  refine List.ext_getElem (by simp; omega) fun k h1 h2 => ?_
  simp only [List.length_map] at h1
  have hexec := (h.slot htake hn (List.getElem?_eq_getElem h1)).2
  rw [hholds.getElem? (List.getElem?_eq_getElem (show k < posted.length by omega))] at hexec
  rw [List.getElem_map, List.getElem_map, List.getElem_take]
  exact hexec.core

lemma SendWorkDone.holds (h : SendWorkDone dev qp rqp chan n res wqes s')
    (htake : Taking qp.sendCap qp.sendProdGet D P)
    (hn : n = min (P - D) (qp.sendCap.toNat - D % qp.sendCap.toNat)) {posted : List SendWqe}
    (hholds : Holds qp.sendCap.toNat qp.sendWqe D posted)
    (hlen : posted.length ≤ qp.sendCap.toNat) :
    Holds qp.sendCap.toNat res.qp.sendWqe (D + n) (posted.drop n) := by
  intro k wqe hk
  rw [List.getElem?_drop] at hk
  have hlt := (List.getElem?_eq_some_iff.1 hk).1
  rw [Nat.add_assoc, h.other htake hn fun j hj => ?_]
  · exact hholds _ _ hk
  · exact (slot_ne (show D + j < D + (n + k) by omega) (by omega)).symm

end

/-! ## Whether the work fails or not -/

/-- A call, whether it fails or not, moves the producer index over some of what is pending, and each
entry stays one of its request. -/
structure Qp.Worked (qp qp' : Qp) : Prop where
  frame : qp.SendFrame qp'
  same : qp.SameRequests qp'
  pending : ∀ D P, qp.Pending D P → ∃ D', D ≤ D' ∧ qp'.Pending D' P

lemma Qp.Worked.refl (qp : Qp) : qp.Worked qp :=
  ⟨rfl, fun _ => .refl _, fun D _ h => ⟨D, Nat.le_refl D, h⟩⟩

lemma Qp.Worked.trans {a b c : Qp} (h : a.Worked b) (h' : b.Worked c) : a.Worked c := by
  refine ⟨h.frame.trans h'.frame, h.same.trans h'.same, fun D P hpend => ?_⟩
  obtain ⟨D1, hD1, hpend1⟩ := h.pending D P hpend
  obtain ⟨D2, hD2, hpend2⟩ := h'.pending D1 P hpend1
  exact ⟨D2, hD1.trans hD2, hpend2⟩

section
variable (dev : Dev) (qp : Qp) (rqp : Rqp) (chan : Chan)

lemma sendWork_worked : qp.Worked (sendWork dev qp rqp chan).qp := by
  obtain hidle | ⟨-, hwork⟩ := sendWork_cases dev qp rqp chan
  · rw [hidle]
    exact .refl qp
  rw [hwork, (sendWorkFinish_spec _ _).qp]
  obtain ⟨hframe, hsame, -, hpos⟩ : SendLoop.Ran _ _ (sendWorkEnd dev qp rqp chan) :=
    sendWorkLoop_ran ..
  generalize sendWorkEnd dev qp rqp chan = s at hframe hsame hpos ⊢
  refine ⟨hframe.trans rfl, hsame, fun D P h => ?_⟩
  have htake := h.taking
  have hstop := htake.stop
  have hle := htake.stop_le
  have hDP := h.le
  have hfull := h.full
  have h32 := h.cap.lt
  obtain ⟨k, hk, -, hposk⟩ := hpos (by dsimp only; omega)
  dsimp only at hposk
  refine ⟨D + k, by omega, ?_⟩
  rw [hframe]
  exact ⟨h.cap, (htake.stands.add hposk (by omega)).update h.cap, h.post, by omega,
    by simp only [Qp.sendProdPut]; omega⟩

lemma sendWork_grows : chan.Grows (sendWork dev qp rqp chan).chan := by
  obtain hidle | ⟨-, hwork⟩ := sendWork_cases dev qp rqp chan
  · rw [hidle]
    exact .refl chan
  · have hran : SendLoop.Ran _ _ (sendWorkEnd dev qp rqp chan) := sendWorkLoop_ran ..
    rw [hwork]
    exact hran.grows.of_log (sendWorkFinish_spec _ _).log

end

lemma sendWork_sent {chan : Chan} {r : RingSend} (h : (sendWork dev qp rqp chan).sent = some r) :
    (sendWork dev qp rqp chan).abort = false := by
  obtain hidle | ⟨-, hwork⟩ := sendWork_cases dev qp rqp chan
  · rw [hidle]
  · rw [hwork] at h ⊢
    exact (sendWorkFinish_spec _ _).ok r h

/-- A call that neither sends nor aborts does nothing: every round of its loop moves on. -/
lemma sendWork_idle {chan : Chan} {D P : Nat} (h : qp.Pending D P)
    (hsent : (sendWork dev qp rqp chan).sent = none)
    (habort : (sendWork dev qp rqp chan).abort = false) :
    (sendWork dev qp rqp chan).qp = qp ∧ (sendWork dev qp rqp chan).rqp = rqp := by
  have hstop := h.taking.stop
  have hlt := qp.sendProdGet.stop.toNat_lt
  obtain hidle | ⟨hne, hwork⟩ := sendWork_cases dev qp rqp chan
  · rw [hidle]
    exact ⟨rfl, rfl⟩
  rw [hwork] at hsent habort
  obtain ⟨-, -, -, hpos⟩ : SendLoop.Ran _ _ (sendWorkEnd dev qp rqp chan) := sendWorkLoop_ran ..
  have hrange : qp.sendProdGet.pos.toNat < qp.sendProdGet.stop.toNat := by
    rw [ne_eq, ← UInt32.toNat_inj] at hne
    omega
  obtain ⟨k, -, hk, hposk⟩ := hpos (by dsimp only; omega)
  cases hsent.symm.trans ((sendWorkFinish_spec _ _).sent habort fun heq => by
    rw [heq] at hposk
    dsimp only at hposk
    omega)

end Ntrdma
