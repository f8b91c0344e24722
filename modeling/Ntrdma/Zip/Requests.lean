import Ntrdma.Zip.Basic

/-!
# The requests of a copy

A request that is made is added behind those the channel has, and one that fails adds nothing
(`Chan.Adds`). So whatever a copy returns, the requests that the channel had before are still there,
in the same order (`Chan.Grows`).
-/

namespace Ntrdma

def Chan.Adds (chan : Chan) {α : Type} (res : Except Errno α × Chan) : Prop :=
  match res.1 with
  | .ok _ => ∃ req, res.2.log = chan.log ++ [req]
  | .error _ => res.2.log = chan.log

def Chan.Grows (chan chan' : Chan) : Prop := chan.log <+: chan'.log

lemma Chan.Grows.refl (chan : Chan) : chan.Grows chan := List.prefix_rfl

variable {a b c : Chan}

lemma Chan.Grows.trans (h : a.Grows b) (h' : b.Grows c) : a.Grows c := List.IsPrefix.trans h h'

lemma Chan.Grows.of_log (h : a.Grows b) (hlog : c.log = b.log) : a.Grows c := by
  rw [Chan.Grows, hlog]
  exact h

lemma Chan.Adds.grows {α : Type} {chan : Chan} {res : Except Errno α × Chan} (h : chan.Adds res) :
    chan.Grows res.2 := by
  obtain ⟨_ | a, chan'⟩ := res
  · exact Chan.Grows.of_log (.refl chan) h
  · obtain ⟨req, hlog⟩ := h
    exact ⟨[req], hlog.symm⟩

/-! ## Requests -/

section
variable (chan : Chan)

lemma ntcReqMemcpy_adds (req : DmaReq) (dmaWait : DmaWait) :
    chan.Adds (ntcReqMemcpy chan req dmaWait) := by
  by_cases hlen : req.len = 0
  · have h : ntcReqMemcpy chan req dmaWait = (.error .einval, chan) := if_pos hlen
    rw [h]
    rfl
  · obtain h | ⟨-, e, h⟩ := ntcReqMemcpy_cases chan dmaWait hlen
    · rw [h]
      exact ⟨req, rfl⟩
    · rw [h]
      rfl

lemma ntcRequestMemcpy_adds (dst : RemoteBuf) (dstOffset srcSize srcAddr srcOffset len : UInt64)
    (fence : Bool) (dmaWait : DmaWait) :
    chan.Adds (ntcRequestMemcpy chan dst dstOffset srcSize srcAddr
      srcOffset len fence dmaWait) := by
  rw [ntcRequestMemcpy]
  split
  · rfl
  · split
    · rfl
    · exact ntcReqMemcpy_adds ..

lemma ntcMrRequestMemcpyUnfencedImm_adds (dst : RemoteBuf) (dstOffset : UInt64)
    (data : List UInt8) : chan.Adds (ntcMrRequestMemcpyUnfencedImm chan dst dstOffset data) := by
  rw [ntcMrRequestMemcpyUnfencedImm]
  split
  · rfl
  · rw [ntcReqImm]
    split
    · rfl
    · exact ntcReqMemcpy_adds ..

lemma SndCursor.request_adds (snd : SndCursor) (buf : RemoteBuf) (rcvOff len : UInt64)
    (dmaWait : DmaWait) : chan.Adds (snd.request chan buf rcvOff len dmaWait) := by
  rw [SndCursor.request]
  split
  · exact ntcRequestMemcpy_adds ..
  · exact ntcRequestMemcpy_adds ..
  · rfl

/-! ## Copies -/

variable (dev : Dev)

/-- A round of the copy makes one request if it succeeds, and none if not. -/
lemma cursorNextIo_adds (rcv : RcvCursor) (snd : SndCursor) (dmaWait : DmaWait) :
    chan.Adds (cursorNextIo dev rcv snd chan dmaWait) := by
  simp only [cursorNextIo]
  split
  · rfl
  · split
    · rfl
    next buf hbuf =>
      have hadds := snd.request_adds chan buf rcv.nextIoOff
        (min (sndCursorNextIoSize snd) (rcvCursorNextIoSize rcv)) dmaWait
      split <;> rename_i hreq <;> rw [hreq] at hadds <;> exact hadds

lemma cursorNextImmIo_adds (rcv : RcvCursor) (sndData : List UInt8) :
    chan.Adds (cursorNextImmIo dev rcv sndData chan) := by
  simp only [cursorNextImmIo]
  split
  · rfl
  · split
    · rfl
    next buf hbuf =>
      have hadds := ntcMrRequestMemcpyUnfencedImm_adds chan buf rcv.nextIoOff
        (sndData.take (min (UInt64.ofNat sndData.length) (rcvCursorNextIoSize rcv)).toNat)
      split <;> rename_i hreq <;> rw [hreq] at hadds <;> exact hadds

variable {chan dev}

variable {fuel : Nat} {rcv : RcvCursor}

lemma zipLoop_grows {dmaWait : DmaWait} {snd : SndCursor} {totalLen : UInt32}
    {res : Except Errno UInt32 × Chan}
    (h : zipLoop dev dmaWait fuel snd rcv totalLen chan = some res) : chan.Grows res.2 := by
  induction fuel generalizing snd rcv totalLen chan with
  | zero => cases h
  | succ _ ih =>
    have hgrows := (cursorNextIo_adds chan dev rcv snd dmaWait).grows
    rw [zipLoop] at h
    generalize cursorNextIo dev rcv snd chan dmaWait = next at h hgrows
    obtain ⟨_ | len, chan'⟩ := next
    · cases h
      exact hgrows
    · dsimp only at h
      split at h
      · cases h
        exact hgrows
      · split at h
        · cases h
          exact hgrows
        · cases h
          exact hgrows
        · split at h
          · cases h
            exact hgrows
          · cases h
            exact hgrows
          · exact hgrows.trans (ih h)

lemma zipImmLoop_grows {sndData : List UInt8} {res : Except Errno Unit × Chan}
    (h : zipImmLoop dev fuel rcv sndData chan = some res) : chan.Grows res.2 := by
  induction fuel generalizing rcv sndData chan with
  | zero => cases h
  | succ _ ih =>
    have hgrows := (cursorNextImmIo_adds chan dev rcv sndData).grows
    rw [zipImmLoop] at h
    generalize cursorNextImmIo dev rcv sndData chan = next at h hgrows
    obtain ⟨_ | len, chan'⟩ := next
    · cases h
      exact hgrows
    · dsimp only at h
      split at h
      · cases h
        exact hgrows
      · split at h
        · cases h
          exact hgrows
        · cases h
          exact hgrows
        · exact hgrows.trans (ih h)

variable (chan dev)

lemma zipRdma_grows (rcvSgList : List RcvSge) (sndSgList : List IbSge) (off : UInt32)
    (dmaWait : DmaWait) : chan.Grows (zipRdma dev chan rcvSgList sndSgList off dmaWait).2 := by
  rw [zipRdma]
  cases h : zipRdmaRounds (sndTotal sndSgList) dev chan rcvSgList sndSgList off dmaWait with
  | none => exact .refl chan
  | some =>
    rw [Option.getD_some]
    rw [zipRdmaRounds] at h
    split at h
    · cases h
      exact .refl chan
    · cases h
      exact .refl chan
    · split at h
      · cases h
        exact .refl chan
      · cases h
        exact .refl chan
      · exact zipLoop_grows h

lemma zipRdmaImm_grows (rcvSgList : List RcvSge) (sndData : List UInt8) (off : UInt32) :
    chan.Grows (zipRdmaImm dev chan rcvSgList sndData off).2 := by
  rw [zipRdmaImm]
  cases h : zipRdmaImmRounds sndData.length dev chan rcvSgList sndData off with
  | none => exact .refl chan
  | some =>
    rw [Option.getD_some]
    rw [zipRdmaImmRounds] at h
    split at h
    · cases h
      exact .refl chan
    · split at h
      · cases h
        exact .refl chan
      · cases h
        exact .refl chan
      · exact zipImmLoop_grows h

end

end Ntrdma
