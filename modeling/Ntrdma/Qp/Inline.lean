import Ntrdma.Qp.Ioctl

/-!
# Inline data on the two ways to post a write

`ntrdma_post_send` compares the length of inline data with `send_wqe_inline_cap`. The send ioctl
compares the size of an entry with that of a slot, which is the larger one of the inline data and of
the scatter list a queue pair was created for, and `ntrdma_validate_post_send_wqe` compares the
length with the size of the entry. An inline write is executed by `ntrdma_zip_rdma_imm`. It asks
`ntc_req_imm` for one request per piece of the remote region, and a request that fails ends in
`ntrdma_unrecoverable_err`, which disables the link.
-/

namespace Ntrdma
open Lib Ntrdma.Ring

/-! ## Requests for immediate data -/

/-- A request for immediate data, and if it fails: `ntrdma_unrecoverable_err` is called then. -/
structure ImmAsk where
  len : Nat
  unrecoverable : Bool
  deriving DecidableEq, Repr

/-- The request of `ntrdma_cursor_next_imm_io`, if it gets to one. -/
def cursorImmAsk (dev : Dev) (rcv : RcvCursor) (sndData : List UInt8) (chan : Chan) : List ImmAsk :=
  let len := min (UInt64.ofNat sndData.length) (rcvCursorNextIoSize rcv)
  if 2 ^ 63 ≤ len.toNat then []
  else
    match rcvCursorBuf dev rcv with
    | .error _ => []
    | .ok buf =>
      let data := sndData.take len.toNat
      let (rc, _) := ntcMrRequestMemcpyUnfencedImm chan buf rcv.nextIoOff data
      [⟨data.length, !rc.isOk⟩]

def zipImmAsks (dev : Dev) : Nat → RcvCursor → List UInt8 → Chan → List ImmAsk
  | 0, _, _, _ => []
  | fuel + 1, rcv, sndData, chan =>
    cursorImmAsk dev rcv sndData chan ++
      match cursorNextImmIo dev rcv sndData chan with
      | (.error _, _) => []
      | (.ok len, chan) =>
        let sndData := sndData.drop len.toNat
        if sndData.isEmpty then []
        else
          match rcvCursorForward dev rcv len with
          | (.more, rcv) => zipImmAsks dev fuel rcv sndData chan
          | _ => []

def zipRdmaImmAsks (dev : Dev) (chan : Chan) (rcvSgList : List RcvSge) (sndData : List UInt8)
    (rcvStartOffset : UInt32) : List ImmAsk :=
  if sndData.isEmpty then []
  else
    match rcvCursorUpdate dev (rcvCursorInit rcvSgList rcvStartOffset) with
    | (.more, rcv) => zipImmAsks dev sndData.length rcv sndData chan
    | _ => []

def qpRdmaWriteAsks (dev : Dev) (chan : Chan) (wqe : SendWqe) : List ImmAsk :=
  if ibSgeReserved wqe.rdmaSge then []
  else if isInlineFlag wqe.flags then
    zipRdmaImmAsks dev chan [.direct { wqe.rdmaSge with length := 0xFFFFFFFF }]
      (wqe.tail.take wqe.count.toNat) 0
  else []

variable {dev : Dev} {rcv : RcvCursor} {sndData : List UInt8} {chan : Chan}

lemma cursorImmAsk_mem {ask : ImmAsk} (h : ask ∈ cursorImmAsk dev rcv sndData chan) :
    ask.len ≤ sndData.length ∧
      ask.unrecoverable = !(cursorNextImmIo dev rcv sndData chan).1.isOk := by
  simp only [cursorImmAsk] at h
  simp only [cursorNextImmIo]
  split at h
  · cases h
  next hlen =>
    rw [if_neg hlen]
    cases hbuf : rcvCursorBuf dev rcv with
    | error =>
      rw [hbuf] at h
      cases h
    | ok buf =>
      rw [hbuf] at h
      obtain rfl := List.mem_singleton.1 h
      refine ⟨List.length_take_le' _ _, ?_⟩
      dsimp only
      split <;> rename_i hreq <;> rw [hreq] <;> rfl

lemma zipImmAsks_short {fuel : Nat} (hr : rcv.Ready dev) (hrmr : rcv.rmr.isSome)
    (hkeys : ∀ sge ∈ rcv.rcvSge, sge.remoteKey ≠ reservedDmaLkey) (hne : sndData ≠ [])
    (hshort : sndData.length ≤ immDataBufSize) :
    ∀ ask ∈ zipImmAsks dev fuel rcv sndData chan,
      ask.len ≤ immDataBufSize ∧ (chan.Accepts → ask.unrecoverable = false) := by
  induction fuel generalizing rcv sndData chan with
  | zero => exact fun _ h => absurd h List.not_mem_nil
  | succ _ ih =>
    have himm : immDataBufSize = 8 := rfl
    obtain ⟨d, -, hin⟩ := hr.in_region hrmr
    obtain ⟨len, hpos, hle, hlr, hnext⟩ := cursorNextImmIo_eq chan hin hne (by omega)
    rw [zipImmAsks]
    intro ask hask
    obtain hask | hask := List.mem_append.1 hask
    · obtain ⟨hlen, hfails⟩ := cursorImmAsk_mem hask
      refine ⟨hlen.trans hshort, fun ha => ?_⟩
      obtain hnext | ⟨⟨hbig, -⟩, -⟩ | ⟨hna, -⟩ := hnext
      · rw [hfails, hnext]
        rfl
      · omega
      · exact absurd ha hna
    · obtain hnext | ⟨-, e, hnext⟩ | ⟨-, e, hnext⟩ := hnext
      · rw [hnext] at hask
        dsimp only at hask
        split at hask
        · cases hask
        next hrest =>
          have hmoved := rcvCursorUpdate_spec (hin.advance_wf hlr)
          rw [rcvCursorForward_eq] at hask
          split at hask
          next rcv' hupdate =>
            rw [hupdate] at hmoved
            obtain ⟨hr', -, hsuf⟩ := hmoved
            have hsuf' := hsuf.trans RcvCursor.advance_suffix
            have hrmr' : rcv'.rmr.isSome :=
              rcvCursorUpdate_region (hin.advance_wf hlr)
                (fun sge hsge => hkeys sge (RcvCursor.advance_suffix.subset hsge))
                (fun _ => by rwa [RcvCursor.advance_rmr]) hupdate
            obtain ⟨hlen, hrec⟩ := ih hr' hrmr' (fun sge hsge => hkeys sge (hsuf'.subset hsge))
              (mt List.isEmpty_iff.2 hrest) (by rw [List.length_drop]; omega) ask hask
            exact ⟨hlen, fun ha => hrec (ha.take _)⟩
          · cases hask
      · rw [hnext] at hask
        cases hask
      · rw [hnext] at hask
        cases hask

variable {wqe : SendWqe}

lemma qpRdmaWriteAsks_short (dev : Dev) (chan : Chan) (hcount : wqe.count.toNat ≤ immDataBufSize) :
    ∀ ask ∈ qpRdmaWriteAsks dev chan wqe,
      ask.len ≤ immDataBufSize ∧ (chan.Accepts → ask.unrecoverable = false) := by
  intro ask hask
  simp only [qpRdmaWriteAsks] at hask
  split at hask
  · cases hask
  next hkey =>
    split at hask
    · simp only [zipRdmaImmAsks] at hask
      split at hask
      · cases hask
      next hne =>
        set rcvSgList : List RcvSge := [.direct { wqe.rdmaSge with length := 0xFFFFFFFF }]
        have hkeys : ∀ sge ∈ rcvSgList, sge.remoteKey ≠ reservedDmaLkey := by
          intro sge hsge
          obtain rfl := List.mem_singleton.1 hsge
          simpa [ibSgeReserved, RcvSge.remoteKey] using hkey
        have hwf := rcvCursorInit_wf dev rcvSgList 0
        have hmoved := rcvCursorUpdate_spec hwf
        split at hask
        next rcv hupdate =>
          rw [hupdate] at hmoved
          obtain ⟨hr, -, hsuf⟩ := hmoved
          have hrmr : rcv.rmr.isSome :=
            rcvCursorUpdate_region hwf hkeys (fun h => absurd rfl h) hupdate
          refine zipImmAsks_short hr hrmr (fun sge hsge => hkeys sge (hsuf.subset hsge))
            (mt List.isEmpty_iff.2 hne) ?_ ask hask
          exact (List.length_take_le _ _).trans hcount
        · cases hask
    · cases hask

/-! ## Entries that are admitted -/

inductive Admitted (qp : Qp) : SendWqe → Prop where
  /-- The send ioctl copies the entry from the page and finds it valid. -/
  | ioctl {page off size wqe} (hsize : size.toNat ≤ qp.sendWqeMaxSize)
      (hvalid : validatePostSendWqe (pageWqe page off size) size = (.ok (), wqe)) : Admitted qp wqe
  /-- `ntrdma_post_send` builds the entry for a request. -/
  | post {umem wr wqe} (hbuild : Builds qp umem wr wqe) : Admitted qp wqe

lemma validatePostSendWqe_inline {wqe wqe' : SendWqe} {size : UInt32}
    (h : validatePostSendWqe wqe size = (.ok (), wqe')) (hinline : wqe'.isInline = true) :
    sizeofSendWqe + wqe'.count.toNat = size.toNat := by
  have hlong : sizeofSendWqe ≤ size.toNat := by
    by_contra hshort
    have herr := @validatePostSendWqe_short wqe size (Nat.not_le.1 hshort)
    rw [h] at herr
    cases herr
  simp only [validatePostSendWqe] at h
  split at h
  · cases h
  · split at h
    · cases h
    · split at h
      · split at h
        · cases h
        next hcount =>
          cases h
          have hle : .ofNat sizeofSendWqe ≤ size.toUInt64 := by
            rwa [UInt64.le_iff_toNat_le, UInt32.toNat_toUInt64]
          have hnat := congrArg UInt64.toNat (not_not.1 hcount)
          rw [UInt64.toNat_sub_of_le _ _ hle, UInt32.toNat_toUInt64, UInt32.toNat_toUInt64] at hnat
          have hsum : size.toNat = wqe.count.toNat + sizeofSendWqe :=
            (Nat.sub_eq_iff_eq_add hlong).1 hnat.symm
          rw [hsum, Nat.add_comm]
      next hlist =>
        split at h
        · cases h
        · split at h
          · cases h
          · cases h
            exact absurd hinline hlist

/-- Both ways of posting go by the inline capacity, and an admitted write asks for no more than a
request holds. -/
structure InlineAgree (qp : Qp) : Prop where
  cap : ∀ wqe, Admitted qp wqe → wqe.isInline = true → wqe.count ≤ qp.sendWqeInlineCap
  asks : ∀ wqe, Admitted qp wqe → wqe.isInline = true → ∀ dev chan,
    ∀ ask ∈ qpRdmaWriteAsks dev chan wqe, ask.len ≤ immDataBufSize
  recoverable : ∀ wqe, Admitted qp wqe → wqe.isInline = true → ∀ dev chan, chan.Accepts →
    ∀ ask ∈ qpRdmaWriteAsks dev chan wqe, ask.unrecoverable = false

variable {qp : Qp}

lemma Admitted.inline_le (h : Admitted qp wqe) (hinline : wqe.isInline = true) :
    wqe.count.toNat ≤ max qp.sendWqeInlineCap.toNat (qp.sendWqeSgCap.toNat * sizeofIbSge) := by
  cases h with
  | ioctl hsize hvalid =>
    rw [← validatePostSendWqe_inline hvalid hinline, Qp.sendWqeMaxSize] at hsize
    exact Nat.le_of_add_le_add_left hsize
  | post hbuild =>
    exact le_max_of_le_left (UInt32.le_iff_toNat_le.1 (hbuild.inline_le hinline))

def nineBytesWqe : SendWqe :=
  ⟨7, wrRdmaWrite, 0, 0xFFFFFFFF, ⟨0x20, 0, 2⟩, 0, sendInline, 9, [1, 2, 3, 4, 5, 6, 7, 8, 9]⟩

def wideDev : Dev := { smallDev with rmrLook := fun _ => some ⟨0x20, [⟨0x40, 0xD0⟩], by decide⟩ }

lemma nineBytesWqe_asks : qpRdmaWriteAsks wideDev freshChan nineBytesWqe = [⟨9, true⟩] := by decide

lemma nineBytesWqe_admitted
    (h : 9 ≤ max qp.sendWqeInlineCap.toNat (qp.sendWqeSgCap.toNat * sizeofIbSge)) :
    Admitted qp nineBytesWqe := by
  have hvalid : validatePostSendWqe (pageWqe (pageOf [nineBytesWqe]) 8 57) 57 =
      (.ok (), nineBytesWqe) := by
    decide
  exact .ioctl (show (57 : UInt32).toNat ≤ _ from Nat.add_le_add_left h sizeofSendWqe) hvalid

/-- The two ways of posting agree if and only if the queue pair has no scatter elements and its
inline capacity is that of a request. -/
theorem inline_agree_iff (qp : Qp) :
    InlineAgree qp ↔ qp.sendWqeSgCap = 0 ∧ qp.sendWqeInlineCap.toNat ≤ immDataBufSize := by
  constructor
  · intro h
    by_contra hnot
    have hroom : 9 ≤ max qp.sendWqeInlineCap.toNat (qp.sendWqeSgCap.toNat * sizeofIbSge) := by
      have hsg : qp.sendWqeSgCap = 0 ↔ qp.sendWqeSgCap.toNat = 0 := UInt32.toNat_inj.symm
      rw [hsg] at hnot
      rw [sizeofIbSge]
      rw [immDataBufSize] at hnot
      omega
    have hasks := h.asks _ (nineBytesWqe_admitted hroom) rfl wideDev freshChan ⟨9, true⟩
      (by rw [nineBytesWqe_asks]; exact List.mem_singleton_self _)
    exact absurd hasks (by decide)
  · rintro ⟨hsg, hcap⟩
    have hle : ∀ wqe, Admitted qp wqe → wqe.isInline = true →
        wqe.count.toNat ≤ qp.sendWqeInlineCap.toNat := by
      intro wqe hwqe hinline
      have := hwqe.inline_le hinline
      rw [hsg, UInt32.toNat_zero, Nat.zero_mul, Nat.max_zero] at this
      exact this
    refine ⟨fun wqe hwqe hinline => UInt32.le_iff_toNat_le.2 (hle wqe hwqe hinline), ?_, ?_⟩
    · intro wqe hwqe hinline dev chan ask hask
      exact (qpRdmaWriteAsks_short dev chan ((hle wqe hwqe hinline).trans hcap) ask hask).1
    · intro wqe hwqe hinline dev chan ha ask hask
      exact (qpRdmaWriteAsks_short dev chan ((hle wqe hwqe hinline).trans hcap) ask hask).2 ha

/-- Nine bytes of inline data for a queue pair created for eight: only the ioctl executes them, with
an unrecoverable error. -/
theorem inline_disagree :
    let qp := Qp.fresh 4
    let wr : SendWr := ⟨7, wrRdmaWrite.toUInt32, sendInline, 0, 0x20, 2, [⟨0x10, 9, 1⟩]⟩
    let s := processSendIoctlLocked wideDev qp freshChan (pageOf [nineBytesWqe])
    (qp.sendWqeInlineCap, qp.sendWqeSgCap) = (8, 4) ∧ (ibSendToWqe qp wr).1 = .error .enomem ∧
      s.stores = [(0, nineBytesWqe)] ∧ s.rc = .error .einval ∧
      qpRdmaWriteAsks wideDev freshChan nineBytesWqe = [⟨9, true⟩] ∧ ¬ InlineAgree qp := by
  refine ⟨rfl, rfl, by decide, by decide, nineBytesWqe_asks, fun h => ?_⟩
  exact absurd (h.cap _ (nineBytesWqe_admitted (by decide)) rfl) (by decide)

end Ntrdma
