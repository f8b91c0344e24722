import Ntrdma.Zip.Copied
import Ntrdma.Zip.RcvCursor
import Ntrdma.Zip.SndCursor

/-!
# Scatter/gather copies are byte exact

`ntrdma_zip_rdma` does what `Lib.lockstep` says of the two flattened lists: the copies it requests,
in order, are the moves of a copy that goes byte by byte, and it fails when there is no such copy,
the total does not fit in 32 bits or the channel refuses a request (`Copied`). One round of the loop
is `cursorNextIo_eq`; the whole loop is `zipLoop_spec`.
-/

namespace Ntrdma
open Lib

/-- The request is not empty, and is from one piece of a send list to one piece of a receive
list. -/
def DmaReq.Within (dev : Dev) (sndSgList : List IbSge) (rcvSgList : List RcvSge) (req : DmaReq) :
    Prop :=
  0 < req.len.toNat ∧
    (∃ sge ∈ sndSgList, ∃ b off, SndPiece dev sge b ∧ req.src = .mem (b.dmaAddr + off) ∧
      off.toNat + req.len.toNat ≤ b.size.toNat) ∧
    ∃ sge ∈ rcvSgList, ∃ b off, RcvPiece dev sge b ∧ req.dst = b.dmaAddr + off ∧
      off.toNat + req.len.toNat ≤ b.size.toNat

lemma DmaReq.Within.mem {dev : Dev} {sndSgList : List IbSge} {rcvSgList : List RcvSge}
    {req : DmaReq} (h : req.Within dev sndSgList rcvSgList) : ∃ a, req.src = .mem a := by
  obtain ⟨-, ⟨sge, -, b, off, -, hsrc, -⟩, -⟩ := h
  exact ⟨_, hsrc⟩

/-- The result of `ntrdma_zip_rdma`, which is the number of bytes copied unless they are too
many. -/
abbrev ZipCopied (dev : Dev) (sndSgList : List IbSge) (rcvSgList : List RcvSge) :=
  Copied DmaReq.moves (DmaReq.Within dev sndSgList rcvSgList)
    (fun n (len : UInt32) => len.toNat = n)
    (2 ^ 32 ≤ ·)

def copyReq (snd : SndCursor) (rcv : RcvCursor) (b : MrBuf) (d : RemoteBuf) (len : UInt64)
    (fence : Bool) : DmaReq where
  dst := d.dmaAddr + rcv.nextIoOff
  src := .mem (b.dmaAddr + snd.nextIoOff)
  len := len
  fence := fence

lemma copyReq_moves (snd : SndCursor) (rcv : RcvCursor) (b : MrBuf) (d : RemoteBuf) (len : UInt64)
    (fence : Bool) : (copyReq snd rcv b d len fence).moves =
      (span (b.dmaAddr + snd.nextIoOff) len.toNat).zip
        (span (d.dmaAddr + rcv.nextIoOff) len.toNat) :=
  rfl

variable {dev : Dev} {snd : SndCursor} {rcv : RcvCursor}

lemma copyReq_within {b d len sndSgList rcvSgList} (hs : snd.Ready dev b) (hr : rcv.In dev d)
    (hpos : 0 < len.toNat) (hls : len ≤ sndCursorNextIoSize snd)
    (hlr : len ≤ rcvCursorNextIoSize rcv) (hsuf : snd.sndSge <:+ sndSgList)
    (hruf : rcv.rcvSge <:+ rcvSgList) (fence : Bool) :
    (copyReq snd rcv b d len fence).Within dev sndSgList rcvSgList := by
  rw [UInt64.le_iff_toNat_le, hs.nextIoSize] at hls
  rw [UInt64.le_iff_toNat_le, hr.nextIoSize] at hlr
  refine ⟨hpos, ?_, ?_⟩
  · obtain ⟨sge, l, hsge, -, hpiece, -⟩ := hs.entry hs.rem
    obtain ⟨t, helems⟩ := hs.elem
    refine ⟨sge, hsuf.subset (by simp [hsge]), b, snd.nextIoOff,
      hpiece b (by simp [helems]), rfl, ?_⟩
    simp only [copyReq]
    omega
  · obtain ⟨sge, l, hsge, -, hpiece, -⟩ := hr.entry hr.rem
    obtain ⟨t, helems⟩ := hr.piece
    refine ⟨sge, hruf.subset (by simp [hsge]), d, rcv.nextIoOff,
      hpiece d (by simp [helems]), rfl, ?_⟩
    simp only [copyReq]
    omega

lemma cursorNextIo_eq {b d} (chan : Chan) (hs : snd.Ready dev b) (hr : rcv.In dev d)
    (dmaWait : DmaWait) :
    ∃ len fence, 0 < len.toNat ∧ len.toNat < 2 ^ 32 ∧ len ≤ sndCursorNextIoSize snd ∧
      len ≤ rcvCursorNextIoSize rcv ∧
      (cursorNextIo dev rcv snd chan dmaWait =
          (.ok len, chan.take (copyReq snd rcv b d len fence)) ∨
        (¬ chan.Accepts ∧ ∃ e, cursorNextIo dev rcv snd chan dmaWait =
          (.error e, chan.refuse))) := by
  obtain ⟨sge, l, hsge, hle, -⟩ := hs.entry hs.rem
  obtain ⟨t, helems⟩ := hs.elem
  have hsrem : snd.sndRem.toNat ≠ 0 := fun h => hs.rem (UInt64.toNat_inj.1 h)
  have hrrem : rcv.rcvRem.toNat ≠ 0 := fun h => hr.rem (UInt64.toNat_inj.1 h)
  have hsin := UInt64.lt_iff_toNat_lt.1 hs.inside
  have hrin := UInt64.lt_iff_toNat_lt.1 hr.inside
  have hsize := hs.nextIoSize
  have hrsize := hr.nextIoSize
  have hlength := sge.length.toNat_lt
  have hlen := UInt64.toNat_min (sndCursorNextIoSize snd) (rcvCursorNextIoSize rcv)
  simp only [cursorNextIo, hr.buf]
  generalize min (sndCursorNextIoSize snd) (rcvCursorNextIoSize rcv) = len at hlen ⊢
  have hpos : 0 < len.toNat := by omega
  -- the source is an element of the region or the buffer of the entry itself
  have hreq : snd.request chan d rcv.nextIoOff len dmaWait = ntcRequestMemcpy chan d rcv.nextIoOff
      b.size b.dmaAddr snd.nextIoOff len snd.mr.isNone dmaWait := by
    cases hmr : snd.mr with
    | some =>
      simp only [SndCursor.elems, hmr] at helems
      simp only [SndCursor.request, hmr, helems, Option.isNone_some]
    | none =>
      simp only [SndCursor.elems, hmr, hsge, List.cons.injEq] at helems
      obtain ⟨rfl, -⟩ := helems
      simp only [SndCursor.request, hmr, hsge, Option.isNone_none]
  refine ⟨len, snd.mr.isNone, hpos, by omega, ?_, ?_, ?_⟩
  · rw [UInt64.le_iff_toNat_le]
    omega
  · rw [UInt64.le_iff_toNat_le]
    omega
  · rw [if_neg (by omega), hreq]
    obtain h | ⟨hna, e, h⟩ := ntcRequestMemcpy_cases chan b.dmaAddr snd.mr.isNone dmaWait hpos
      (show snd.nextIoOff.toNat + len.toNat ≤ b.size.toNat by omega)
      (show rcv.nextIoOff.toNat + len.toNat ≤ d.size.toNat by omega)
    · left
      rw [h]
      rfl
    · right
      refine ⟨hna, e, ?_⟩
      rw [h]

lemma SndCursor.request_empty {buf : RemoteBuf} {rcvOff len dmaWait} (h : buf.size = 0) :
    snd.request chan buf rcvOff len dmaWait = (.error .einval, chan) := by
  simp only [SndCursor.request]
  split
  · exact ntcRequestMemcpy_empty h
  · exact ntcRequestMemcpy_empty h
  · rfl

lemma cursorNextIo_error (snd : SndCursor) (chan : Chan) (dmaWait : DmaWait)
    (h : ∀ d, rcvCursorBuf dev rcv = .ok d → d.size = 0) :
    ∃ e, cursorNextIo dev rcv snd chan dmaWait = (.error e, chan) := by
  simp only [cursorNextIo]
  split
  · exact ⟨_, rfl⟩
  · split
    · exact ⟨_, rfl⟩
    next d hd =>
      rw [SndCursor.request_empty (h d hd)]
      exact ⟨_, rfl⟩

lemma totalLen_overflow {len : UInt64} (hlen : len.toNat < 2 ^ 32) :
    (totalLen.toUInt64 + len ≠ (totalLen + len.toUInt32).toUInt64) ↔
      2 ^ 32 ≤ totalLen.toNat + len.toNat := by
  have := totalLen.toNat_lt
  have hnat : (totalLen.toUInt64 + len).toNat = totalLen.toNat + len.toNat := by
    rw [UInt64.toNat_add, UInt32.toNat_toUInt64, Nat.mod_eq_of_lt (by omega)]
  have hnat' : (totalLen + len.toUInt32).toUInt64.toNat =
      (totalLen.toNat + len.toNat) % 2 ^ 32 := by
    rw [UInt32.toNat_toUInt64, UInt32.toNat_add, UInt64.toNat_toUInt32, Nat.mod_eq_of_lt hlen]
  rw [ne_eq, ← UInt64.toNat_inj, hnat, hnat']
  omega

lemma zipLoop_spec {sndSgList rcvSgList} {fuel : Nat} {b : MrBuf} (dmaWait : DmaWait)
    (totalLen : UInt32) (hs : snd.Ready dev b) (hr : rcv.Ready dev)
    (hsuf : snd.sndSge <:+ sndSgList) (hruf : rcv.rcvSge <:+ rcvSgList)
    (hfuel : (cut (snd.rest dev)).length ≤ fuel) :
    ∃ r, zipLoop dev dmaWait fuel snd rcv totalLen chan = some r ∧
      ZipCopied dev sndSgList rcvSgList totalLen.toNat chan (snd.rest dev) (rcv.rest dev) r := by
  induction fuel generalizing snd rcv totalLen chan b with
  | zero => exact absurd (List.length_eq_zero_iff.1 (Nat.le_zero.1 hfuel)) hs.rest_ne_nil
  | succ _ ih =>
    simp only [zipLoop]
    obtain ⟨d, -, hin⟩ | ⟨hnone, hempty⟩ := hr.buf_cases
    · obtain ⟨len, fence, hpos, hlt, hls, hlr, hnext | ⟨hna, e, hnext⟩⟩ :=
        cursorNextIo_eq chan hs hin dmaWait
      case inr =>
        rw [hnext]
        exact ⟨_, rfl, .refused hna⟩
      have hwithin := copyReq_within hs hin hpos hls hlr hsuf hruf fence
      have hcut : (cut (snd.rest dev)).length = len.toNat +
          (cut ((snd.advance len).rest dev)).length := by
        rw [hs.rest_eq hls, cut_map_some_append, List.length_append, List.length_map, length_span]
      rw [hnext]
      simp only
      split
      next hover =>
        rw [totalLen_overflow hlt] at hover
        exact ⟨_, rfl, .excess (by omega)⟩
      next hfits =>
        rw [totalLen_overflow hlt, not_le] at hfits
        have htotal : (totalLen + len.toUInt32).toNat =
            totalLen.toNat + (span (b.dmaAddr + snd.nextIoOff) len.toNat).length := by
          rw [UInt32.toNat_add, UInt64.toNat_toUInt32, Nat.mod_eq_of_lt hlt, Nat.mod_eq_of_lt hfits,
            length_span]
        -- the requests of the rest come after this one
        have htake : ∀ {r}, ZipCopied dev sndSgList rcvSgList (totalLen + len.toUInt32).toNat
            (chan.take (copyReq snd rcv b d len fence)) ((snd.advance len).rest dev)
            ((rcv.advance len).rest dev) r →
            ZipCopied dev sndSgList rcvSgList totalLen.toNat chan
              (snd.rest dev) (rcv.rest dev) r := by
          intro r h
          rw [htotal] at h
          rw [hs.rest_eq hls, hin.rest_eq hlr]
          exact .take hwithin (copyReq_moves ..) (by simp) h
        have hsnd := sndCursorUpdate_spec (hs.advance_wf hls)
        have hrcv := rcvCursorUpdate_spec (hin.advance_wf hlr)
        rw [sndCursorForward_eq, rcvCursorForward_eq]
        generalize sndCursorUpdate dev (snd.advance len) = rs at hsnd ⊢
        generalize rcvCursorUpdate dev (rcv.advance len) = rr at hrcv ⊢
        cases hsnd with
        | done h => exact ⟨_, rfl, htake (h ▸ .nil rfl)⟩
        | fail h => exact ⟨_, rfl, htake (.no_data h)⟩
        | more hs' hcut' hsuf' =>
          cases hrcv with
          | fail h => exact ⟨_, rfl, htake (.no_loc (hs'.rest_ne_nil_of_cut hcut') h)⟩
          | more hr' hcut'' hruf' =>
            obtain ⟨r, hrun, hcopied⟩ := ih (totalLen + len.toUInt32) hs' hr'
              (hsuf'.trans (SndCursor.advance_suffix.trans hsuf))
              (hruf'.trans (RcvCursor.advance_suffix.trans hruf)) (by rw [hcut']; omega)
            exact ⟨r, hrun, htake (hcopied.of_cut hcut' hcut'')⟩
    · obtain ⟨e, he⟩ := cursorNextIo_error snd chan dmaWait hempty
      rw [he]
      exact ⟨_, rfl, .no_loc (hs.rest_ne_nil_of_cut rfl) (.inr hnone)⟩

/-- `zipRdma` is the copy with enough rounds, and does what the byte-by-byte copy does. -/
lemma zipRdma_spec (dev : Dev) (chan : Chan) (rcvSgList : List RcvSge) (sndSgList : List IbSge)
    (rcvStartOffset : UInt32) (dmaWait : DmaWait) :
    zipRdmaRounds (sndTotal sndSgList) dev chan rcvSgList sndSgList rcvStartOffset dmaWait =
        some (zipRdma dev chan rcvSgList sndSgList rcvStartOffset dmaWait) ∧
      ZipCopied dev sndSgList rcvSgList 0 chan (sndLocs dev sndSgList)
        ((rcvLocs dev rcvSgList).drop rcvStartOffset.toNat)
        (zipRdma dev chan rcvSgList sndSgList rcvStartOffset dmaWait) := by
  suffices h : ∃ r, zipRdmaRounds (sndTotal sndSgList) dev chan rcvSgList sndSgList rcvStartOffset
      dmaWait = some r ∧ ZipCopied dev sndSgList rcvSgList 0 chan (sndLocs dev sndSgList)
        ((rcvLocs dev rcvSgList).drop rcvStartOffset.toNat) r by
    obtain ⟨r, hr, h⟩ := h
    rw [zipRdma, hr]
    exact ⟨rfl, h⟩
  have hsnd := sndCursorUpdate_spec (sndCursorInit_wf dev sndSgList)
  have hrcv := rcvCursorUpdate_spec (rcvCursorInit_wf dev rcvSgList rcvStartOffset)
  simp only [zipRdmaRounds]
  generalize sndCursorUpdate dev (sndCursorInit sndSgList) = rs at hsnd ⊢
  generalize rcvCursorUpdate dev (rcvCursorInit rcvSgList rcvStartOffset) = rr at hrcv ⊢
  cases hsnd with
  | done h =>
    rw [show sndLocs dev sndSgList = [] from h]
    exact ⟨_, rfl, .nil rfl⟩
  | fail h => exact ⟨_, rfl, .no_data h⟩
  | more hs hcut hsuf =>
    cases hrcv with
    | fail h => exact ⟨_, rfl, .no_loc (hs.rest_ne_nil_of_cut hcut) h⟩
    | more hr hcut' hruf =>
      have hfuel := length_cut_le (sndLocs dev sndSgList)
      rw [← show _ = cut (sndLocs dev sndSgList) from hcut, length_sndLocs] at hfuel
      obtain ⟨r, hrun, hcopied⟩ := zipLoop_spec dmaWait 0 hs hr hsuf hruf hfuel
      exact ⟨r, hrun, hcopied.of_cut hcut hcut'⟩

/-- Byte `i` of the send list went to byte `rcvStartOffset + i` of the receive list, for every
`i`. -/
def ZipDone (dev : Dev) (chan chan' : Chan) (rcvSgList : List RcvSge) (sndSgList : List IbSge)
    (rcvStartOffset rdmaLen : UInt32) : Prop :=
  rdmaLen.toNat = sndTotal sndSgList ∧
    ∃ reqs, chan'.log = chan.log ++ reqs ∧ (∀ req ∈ reqs, req.Within dev sndSgList rcvSgList) ∧
      (reqs.flatMap DmaReq.moves).length = sndTotal sndSgList ∧
      ∀ i s r, (reqs.flatMap DmaReq.moves)[i]? = some (s, r) →
        (sndLocs dev sndSgList)[i]? = some (some s) ∧
        (rcvLocs dev rcvSgList)[rcvStartOffset.toNat + i]? = some (some r)

variable {rcvSgList : List RcvSge} {sndSgList : List IbSge} {rcvStartOffset rdmaLen : UInt32}
variable {dmaWait : DmaWait}

lemma zipRdma_ok {chan chan' : Chan}
    (hzip : zipRdma dev chan rcvSgList sndSgList rcvStartOffset dmaWait = (.ok rdmaLen, chan')) :
    rdmaLen.toNat = sndTotal sndSgList ∧ ∃ reqs, chan'.log = chan.log ++ reqs ∧
      lockstep (sndLocs dev sndSgList) ((rcvLocs dev rcvSgList).drop rcvStartOffset.toNat) =
        some (reqs.flatMap DmaReq.moves) ∧
      (reqs.flatMap DmaReq.moves).length = sndTotal sndSgList ∧
      ∀ req ∈ reqs, DmaReq.Within dev sndSgList rcvSgList req := by
  have h := (zipRdma_spec dev chan rcvSgList sndSgList rcvStartOffset dmaWait).2
  rw [hzip] at h
  obtain ⟨moves, htotal, hm, reqs, hlog, rfl, hwithin⟩ := h.of_ok
  have hlen := length_lockstep hm
  rw [length_sndLocs] at hlen
  rw [Nat.zero_add, hlen] at htotal
  exact ⟨htotal, reqs, hlog, hm, hlen, hwithin⟩

lemma zipRdma_done {chan chan' : Chan}
    (hzip : zipRdma dev chan rcvSgList sndSgList rcvStartOffset dmaWait = (.ok rdmaLen, chan')) :
    ZipDone dev chan chan' rcvSgList sndSgList rcvStartOffset rdmaLen := by
  obtain ⟨htotal, reqs, hlog, hm, hlen, hwithin⟩ := zipRdma_ok hzip
  refine ⟨htotal, reqs, hlog, hwithin, hlen, fun i s r hi => ?_⟩
  obtain ⟨hs, hr⟩ := lockstep_getElem? hm hi
  rw [List.getElem?_drop] at hr
  exact ⟨hs, hr⟩

/-- Copies end, are byte exact, and fail exactly when the total does not fit in 32 bits, the receive
list is too short, or a byte of either list does not exist. -/
theorem zipRdma_exact {dev : Dev} {chan : Chan} {rcvSgList : List RcvSge} {sndSgList : List IbSge}
    {rcvStartOffset : UInt32} (dmaWait : DmaWait) (ha : chan.Accepts) :
    zipRdmaRounds (sndTotal sndSgList) dev chan rcvSgList sndSgList rcvStartOffset dmaWait =
        some (zipRdma dev chan rcvSgList sndSgList rcvStartOffset dmaWait) ∧
      (∀ rdmaLen chan', zipRdma dev chan rcvSgList sndSgList rcvStartOffset dmaWait =
          (.ok rdmaLen, chan') → ZipDone dev chan chan' rcvSgList
            sndSgList rcvStartOffset rdmaLen) ∧
      ((∃ e chan', zipRdma dev chan rcvSgList sndSgList rcvStartOffset dmaWait =
          (.error e, chan')) ↔
        2 ^ 32 ≤ sndTotal sndSgList ∨
        ((rcvLocs dev rcvSgList).drop rcvStartOffset.toNat).length < sndTotal sndSgList ∨
        none ∈ sndLocs dev sndSgList ∨
        none ∈ ((rcvLocs dev rcvSgList).drop rcvStartOffset.toNat).take (sndTotal sndSgList)) := by
  obtain ⟨hrounds, h⟩ := zipRdma_spec dev chan rcvSgList sndSgList rcvStartOffset dmaWait
  refine ⟨hrounds, fun _ _ hzip => zipRdma_done hzip, ?_⟩
  clear hrounds
  generalize zipRdma dev chan rcvSgList sndSgList rcvStartOffset dmaWait = r at h ⊢
  have hsome := @lockstep_isSome _ _ (sndLocs dev sndSgList)
    ((rcvLocs dev rcvSgList).drop rcvStartOffset.toNat)
  rw [length_sndLocs] at hsome
  cases h with
  | @ok rdmaLen _ _ htotal hm =>
    have hlt := rdmaLen.toNat_lt
    rw [htotal, Nat.zero_add, length_lockstep hm, length_sndLocs] at hlt
    obtain ⟨hall, hle, hall'⟩ := hsome.1 (by rw [hm]; rfl)
    refine ⟨nofun, ?_⟩
    rintro (h | h | h | h)
    · omega
    · omega
    · exact absurd (hall _ h) nofun
    · exact absurd (hall' _ h) nofun
  | excess =>
    have hcut := length_cut_le (sndLocs dev sndSgList)
    rw [length_sndLocs] at hcut
    exact ⟨fun _ => .inl (by omega), fun _ => ⟨_, _, rfl⟩⟩
  | refused hna => exact absurd ha hna
  | missing hm =>
    refine ⟨fun _ => ?_, fun _ => ⟨_, _, rfl⟩⟩
    by_contra hcon
    push Not at hcon
    obtain ⟨-, hle, hnone, hnone'⟩ := hcon
    have h := hsome.2 ⟨fun b hb => ?_, hle, fun b hb => ?_⟩
    · rw [hm] at h
      cases h
    · exact Option.isSome_iff_ne_none.2 fun h => hnone (h ▸ hb)
    · exact Option.isSome_iff_ne_none.2 fun h => hnone' (h ▸ hb)

def smallDev : Dev where
  ntc := ⟨fun _ => ⟨0x1000, 0x100, 0, 0x100⟩, fun addr _ => some addr⟩
  mrLook key := if key = 1 then some ⟨0x10, 0,
    [⟨2, 0xA0⟩, ⟨0, 0xB0⟩, ⟨4, 0xC0⟩], by decide⟩ else none
  rmrLook key := if key = 2 then some ⟨0x20, [⟨3, 0xD0⟩, ⟨0, 0xE0⟩, ⟨2, 0xF0⟩], by decide⟩ else none

def freshChan : Chan := ⟨fun _ => .accept, 0, []⟩

lemma freshChan_accepts : freshChan.Accepts := fun _ => rfl

theorem zipRdma_exact_four :
    ∃ chan', zipRdma smallDev freshChan
        [.direct ⟨0x21, 3, 2⟩, .shadow ⟨.mr 7 0, ⟨4, 0⟩⟩ ⟨8, 4⟩]
        [⟨0x11, 3, 1⟩, ⟨0, 0, 1⟩, ⟨0x900, 1, reservedDmaLkey⟩] 1 .dontWait = (.ok 4, chan') ∧
      ZipDone smallDev freshChan chan'
        [.direct ⟨0x21, 3, 2⟩, .shadow ⟨.mr 7 0, ⟨4, 0⟩⟩ ⟨8, 4⟩]
        [⟨0x11, 3, 1⟩, ⟨0, 0, 1⟩, ⟨0x900, 1, reservedDmaLkey⟩] 1 4 :=
  ⟨_, rfl, (zipRdma_exact .dontWait freshChan_accepts).2.1 _ _ rfl⟩

end Ntrdma
