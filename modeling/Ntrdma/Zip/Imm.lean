import Ntrdma.Zip.Copied
import Ntrdma.Zip.RcvCursor

/-!
# Inline data is written byte exact

The counterpart of `Ntrdma.Zip.Exact` for `ntrdma_zip_rdma_imm`, whose source is inline data. Each
request holds the bytes themselves, at most `immDataBufSize` of them, so a write can also fail
because a piece of the receive list takes more bytes at once.
-/

namespace Ntrdma
open Lib

def HasLongPiece (dev : Dev) (rcvSgList : List RcvSge) : Prop :=
  ∃ sge ∈ rcvSgList, ∃ b, RcvPiece dev sge b ∧ immDataBufSize < b.size.toNat

/-- The result of `ntrdma_zip_rdma_imm`. -/
abbrev ImmCopied (dev : Dev) (rcvSgList : List RcvSge) :=
  Copied DmaReq.puts (fun req => ∃ data, req.src = .imm data ∧ data.length = req.len.toNat)
    (fun _ (_ : Unit) => True) fun n => immDataBufSize < n ∧ HasLongPiece dev rcvSgList

def immReq (rcv : RcvCursor) (d : RemoteBuf) (data : List UInt8) : DmaReq where
  dst := d.dmaAddr + rcv.nextIoOff
  src := .imm data
  len := .ofNat data.length
  fence := false

variable {dev : Dev} {rcv : RcvCursor}

lemma cursorNextImmIo_eq {d sndData} (chan : Chan) (hr : rcv.In dev d) (hne : sndData ≠ [])
    (hlt : sndData.length < 2 ^ 32) :
    ∃ len : UInt64, 0 < len.toNat ∧ len.toNat ≤ sndData.length ∧ len ≤ rcvCursorNextIoSize rcv ∧
      (cursorNextImmIo dev rcv sndData chan =
          (.ok len, chan.take (immReq rcv d (sndData.take len.toNat))) ∨
        ((immDataBufSize < len.toNat ∧ immDataBufSize < d.size.toNat) ∧
          ∃ e, cursorNextImmIo dev rcv sndData chan = (.error e, chan)) ∨
        (¬ chan.Accepts ∧ ∃ e, cursorNextImmIo dev rcv sndData chan =
          (.error e, chan.refuse))) := by
  have hrrem : rcv.rcvRem.toNat ≠ 0 := fun h => hr.rem (UInt64.toNat_inj.1 h)
  have hrin := UInt64.lt_iff_toNat_lt.1 hr.inside
  have hrsize := hr.nextIoSize
  have hdata : 0 < sndData.length := List.length_pos_iff.2 hne
  have hlen := UInt64.toNat_min (UInt64.ofNat sndData.length) (rcvCursorNextIoSize rcv)
  rw [UInt64.toNat_ofNat_of_lt' (show sndData.length < 2 ^ 64 by omega)] at hlen
  simp only [cursorNextImmIo, hr.buf]
  generalize min (UInt64.ofNat sndData.length) (rcvCursorNextIoSize rcv) = len at hlen ⊢
  have htake : (sndData.take len.toNat).length = len.toNat := by
    rw [List.length_take]
    omega
  refine ⟨len, by omega, by omega, ?_, ?_⟩
  · rw [UInt64.le_iff_toNat_le]
    omega
  · rw [if_neg (by omega)]
    simp only [ntcMrRequestMemcpyUnfencedImm, ntcReqImm, htake, UInt64.ofNat_toNat]
    rw [ntcSegmentValid_of_le (by omega) (by omega)]
    by_cases hbig : len.toNat = 0 ∨ immDataBufSize < len.toNat
    · refine .inr (.inl ⟨⟨by omega, by omega⟩, .einval, ?_⟩)
      simp [hbig]
    · have hne0 : len ≠ 0 := fun h => hbig (.inl (by rw [h]; rfl))
      have himm : immReq rcv d (sndData.take len.toNat) =
          ⟨d.dmaAddr + rcv.nextIoOff, .imm (sndData.take len.toNat), len, false⟩ := by
        rw [immReq, htake, UInt64.ofNat_toNat]
      rw [← himm]
      have hreq0 : (immReq rcv d (sndData.take len.toNat)).len ≠ 0 := by rwa [himm]
      obtain h | ⟨hna, e, h⟩ := ntcReqMemcpy_cases chan .wait hreq0
      · exact .inl (by simp [hbig, h])
      · exact .inr (.inr ⟨hna, e, by simp [hbig, h]⟩)

lemma cursorNextImmIo_error (sndData : List UInt8) (chan : Chan)
    (h : ∀ d, rcvCursorBuf dev rcv = .ok d → d.size = 0) :
    ∃ e, cursorNextImmIo dev rcv sndData chan = (.error e, chan) := by
  simp only [cursorNextImmIo]
  split
  · exact ⟨_, rfl⟩
  · split
    · exact ⟨_, rfl⟩
    next d hd =>
      have hinvalid : ∀ off len, ntcSegmentValid d.size off len = false := by
        simp [ntcSegmentValid, h d hd]
      simp [ntcMrRequestMemcpyUnfencedImm, hinvalid]

lemma zipImmLoop_spec {rcvSgList} {fuel total : Nat} {sndData : List UInt8} (chan : Chan)
    (hr : rcv.Ready dev) (hruf : rcv.rcvSge <:+ rcvSgList) (hne : sndData ≠ [])
    (hlt : sndData.length < 2 ^ 32) (hfuel : sndData.length ≤ fuel) :
    ∃ r, zipImmLoop dev fuel rcv sndData chan = some r ∧
      ImmCopied dev rcvSgList total chan (sndData.map some) (rcv.rest dev) r := by
  induction fuel generalizing rcv sndData chan total with
  | zero => exact absurd (List.length_eq_zero_iff.1 (Nat.le_zero.1 hfuel)) hne
  | succ _ ih =>
    simp only [zipImmLoop]
    obtain ⟨d, -, hin⟩ | ⟨hnone, hempty⟩ := hr.buf_cases
    · obtain ⟨len, hpos, hle, hlr, hnext | ⟨⟨hbig, hlong⟩, e, hnext⟩ | ⟨hna, e, hnext⟩⟩ :=
        cursorNextImmIo_eq chan hin hne hlt
      · have htake : (sndData.take len.toNat).length = len.toNat := List.length_take_of_le hle
        have hputs : (immReq rcv d (sndData.take len.toNat)).puts =
            (sndData.take len.toNat).zip (span (d.dmaAddr + rcv.nextIoOff) len.toNat) := by
          simp only [DmaReq.puts, immReq, htake, UInt64.ofNat_toNat]
        have hmap : sndData.map some = (sndData.take len.toNat).map some ++
            (sndData.drop len.toNat).map some := by
          rw [← List.map_append, List.take_append_drop]
        have hreq : ∃ data, (immReq rcv d (sndData.take len.toNat)).src = .imm data ∧
            data.length = (immReq rcv d (sndData.take len.toNat)).len.toNat :=
          ⟨_, rfl, by rw [immReq, htake, UInt64.ofNat_toNat]⟩
        rw [hnext, hin.rest_eq hlr, hmap]
        simp only
        split
        next hdone =>
          rw [List.isEmpty_iff.1 hdone]
          exact ⟨_, rfl, .take hreq hputs (by rw [htake, length_span]) (.nil trivial)⟩
        next hmore =>
          have hne' : sndData.drop len.toNat ≠ [] := fun h => hmore (List.isEmpty_iff.2 h)
          have hdrop : (sndData.drop len.toNat).length = sndData.length -
            len.toNat := List.length_drop
          have hrcv := rcvCursorUpdate_spec (hin.advance_wf hlr)
          rw [rcvCursorForward_eq]
          generalize rcvCursorUpdate dev (rcv.advance len) = rr at hrcv ⊢
          cases hrcv with
          | fail h =>
            exact ⟨_, rfl, .take hreq hputs (by rw [htake, length_span])
              (.no_loc (by simpa using hne') h)⟩
          | more hr' hcut hruf' =>
            obtain ⟨r, hrun, hcopied⟩ := ih (chan.take (immReq rcv d (sndData.take len.toNat))) hr'
              (hruf'.trans (RcvCursor.advance_suffix.trans hruf)) hne' (by omega) (by omega)
            exact ⟨r, hrun, .take hreq hputs (by rw [htake, length_span]) (hcopied.of_cut rfl hcut)⟩
      · obtain ⟨sge, l, hsge, -, hpiece, -⟩ := hin.entry hin.rem
        obtain ⟨t, helems⟩ := hin.piece
        have hcut : (cut (sndData.map some)).length = sndData.length := by
          have h := cut_map_some_append (l := []) sndData
          rw [List.append_nil] at h
          rw [h]
          simp
        rw [hnext]
        exact ⟨_, rfl, .excess ⟨by omega, sge, hruf.subset (by simp [hsge]), d,
          hpiece d (by simp [helems]), hlong⟩⟩
      · rw [hnext]
        exact ⟨_, rfl, .refused hna⟩
    · obtain ⟨e, he⟩ := cursorNextImmIo_error sndData chan hempty
      rw [he]
      exact ⟨_, rfl, .no_loc (by simpa using hne) (.inr hnone)⟩

lemma zipRdmaImmRounds_spec (dev : Dev) (chan : Chan) (rcvSgList : List RcvSge)
    (sndData : List UInt8) (rcvStartOffset : UInt32) (hlt : sndData.length < 2 ^ 32) :
    ∃ r, zipRdmaImmRounds sndData.length dev chan rcvSgList sndData rcvStartOffset = some r ∧
      ImmCopied dev rcvSgList 0 chan (sndData.map some)
        ((rcvLocs dev rcvSgList).drop rcvStartOffset.toNat) r := by
  simp only [zipRdmaImmRounds]
  split
  next hempty =>
    rw [List.isEmpty_iff.1 hempty]
    exact ⟨_, rfl, .nil trivial⟩
  next hne =>
    have hne : sndData ≠ [] := fun h => hne (List.isEmpty_iff.2 h)
    have hrcv := rcvCursorUpdate_spec (rcvCursorInit_wf dev rcvSgList rcvStartOffset)
    generalize rcvCursorUpdate dev (rcvCursorInit rcvSgList rcvStartOffset) = rr at hrcv ⊢
    cases hrcv with
    | fail h => exact ⟨_, rfl, .no_loc (by simpa using hne) h⟩
    | more hr hcut hruf =>
      obtain ⟨r, hrun, hcopied⟩ := zipImmLoop_spec chan hr hruf hne hlt (Nat.le_refl sndData.length)
      exact ⟨r, hrun, hcopied.of_cut rfl hcut⟩

lemma zipRdmaImm_spec (dev : Dev) (chan : Chan) (rcvSgList : List RcvSge) (sndData : List UInt8)
    (rcvStartOffset : UInt32) (hlt : sndData.length < 2 ^ 32) :
    ImmCopied dev rcvSgList 0 chan (sndData.map some)
      ((rcvLocs dev rcvSgList).drop rcvStartOffset.toNat)
      (zipRdmaImm dev chan rcvSgList sndData rcvStartOffset) := by
  obtain ⟨r, hr, h⟩ := zipRdmaImmRounds_spec dev chan rcvSgList sndData rcvStartOffset hlt
  rw [zipRdmaImm, hr]
  exact h

end Ntrdma
