import Ntrdma.Ntc.Window

/-!
# Descriptions of parts of a buffer

Model of `ntc_export_buf_make_partial_desc`, `ntc_remote_buf_desc_clip` and
`ntc_export_buf_get_part_params`: the owner describes a part of an exported buffer, either side cuts
the description down further, and the owner reads the part back from it.

A description stands for a part if its offset is that of the buffer and the start of the part
(`ExportedBuf.Part`). Clipping keeps that, with the starts added up, as long as the offsets of the
bytes of the buffer fit the 61 bits of the field; the owner reads the start off again
(`partialDesc_readBack`).
-/

namespace Ntrdma

/-! ## The functions -/

def chanAddrSetOffset (value offset : UInt64) : UInt64 :=
  (value &&& 0xE000000000000000) ||| (offset &&& 0x1FFFFFFFFFFFFFFF)

def ntcExportBufMakePartialDesc (buf : ExportedBuf) (offset len : UInt64) :
    Except Errno RemoteBufDesc :=
  if buf.dmaAddr = 0 then .error .einval
  else if ntcSegmentValid buf.size offset len = false then .error .einval
  else
    let desc := buf.makeDesc
    .ok ⟨chanAddrSetOffset desc.chanAddr (chanAddrOffset desc.chanAddr + offset), len⟩

def ntcRemoteBufDescClip (desc : RemoteBufDesc) (offset len : UInt64) :
    Except Errno RemoteBufDesc :=
  if ntcSegmentValid desc.size offset len = false then .error .einval
  else .ok ⟨chanAddrSetOffset desc.chanAddr (chanAddrOffset desc.chanAddr + offset), len⟩

def s64Neg (x : UInt64) : Prop := x ≥ 0x8000000000000000

instance (x : UInt64) : Decidable (s64Neg x) := inferInstanceAs (Decidable (x ≥ 0x8000000000000000))

/-- The local `soffset` of `ntc_export_buf_get_part_params`. -/
def partSoffset (buf : ExportedBuf) (desc : RemoteBufDesc) : UInt64 :=
  if chanAddrIsFlat desc.chanAddr then chanAddrOffset desc.chanAddr - buf.dmaAddr
  else chanAddrOffset desc.chanAddr - (buf.dmaAddr - buf.mwBase)

/-- C `ntc_export_buf_get_part_params`: the return code, and the offset and the length, which are
stored in all cases. -/
def ntcExportBufGetPartParams (buf : ExportedBuf) (desc : RemoteBufDesc) :
    Except Errno Unit × UInt64 × UInt64 :=
  let rc : Except Errno Unit :=
    if buf.dmaAddr = 0 then .error .einval
    else if s64Neg (partSoffset buf desc) then .error .einval
    else if ntcSegmentValid buf.size (partSoffset buf desc) desc.size = false then .error .einval
    else if buf.mwIdx ≠ chanAddrMwIdx desc.chanAddr then .error .einval
    else if buf.isFlat ≠ chanAddrIsFlat desc.chanAddr then .error .einval
    else .ok ()
  (rc, partSoffset buf desc, desc.size)

def clipAll (desc : RemoteBufDesc) : List (UInt64 × UInt64) → Except Errno RemoteBufDesc
  | [] => .ok desc
  | (offset, len) :: rest =>
    match ntcRemoteBufDescClip desc offset len with
    | .error e => .error e
    | .ok desc => clipAll desc rest

def partialDesc (buf : ExportedBuf) (offset len : UInt64) (clips : List (UInt64 × UInt64)) :
    Except Errno RemoteBufDesc :=
  match ntcExportBufMakePartialDesc buf offset len with
  | .error e => .error e
  | .ok desc => clipAll desc clips

/-! ## The fields of an address -/

lemma chanAddrOffset_setOffset (value : UInt64) {offset : UInt64} (h : offset.toNat < 2 ^ 61) :
    chanAddrOffset (chanAddrSetOffset value offset) = offset := by
  rw [chanAddrSetOffset, chanAddrOffset_or, and_offset_mask h]
  rw [UInt64.and_assoc, show (0xE000000000000000 : UInt64) &&& 0x1FFFFFFFFFFFFFFF = 0 by decide,
    UInt64.and_zero]

lemma chanAddrIsFlat_setOffset (value offset : UInt64) :
    chanAddrIsFlat (chanAddrSetOffset value offset) = chanAddrIsFlat value := by
  have hmask : (0xE000000000000000 : UInt64) >>> 61 &&& 1 = 1 := by decide
  rw [chanAddrIsFlat, chanAddrSetOffset, (chanAddr_high _ offset).1, UInt64.shiftRight_and,
    UInt64.and_assoc, hmask, chanAddrIsFlat]

lemma chanAddrMwIdx_setOffset (value offset : UInt64) :
    chanAddrMwIdx (chanAddrSetOffset value offset) = chanAddrMwIdx value := by
  have hmask : (0xE000000000000000 : UInt64) >>> 62 &&& 1 = 1 := by decide
  rw [chanAddrMwIdx, chanAddrSetOffset, (chanAddr_high _ offset).2, UInt64.shiftRight_and,
    UInt64.and_assoc, hmask, chanAddrMwIdx]

lemma ntcSegmentValid_iff {size offset len : UInt64} (hsize : size.toNat ≤ 2 ^ 63) :
    ntcSegmentValid size offset len = true ↔
      offset.toNat < size.toNat ∧ offset.toNat + len.toNat ≤ size.toNat := by
  refine ⟨fun h => ⟨?_, le_of_ntcSegmentValid hsize h⟩, fun h => ?_⟩
  · by_contra hle
    rw [ntcSegmentValid, if_pos (UInt64.le_iff_toNat_le.2 (Nat.le_of_not_lt hle))] at h
    cases h
  · have hlt := size.toNat_lt
    simp only [ntcSegmentValid, UInt64.le_iff_toNat_le, UInt64.lt_iff_toNat_lt, UInt64.toNat_add]
    rw [if_neg (by omega), if_neg (by omega), if_neg (by omega)]

/-! ## Parts -/

namespace ExportedBuf

def Fits (buf : ExportedBuf) : Prop := ∀ i < buf.size.toNat, buf.offset.toNat + i < 2 ^ 61

/-- The description is that of the part of the buffer that begins at `start`. -/
structure Part (buf : ExportedBuf) (desc : RemoteBufDesc) (start : Nat) : Prop where
  mwIdx : chanAddrMwIdx desc.chanAddr = buf.mwIdx
  isFlat : chanAddrIsFlat desc.chanAddr = buf.isFlat
  offset : (chanAddrOffset desc.chanAddr).toNat = buf.offset.toNat + start
  starts : start < buf.size.toNat
  ends : start + desc.size.toNat ≤ buf.size.toNat

variable {buf : ExportedBuf} {desc desc' : RemoteBufDesc} {start : Nat}

lemma Fits.offset_lt (h : buf.Fits) (hsize : 0 < buf.size.toNat) :
    buf.offset.toNat + buf.size.toNat ≤ 2 ^ 61 := by
  have := h (buf.size.toNat - 1) (by omega)
  omega

lemma Fits.size_le (h : buf.Fits) : buf.size.toNat ≤ 2 ^ 61 := by
  by_cases hsize : 0 < buf.size.toNat
  · have := h.offset_lt hsize
    omega
  · omega

lemma Part.forward (hfits : buf.Fits) (hpart : buf.Part desc start) {offset len : UInt64}
    (hstart : offset.toNat < desc.size.toNat) (hlen : offset.toNat + len.toNat ≤ desc.size.toNat) :
    buf.Part ⟨chanAddrSetOffset desc.chanAddr (chanAddrOffset desc.chanAddr + offset), len⟩
      (start + offset.toNat) := by
  have hends := hpart.ends
  have hstarts : start + offset.toNat < buf.size.toNat := by omega
  have hsum : (chanAddrOffset desc.chanAddr + offset).toNat = buf.offset.toNat +
      (start + offset.toNat) := by
    have := hfits _ hstarts
    have hoffset := hpart.offset
    rw [UInt64.toNat_add, Nat.mod_eq_of_lt (by omega)]
    omega
  refine ⟨?_, ?_, ?_, hstarts, show start + offset.toNat + len.toNat ≤ buf.size.toNat by omega⟩
  · rw [chanAddrMwIdx_setOffset, hpart.mwIdx]
  · rw [chanAddrIsFlat_setOffset, hpart.isFlat]
  · rw [chanAddrOffset_setOffset _ (by rw [hsum]; exact hfits _ hstarts), hsum]

lemma makeDesc_part (hfits : buf.Fits) (haddr : buf.dmaAddr ≠ 0) (hsize : 0 < buf.size.toNat) :
    buf.Part buf.makeDesc 0 := by
  have hlt : buf.offset.toNat < 2 ^ 61 := hfits 0 hsize
  have hfields := chanAddr_fields buf.mwIdx buf.isFlat buf.offset hlt
  rw [makeDesc, if_neg haddr]
  exact ⟨hfields.1, hfields.2.1, congrArg UInt64.toNat hfields.2.2, hsize,
    Nat.le_of_eq (Nat.zero_add _)⟩

lemma getPartParams_ok_iff : (ntcExportBufGetPartParams buf desc).1 = .ok () ↔
    buf.dmaAddr ≠ 0 ∧ ¬ s64Neg (partSoffset buf desc) ∧
      ntcSegmentValid buf.size (partSoffset buf desc) desc.size = true ∧
      chanAddrMwIdx desc.chanAddr = buf.mwIdx ∧ chanAddrIsFlat desc.chanAddr = buf.isFlat := by
  rw [ntcExportBufGetPartParams]
  grind

lemma partSoffset_eq (hflat : chanAddrIsFlat desc.chanAddr = buf.isFlat) :
    partSoffset buf desc = chanAddrOffset desc.chanAddr - buf.offset := by
  rw [partSoffset, hflat, ExportedBuf.offset]
  split <;> rfl

lemma Part.getPartParams (hfits : buf.Fits) (haddr : buf.dmaAddr ≠ 0)
    (hpart : buf.Part desc start) :
    ∃ offset : UInt64, ntcExportBufGetPartParams buf desc = (.ok (), offset, desc.size) ∧
      offset.toNat = start := by
  have hsize := hfits.size_le
  have hstarts := hpart.starts
  have hsoffset : (partSoffset buf desc).toNat = start := by
    have hle : buf.offset ≤ chanAddrOffset desc.chanAddr := by
      rw [UInt64.le_iff_toNat_le, hpart.offset]
      omega
    rw [partSoffset_eq hpart.isFlat, UInt64.toNat_sub_of_le _ _ hle, hpart.offset]
    omega
  have hpos : ¬ s64Neg (partSoffset buf desc) := by
    rw [s64Neg, ge_iff_le, UInt64.le_iff_toNat_le, hsoffset]
    exact Nat.not_le_of_lt (Nat.lt_of_lt_of_le hstarts (Nat.le_trans hsize (by decide)))
  have hvalid : ntcSegmentValid buf.size (partSoffset buf desc) desc.size = true := by
    rw [ntcSegmentValid_iff (by omega), hsoffset]
    exact ⟨hstarts, hpart.ends⟩
  have hok := getPartParams_ok_iff.2 ⟨haddr, hpos, hvalid, hpart.mwIdx, hpart.isFlat⟩
  exact ⟨partSoffset buf desc, Prod.ext hok rfl, hsoffset⟩

lemma part_of_getPartParams (hfits : buf.Fits)
    (h : (ntcExportBufGetPartParams buf desc).1 = .ok ()) :
    buf.Part desc (ntcExportBufGetPartParams buf desc).2.1.toNat := by
  obtain ⟨-, hpos, hvalid, hmw, hflat⟩ := getPartParams_ok_iff.1 h
  have hsize := hfits.size_le
  rw [ntcSegmentValid_iff (by omega)] at hvalid
  refine ⟨hmw, hflat, ?_, hvalid.1, hvalid.2⟩
  -- A difference that is below the size of the buffer has not wrapped around.
  have hlt : buf.offset.toNat < 2 ^ 61 := hfits 0 (by omega)
  have hmax := (chanAddrOffset desc.chanAddr).toNat_lt
  show (chanAddrOffset desc.chanAddr).toNat = buf.offset.toNat + (partSoffset buf desc).toNat
  rw [partSoffset_eq hflat, UInt64.toNat_sub] at hvalid ⊢
  omega

end ExportedBuf

/-! ## Clipping -/

def Nested : Nat → List (UInt64 × UInt64) → Prop
  | _, [] => True
  | extent, (offset, len) :: rest =>
    offset.toNat < extent ∧ offset.toNat + len.toNat ≤ extent ∧ Nested len.toNat rest

def partsStart (parts : List (UInt64 × UInt64)) : Nat := (parts.map fun part => part.1.toNat).sum

def partsLen (len : UInt64) : List (UInt64 × UInt64) → UInt64
  | [] => len
  | (_, len) :: rest => partsLen len rest

section
variable {buf : ExportedBuf} {desc desc' : RemoteBufDesc} {start : Nat}

variable {offset len : UInt64}

lemma ntcRemoteBufDescClip_ok (hsize : desc.size.toNat ≤ 2 ^ 63)
    (hin : offset.toNat < desc.size.toNat ∧ offset.toNat + len.toNat ≤ desc.size.toNat) :
    ntcRemoteBufDescClip desc offset len =
      .ok ⟨chanAddrSetOffset desc.chanAddr (chanAddrOffset desc.chanAddr + offset), len⟩ := by
  rw [ntcRemoteBufDescClip, (ntcSegmentValid_iff hsize).2 hin, if_neg (by decide)]

lemma ntcRemoteBufDescClip_error (hsize : desc.size.toNat ≤ 2 ^ 63)
    (hout : ¬ (offset.toNat < desc.size.toNat ∧ offset.toNat + len.toNat ≤ desc.size.toNat)) :
    ntcRemoteBufDescClip desc offset len = .error .einval := by
  rw [ntcRemoteBufDescClip, if_pos]
  rwa [← ntcSegmentValid_iff hsize, Bool.not_eq_true] at hout

lemma clipAll_spec (hfits : buf.Fits) (hpart : buf.Part desc start)
    (clips : List (UInt64 × UInt64)) :
    ((clipAll desc clips).isOk ↔ Nested desc.size.toNat clips) ∧
      ∀ desc', clipAll desc clips = .ok desc' →
        buf.Part desc' (start + partsStart clips) ∧ desc'.size = partsLen desc.size clips := by
  induction clips generalizing desc start with
  | nil =>
    refine ⟨⟨fun _ => trivial, fun _ => rfl⟩, fun desc' h => ?_⟩
    cases h
    exact ⟨hpart, rfl⟩
  | cons part _ ih =>
    obtain ⟨offset, len⟩ := part
    have hsize : desc.size.toNat ≤ 2 ^ 63 := by
      have := hfits.size_le
      have := hpart.ends
      omega
    rw [clipAll]
    by_cases hin : offset.toNat < desc.size.toNat ∧ offset.toNat + len.toNat ≤ desc.size.toNat
    · obtain ⟨hok, hres⟩ := ih (hpart.forward hfits hin.1 hin.2)
      rw [ntcRemoteBufDescClip_ok hsize hin]
      refine ⟨hok.trans ⟨fun h => ⟨hin.1, hin.2, h⟩, fun h => h.2.2⟩, fun desc' h => ?_⟩
      obtain ⟨hpart', hlen⟩ := hres desc' h
      rw [Nat.add_assoc] at hpart'
      exact ⟨hpart', hlen⟩
    · rw [ntcRemoteBufDescClip_error hsize hin]
      exact ⟨⟨nofun, fun h => absurd ⟨h.1, h.2.1⟩ hin⟩, nofun⟩

lemma ntcExportBufMakePartialDesc_eq (haddr : buf.dmaAddr ≠ 0) (offset len : UInt64) :
    ntcExportBufMakePartialDesc buf offset len = ntcRemoteBufDescClip buf.makeDesc offset len := by
  have hsize : buf.makeDesc.size = buf.size := by rw [ExportedBuf.makeDesc, if_neg haddr]
  rw [ntcExportBufMakePartialDesc, if_neg haddr, ntcRemoteBufDescClip, hsize]

lemma partialDesc_eq (haddr : buf.dmaAddr ≠ 0) (offset len : UInt64)
    (clips : List (UInt64 × UInt64)) :
    partialDesc buf offset len clips = clipAll buf.makeDesc ((offset, len) :: clips) := by
  rw [partialDesc, clipAll, ntcExportBufMakePartialDesc_eq haddr]

lemma partialDesc_none (h : buf.dmaAddr = 0 ∨ buf.size.toNat = 0) (offset len : UInt64)
    (clips : List (UInt64 × UInt64)) : partialDesc buf offset len clips = .error .einval := by
  rw [partialDesc, ntcExportBufMakePartialDesc]
  by_cases haddr : buf.dmaAddr = 0
  · rw [if_pos haddr]
  · have hsize := h.resolve_left haddr
    have hinvalid : ntcSegmentValid buf.size offset len = false := by
      rw [ntcSegmentValid, if_pos]
      rw [UInt64.le_iff_toNat_le, hsize]
      exact Nat.zero_le _
    rw [if_neg haddr, if_pos hinvalid]

lemma partialDesc_spec (hfits : buf.Fits) (haddr : buf.dmaAddr ≠ 0) (hsize : 0 < buf.size.toNat)
    (offset len : UInt64) (clips : List (UInt64 × UInt64)) :
    ((partialDesc buf offset len clips).isOk ↔ Nested buf.size.toNat ((offset, len) :: clips)) ∧
      ∀ desc, partialDesc buf offset len clips = .ok desc →
        buf.Part desc (partsStart ((offset, len) :: clips)) ∧ desc.size = partsLen len clips := by
  have hspec := clipAll_spec hfits (buf.makeDesc_part hfits haddr hsize) ((offset, len) :: clips)
  have hdesc : buf.makeDesc.size = buf.size := by rw [ExportedBuf.makeDesc, if_neg haddr]
  rwa [← partialDesc_eq haddr, Nat.zero_add, hdesc] at hspec

end

/-- A description is clipped exactly if each part lies inside the one before, and the owner reads
back the sum of the offsets. -/
theorem partialDesc_readBack {buf : ExportedBuf} (hfits : buf.Fits) :
    (∀ offset len clips, (partialDesc buf offset len clips).isOk ↔
        buf.dmaAddr ≠ 0 ∧ Nested buf.size.toNat ((offset, len) :: clips)) ∧
      (∀ offset len clips desc, partialDesc buf offset len clips = .ok desc →
        ∃ offset', ntcExportBufGetPartParams buf desc = (.ok (), offset', partsLen len clips) ∧
          offset'.toNat = partsStart ((offset, len) :: clips)) ∧
      ∀ desc, (ntcExportBufGetPartParams buf desc).1 = .ok () → ∃ start, buf.Part desc start := by
  refine ⟨fun offset len clips => ?_, fun offset len clips desc h => ?_, fun desc h => ?_⟩
  · by_cases husable : buf.dmaAddr = 0 ∨ buf.size.toNat = 0
    · rw [partialDesc_none husable]
      refine ⟨nofun, fun h => ?_⟩
      have hstart := h.2.1
      exact absurd husable (not_or.2 ⟨h.1, Nat.ne_of_gt (Nat.zero_lt_of_lt hstart)⟩)
    · obtain ⟨haddr, hsize⟩ := not_or.1 husable
      rw [(partialDesc_spec hfits haddr (Nat.pos_of_ne_zero hsize) offset len clips).1]
      exact ⟨fun h => ⟨haddr, h⟩, fun h => h.2⟩
  · by_cases husable : buf.dmaAddr = 0 ∨ buf.size.toNat = 0
    · rw [partialDesc_none husable] at h
      cases h
    · obtain ⟨haddr, hsize⟩ := not_or.1 husable
      obtain ⟨hpart, hlen⟩ :=
        (partialDesc_spec hfits haddr (Nat.pos_of_ne_zero hsize) offset len clips).2 desc h
      obtain ⟨offset', hget, hoffset⟩ := hpart.getPartParams hfits haddr
      rw [hlen] at hget
      exact ⟨offset', hget, hoffset⟩
  · exact ⟨_, buf.part_of_getPartParams hfits h⟩

def windowBuf : ExportedBuf := ⟨0x100, infoMwIdx, 0x1000, 0x5000, false⟩

lemma windowBuf_fits : windowBuf.Fits := by
  have hoffset : windowBuf.offset.toNat = 0x4000 := by decide
  have hsize : windowBuf.size.toNat = 0x100 := by decide
  intro i hi
  omega

theorem partialDesc_readBack_twice : ∃ desc offset,
    partialDesc windowBuf 0x10 0x40 [(8, 0x20), (4, 0x1C)] = .ok desc ∧
      ntcExportBufGetPartParams windowBuf desc = (.ok (), offset, 0x1C) ∧ offset.toNat = 0x1C := by
  obtain ⟨offset, hget, hoffset⟩ := (partialDesc_readBack windowBuf_fits).2.1 0x10 0x40
    [(8, 0x20), (4, 0x1C)] ⟨0x800000000000401C, 0x1C⟩ (by decide)
  exact ⟨_, offset, by decide, hget, hoffset⟩

end Ntrdma
