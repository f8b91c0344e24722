import Ntrdma.Cmd.MrCreate

/-!
# Memory windows

Model of the windows through which a host writes to its peer: how the owner sets up a window
(`set_memory_windows_on_device`), what the peer learns of it (`ntc_ntb_send_addr`,
`ntc_ntb_recv_addr`), and the description of an exported buffer (`ntc_export_buf_alloc`,
`ntc_export_buf_make_desc`). The descriptions of the elements of a memory region and their
translation at the peer are in `Ntrdma.Cmd.MrCreate` and `Ntrdma.Ntc.Dma`.

The hardware is told to translate either the configured range, widened to the alignment, or the
window of the driver. The descriptions are relative to the window of the driver in both cases, so an
access reaches the buffer exactly where the two have the same base (`reached_iff`). The translation
at the peer looks at the first byte of a buffer only (`staysInside_iff`).
-/

namespace Ntrdma

/-! ## The owner's side -/

/-- The configuration of a window and what the hardware asks of it (C `struct ntc_own_mw_data`). -/
structure OwnMwData where
  baseAddr : UInt64
  len : UInt64
  mmLen : UInt64
  addrAlign : UInt64
  sizeAlign : UInt64
  sizeMax : UInt64

structure OwnWindow extends OwnMw where
  deadZoneSize : UInt64
  transLen : UInt64

/-- A translation in the hardware: an access at an offset below `len` reaches `base` and the
offset. -/
structure Trans where
  base : UInt64
  len : UInt64

structure MwState where
  data : OwnMwData
  own : OwnWindow
  trans : Option Trans

/-- The alignments and the greatest size (C `ntb_mw_get_align`), and whether a translation is taken
(C `ntb_mw_set_trans`). -/
structure MwHw where
  getAlign : Except Errno (UInt64 × UInt64 × UInt64)
  setTrans : Trans → Except Errno Unit

/-- The exit `err` of `set_memory_windows_on_device`. -/
def MwState.fail (s : MwState) (e : Errno) : Except Errno Unit × MwState :=
  (.error e,
    { s with data := { s.data with addrAlign := 0, sizeAlign := 0, sizeMax := 0 }, trans := none })

def OwnMwData.misalignment (data : OwnMwData) : UInt64 :=
  if data.addrAlign = 0 then 0 else data.baseAddr &&& (data.addrAlign - 1)

/-- The configured range, widened to the alignment (C `actual_base_addr`, `actual_len`). -/
def OwnMwData.actual (data : OwnMwData) : Trans :=
  let base := data.baseAddr - data.misalignment
  let len := data.len + data.misalignment
  ⟨base, if base = 0 && len < data.addrAlign then data.addrAlign else len⟩

def MwState.transOf (s : MwState) : Trans :=
  if s.data.misalignment = 0 then ⟨s.own.base, s.own.size⟩ else s.data.actual

/-- The first steps of `set_memory_windows_on_device`: the answers of the hardware are stored, and a
window without a size gets the greatest one. -/
def MwState.measure (s : MwState) (addrAlign sizeAlign sizeMax : UInt64) : MwState :=
  { s with
    data := { s.data with addrAlign, sizeAlign, sizeMax }
    own := { s.own with size := if s.own.size = 0 then sizeMax else s.own.size } }

def setMemoryWindowsOnDevice (hw : MwHw) (s : MwState) : Except Errno Unit × MwState :=
  match hw.getAlign with
  | .error e => s.fail e
  | .ok (addrAlign, sizeAlign, sizeMax) =>
    let s := s.measure addrAlign sizeAlign sizeMax
    if s.own.size = 0 then (.error .einval, s)
    else if s.data.actual.len < s.data.len then (.error .einval, s)
    else if s.data.misalignment ≠ 0 && s.data.mmLen ≠ 0 then (.error .einval, s)
    else if s.data.len > s.data.sizeMax then s.fail .einval
    else
      match hw.setTrans s.transOf with
      | .error e => s.fail e
      | .ok () =>
        (.ok (), { s with
          own := { s.own with deadZoneSize := s.data.misalignment, transLen := s.transOf.len }
          trans := some s.transOf })

/-- What the peer has of the windows after `ntc_ntb_send_addr` and `ntc_ntb_recv_addr`. -/
def ntcNtbRecvAddr (peerMws : Fin 2 → PeerMw) (own : Fin 2 → OwnWindow) (i : Fin 2) : PeerMw :=
  { peerMws i with deadZoneSize := (own i).deadZoneSize, transLen := (own i).transLen }

/-! ## Exported buffers -/

def infoMwIdx : Fin 2 := 0

def dramMwIdx : Fin 2 := 1

structure ExportedBuf where
  size : UInt64
  mwIdx : Fin 2
  mwBase : UInt64
  dmaAddr : UInt64
  isFlat : Bool

/-- Where an allocation ends up: at an offset of the information window (C `ntc_mm_alloc`), or at a
DMA address (C `kmalloc_node`). -/
structure ExportMem where
  mmAlloc : Except Errno UInt64
  dmaMapSingle : Except Errno UInt64

/-- C `ntc_export_buf_alloc`. The address is a field of 63 bits. -/
def ntcExportBufAlloc (own : Fin 2 → OwnWindow) (mem : ExportMem) (size : UInt64) :
    Except Errno ExportedBuf :=
  if (own dramMwIdx).base = (own dramMwIdx).deadZoneSize then
    match mem.dmaMapSingle with
    | .error e => .error e
    | .ok dmaAddr => .ok ⟨size, dramMwIdx, (own dramMwIdx).base,
      dmaAddr &&& 0x7FFFFFFFFFFFFFFF, true⟩
  else
    match mem.mmAlloc with
    | .error e => .error e
    | .ok offset =>
      let dmaAddr := (own infoMwIdx).base + offset
      .ok ⟨size, infoMwIdx, (own infoMwIdx).base, dmaAddr &&& 0x7FFFFFFFFFFFFFFF, false⟩

/-- The offset that a description of the buffer gives. -/
def ExportedBuf.offset (buf : ExportedBuf) : UInt64 :=
  if buf.isFlat then buf.dmaAddr else buf.dmaAddr - buf.mwBase

def ExportedBuf.makeDesc (buf : ExportedBuf) : RemoteBufDesc :=
  if buf.dmaAddr = 0 then ⟨0, 0⟩
  else
    let value := ((1 : UInt64) <<< 63) ||| (buf.mwIdx.val.toUInt64 <<< 62) |||
      (buf.isFlat.toUInt64 <<< 61) ||| (buf.offset &&& 0x1FFFFFFFFFFFFFFF)
    ⟨value, buf.size⟩

/-! ## The fields of a channel address -/

lemma chanAddrOffset_or (c offset : UInt64) (hc : c &&& 0x1FFFFFFFFFFFFFFF = 0) :
    chanAddrOffset (c ||| (offset &&& 0x1FFFFFFFFFFFFFFF)) = offset &&& 0x1FFFFFFFFFFFFFFF := by
  have hdistrib (x y z : UInt64) : (x ||| y) &&& z = (x &&& z) ||| (y &&& z) :=
    UInt64.toBitVec_inj.mp (BitVec.and_or_distrib_right ..)
  rw [chanAddrOffset, hdistrib, hc, UInt64.and_assoc, UInt64.and_self, UInt64.zero_or]

lemma chanAddr_high (c offset : UInt64) :
    (c ||| (offset &&& 0x1FFFFFFFFFFFFFFF)) >>> 61 = c >>> 61 ∧
      (c ||| (offset &&& 0x1FFFFFFFFFFFFFFF)) >>> 62 = c >>> 62 := by
  have hlow61 : (0x1FFFFFFFFFFFFFFF : UInt64) >>> 61 = 0 := by decide
  have hlow62 : (0x1FFFFFFFFFFFFFFF : UInt64) >>> 62 = 0 := by decide
  simp only [UInt64.shiftRight_or, UInt64.shiftRight_and, hlow61, hlow62, UInt64.and_zero,
    UInt64.or_zero, and_self]

lemma and_offset_mask {offset : UInt64} (h : offset.toNat < 2 ^ 61) :
    offset &&& 0x1FFFFFFFFFFFFFFF = offset := by
  apply UInt64.toNat_inj.mp
  have hmask : (0x1FFFFFFFFFFFFFFF : UInt64).toNat = 2 ^ 61 - 1 := by decide
  rw [UInt64.toNat_and, hmask, Nat.and_two_pow_sub_one_eq_mod, Nat.mod_eq_of_lt h]

lemma chanAddr_fields (mwIdx : Fin 2) (isFlat : Bool) (offset : UInt64)
    (hoffset : offset.toNat < 2 ^ 61) :
    let value := ((1 : UInt64) <<< 63) ||| (mwIdx.val.toUInt64 <<< 62) |||
      (isFlat.toUInt64 <<< 61) |||
      (offset &&& 0x1FFFFFFFFFFFFFFF)
    chanAddrMwIdx value = mwIdx ∧ chanAddrIsFlat value = isFlat ∧
      chanAddrOffset value = offset := by
  intro value
  have hhigh := chanAddr_high
    (((1 : UInt64) <<< 63) ||| (mwIdx.val.toUInt64 <<< 62) ||| (isFlat.toUInt64 <<< 61)) offset
  refine ⟨?_, ?_, ?_⟩
  · rw [chanAddrMwIdx, hhigh.2]
    fin_cases mwIdx <;> cases isFlat <;> decide
  · rw [chanAddrIsFlat, hhigh.1]
    fin_cases mwIdx <;> cases isFlat <;> decide
  · rw [chanAddrOffset_or _ _ (by fin_cases mwIdx <;> cases isFlat <;> decide),
      and_offset_mask hoffset]

/-! ## Where an access ends up -/

/-- A buffer that the owner describes to its peer. -/
inductive OwnBuf where
  | exported (buf : ExportedBuf)
  | mr (elem : MrElem)

namespace OwnBuf

def dmaAddr : OwnBuf → UInt64
  | exported buf => buf.dmaAddr
  | mr elem => elem.buf.dmaAddr

def mwIdx : OwnBuf → Fin 2
  | exported buf => buf.mwIdx
  | mr elem => elem.mwIdx

def mwBase : OwnBuf → UInt64
  | exported buf => buf.mwBase
  | mr elem => elem.mwBase

def isFlat : OwnBuf → Bool
  | exported buf => buf.isFlat
  | mr _ => false

def makeDesc : OwnBuf → RemoteBufDesc
  | exported buf => buf.makeDesc
  | mr elem => elem.makeDesc

def offset : OwnBuf → UInt64
  | exported buf => buf.offset
  | mr elem => elem.buf.dmaAddr - elem.mwBase

lemma offset_eq (buf : OwnBuf) :
    buf.offset = if buf.isFlat then buf.dmaAddr else buf.dmaAddr - buf.mwBase := by
  cases buf <;> rfl

lemma makeDesc_fields {buf : OwnBuf} (hdesc : buf.makeDesc.chanAddr ≠ 0)
    (hoffset : buf.offset.toNat < 2 ^ 61) :
    chanAddrMwIdx buf.makeDesc.chanAddr = buf.mwIdx ∧
      chanAddrIsFlat buf.makeDesc.chanAddr = buf.isFlat ∧
      chanAddrOffset buf.makeDesc.chanAddr = buf.offset := by
  cases buf with
  | exported buf =>
    simp only [makeDesc, ExportedBuf.makeDesc] at hdesc ⊢
    split at hdesc
    · exact absurd rfl hdesc
    · next hvalid =>
      rw [if_neg hvalid]
      exact chanAddr_fields buf.mwIdx buf.isFlat _ hoffset
  | mr elem =>
    simp only [makeDesc, MrElem.makeDesc] at hdesc ⊢
    split at hdesc
    · exact absurd rfl hdesc
    · next hvalid =>
      rw [if_neg hvalid]
      have hfields := chanAddr_fields elem.mwIdx false (elem.buf.dmaAddr - elem.mwBase) hoffset
      have hflat : (false.toUInt64 <<< 61 : UInt64) = 0 := by decide
      rw [hflat, UInt64.or_zero] at hfields
      exact hfields

end OwnBuf

/-- Where an access of the peer to `addr` ends up on the owner. -/
def reached (trans : Option Trans) (mw : PeerMw) (addr : UInt64) : Option UInt64 :=
  match trans with
  | none => none
  | some t => if addr - mw.base < t.len then some (t.base + (addr - mw.base)) else none

/-- Translation and descriptions have one base: that of the window or the configured one, whichever
the hardware was given. -/
def MwState.Straight (s : MwState) (isFlat : Bool) : Prop :=
  if s.data.misalignment = 0 then isFlat = true → s.own.base = 0
  else s.data.baseAddr = if isFlat then s.data.misalignment else s.own.base

lemma MwState.straight_iff (s : MwState) (isFlat : Bool) (dmaAddr : UInt64) :
    s.transOf.base + (if isFlat then dmaAddr else dmaAddr - s.own.base +
      s.data.misalignment) = dmaAddr ↔
      s.Straight isFlat := by
  unfold Straight transOf
  cases isFlat <;> split <;> simp only [OwnMwData.actual] <;> grind

structure MwState.IsSet (s : MwState) : Prop where
  trans : s.trans = some s.transOf
  deadZoneSize : s.own.deadZoneSize = s.data.misalignment
  transLen : s.own.transLen = s.transOf.len

lemma setMemoryWindowsOnDevice_isSet {hw : MwHw} {s : MwState}
    (h : (setMemoryWindowsOnDevice hw s).1 = .ok ()) : (setMemoryWindowsOnDevice hw s).2.IsSet := by
  revert h
  fun_cases setMemoryWindowsOnDevice hw s <;> intro h <;> cases h
  exact ⟨rfl, rfl, rfl⟩

def PeerMw.start (mw : PeerMw) (value : UInt64) : UInt64 :=
  if chanAddrIsFlat value then chanAddrOffset value else chanAddrOffset value + mw.deadZoneSize

/-- What `ntc_peer_addr` holds the position to. -/
def PeerMw.limit (mw : PeerMw) (value : UInt64) : Nat :=
  if chanAddrIsFlat value then mw.transLen.toNat else min mw.size.toNat mw.transLen.toNat

lemma PeerMw.limit_le_transLen (mw : PeerMw) (value : UInt64) :
    mw.limit value ≤ mw.transLen.toNat := by
  unfold limit
  split <;> omega

lemma ntcPeerAddr_eq (ntc : NtcDev) (value : UInt64) :
    ntcPeerAddr ntc value =
      let mw := ntc.peerMws (chanAddrMwIdx value)
      if (mw.start value).toNat < mw.limit value then mw.base + mw.start value else 0 := by
  simp only [ntcPeerAddr, PeerMw.start, PeerMw.limit, UInt64.le_iff_toNat_le]
  split <;> grind

lemma start_lt_limit_of_ntcPeerAddr {ntc : NtcDev} {value : UInt64}
    (h : ntcPeerAddr ntc value ≠ 0) :
    ((ntc.peerMws (chanAddrMwIdx value)).start value).toNat <
      (ntc.peerMws (chanAddrMwIdx value)).limit value := by
  rw [ntcPeerAddr_eq] at h
  by_contra hlimit
  exact h (if_neg hlimit)

section
variable {hw : Fin 2 → MwHw} {s : Fin 2 → MwState} {ntc : NtcDev} {peerMws : Fin 2 → PeerMw}
  {buf : OwnBuf}

def windows (hw : Fin 2 → MwHw) (s : Fin 2 → MwState) (i : Fin 2) : MwState :=
  (setMemoryWindowsOnDevice (hw i) (s i)).2

/-- The buffer was made while the windows had these bases. -/
inductive OwnBuf.Made (s : Fin 2 → MwState) : OwnBuf → Prop where
  | exported {own mem size buf} : (∀ i, (own i).base = (s i).own.base) →
    ntcExportBufAlloc own mem size = .ok buf → Made s (exported buf)
  | mr {own range accessFlags elem} : (∀ i, (own i).base = (s i).own.base) →
    mrBufMapDma own range accessFlags = .ok elem → Made s (mr elem)

lemma OwnBuf.Made.mwBase_eq (h : buf.Made s) : buf.mwBase = (s buf.mwIdx).own.base := by
  cases h with
  | exported hbase halloc =>
    unfold ntcExportBufAlloc at halloc
    split at halloc <;> split at halloc <;> cases halloc <;> exact hbase _
  | mr hbase hmap =>
    unfold mrBufMapDma at hmap
    simp only at hmap
    split at hmap
    · cases hmap
      exact hbase _
    · split at hmap <;> cases hmap
      exact hbase _

/-- An access reaches the buffer exactly if the translation and the descriptions have one base. -/
theorem reached_iff (hset : ∀ i, (setMemoryWindowsOnDevice (hw i) (s i)).1 = .ok ())
    (hexchange : ntc.peerMws = ntcNtbRecvAddr peerMws fun i => (windows hw s i).own)
    (hmade : buf.Made (windows hw s)) (hdesc : buf.makeDesc.chanAddr ≠ 0)
    (hoffset : buf.offset.toNat < 2 ^ 61) (haddr : ntcPeerAddr ntc buf.makeDesc.chanAddr ≠ 0) :
    reached (windows hw s buf.mwIdx).trans (ntc.peerMws buf.mwIdx)
        (ntcPeerAddr ntc buf.makeDesc.chanAddr) = some buf.dmaAddr ↔
      (windows hw s buf.mwIdx).Straight buf.isFlat := by
  obtain ⟨hidx, hflat, hoff⟩ := buf.makeDesc_fields hdesc hoffset
  have hisSet : (windows hw s buf.mwIdx).IsSet := setMemoryWindowsOnDevice_isSet (hset buf.mwIdx)
  have hmw : ntc.peerMws buf.mwIdx = ntcNtbRecvAddr peerMws
      (fun i => (windows hw s i).own) buf.mwIdx := by
    rw [hexchange]
  have hstart := start_lt_limit_of_ntcPeerAddr haddr
  have hlimit := (ntc.peerMws buf.mwIdx).limit_le_transLen buf.makeDesc.chanAddr
  rw [ntcPeerAddr_eq, if_pos hstart]
  rw [hidx] at hstart ⊢
  generalize hvalue : (ntc.peerMws buf.mwIdx).start buf.makeDesc.chanAddr = start at *
  have hlen : start < (windows hw s buf.mwIdx).transOf.len := by
    rw [UInt64.lt_iff_toNat_lt, ← hisSet.transLen]
    rw [hmw] at hstart hlimit
    exact Nat.lt_of_lt_of_le hstart hlimit
  have hoffsets : start = if buf.isFlat then buf.dmaAddr
      else buf.dmaAddr - (windows hw s buf.mwIdx).own.base +
        (windows hw s buf.mwIdx).data.misalignment := by
    rw [← hvalue, PeerMw.start, hflat, hoff, OwnBuf.offset_eq, hmade.mwBase_eq, hmw]
    split <;> simp [ntcNtbRecvAddr, hisSet.deadZoneSize]
  have hback : (ntc.peerMws buf.mwIdx).base + start -
    (ntc.peerMws buf.mwIdx).base = start := by grind
  simp only [reached, hisSet.trans, hback, if_pos hlen, Option.some_inj]
  rw [hoffsets]
  exact MwState.straight_iff _ _ _

end

def pageHw (_ : Fin 2) : MwHw := ⟨.ok (0x1000, 0x1000, 0x10000000), fun _ => .ok ()⟩

/-- Windows that are not in reserved memory. -/
def plainMws (baseAddr : UInt64) (i : Fin 2) : MwState :=
  ⟨⟨if i = dramMwIdx then baseAddr else 0, 0x100000, 0, 0, 0, 0⟩,
    ⟨⟨if i = dramMwIdx then 0 else 0x40000000, if i = dramMwIdx then 0 else 0x100000⟩, 0, 0⟩, none⟩

def plainPeerMws (i : Fin 2) : PeerMw :=
    ⟨if i = 0 then 0x8000000000 else 0x9000000000, 0x10000000, 0, 0⟩

def peerOf (s : Fin 2 → MwState) : NtcDev :=
  ⟨ntcNtbRecvAddr plainPeerMws fun i => (s i).own, fun ptr _ => some ptr⟩

def plainElem : MrElem := ⟨⟨0x1000, 0x2000⟩, dramMwIdx, 0, accessRemoteWrite⟩

theorem reached_iff_aligned :
    reached (windows pageHw (plainMws 0) dramMwIdx).trans
        ((peerOf (windows pageHw (plainMws 0))).peerMws dramMwIdx)
        (ntcPeerAddr (peerOf (windows pageHw (plainMws 0)))
          (OwnBuf.mr plainElem).makeDesc.chanAddr) =
      some 0x2000 :=
  (@reached_iff pageHw (plainMws 0) _ plainPeerMws (.mr plainElem) (by decide) rfl
    (.mr (fun _ => rfl) (show mrBufMapDma (fun i => (windows pageHw (plainMws 0) i).own.toOwnMw)
      ⟨0x2000, 0x1000⟩ accessRemoteWrite = .ok plainElem by decide))
    (by decide) (by decide) (by decide)).mpr (by simp [MwState.Straight]; decide)

/-- The same window, configured from the middle of a page: the window of the driver still begins at
`0`. -/
theorem reached_misaligned :
    (∀ i, (setMemoryWindowsOnDevice (pageHw i) (plainMws 0x1800 i)).1 = .ok ()) ∧
      mrBufMapDma (fun i => (windows pageHw (plainMws 0x1800) i).own.toOwnMw) ⟨0x2000, 0x1000⟩
        accessRemoteWrite = .ok plainElem ∧
      reached (windows pageHw (plainMws 0x1800) dramMwIdx).trans
          ((peerOf (windows pageHw (plainMws 0x1800))).peerMws dramMwIdx)
          (ntcPeerAddr (peerOf (windows pageHw (plainMws 0x1800)))
            (OwnBuf.mr plainElem).makeDesc.chanAddr) = some 0x3800 := by
  decide

/-! ## How far a mapped buffer reaches -/

/-- Every copy into a mapped buffer that `ntc_segment_valid` lets through lies inside the window. -/
def StaysInside (mw : PeerMw) (value size : UInt64) : Prop :=
  ∀ offset len, ntcSegmentValid size offset len = true →
    (mw.start value).toNat + offset.toNat + len.toNat ≤ mw.limit value

lemma le_of_ntcSegmentValid {size offset len : UInt64} (hsize : size.toNat ≤ 2 ^ 63)
    (h : ntcSegmentValid size offset len = true) : offset.toNat + len.toNat ≤ size.toNat := by
  simp only [ntcSegmentValid, UInt64.le_iff_toNat_le, UInt64.lt_iff_toNat_lt, UInt64.toNat_add] at h
  split at h
  · cases h
  · split at h
    · cases h
    · split at h
      · cases h
      · omega

variable {size : UInt64}

lemma toNat_sub_one (h : 0 < size.toNat) : (size - 1).toNat = size.toNat - 1 := by
  rw [UInt64.toNat_sub_of_le _ _ (by rw [UInt64.le_iff_toNat_le]; exact h)]
  rfl

lemma ntcSegmentValid_wrap (hsize : 2 ^ 63 < size.toNat) :
    ntcSegmentValid size (size - 1) size = true := by
  have hlt := size.toNat_lt
  have hone := toNat_sub_one (by omega : 0 < size.toNat)
  simp only [ntcSegmentValid, UInt64.le_iff_toNat_le,
    UInt64.lt_iff_toNat_lt, UInt64.toNat_add, hone]
  rw [if_neg (by omega), if_neg (by omega), if_neg (by omega)]

lemma ntcSegmentValid_last (hsize : 0 < size.toNat) : ntcSegmentValid size (size - 1) 1 = true := by
  have hlt := size.toNat_lt
  have hone := toNat_sub_one hsize
  have h1 : (1 : UInt64).toNat = 1 := rfl
  simp only [ntcSegmentValid, UInt64.le_iff_toNat_le, UInt64.lt_iff_toNat_lt,
    UInt64.toNat_add, hone, h1]
  rw [if_neg (by omega), if_neg (by omega), if_neg (by omega)]

/-- The copies into a mapped buffer stay inside the window exactly if the whole extent does and the
size is one that the sum in `ntc_segment_valid` does not wrap around for. -/
theorem staysInside_iff {ntc : NtcDev} {desc : RemoteBufDesc} {buf : RemoteBuf}
    (hmap : ntcRemoteBufMap ntc desc = .ok buf) (hdesc : desc.chanAddr ≠ 0) :
    StaysInside (ntc.peerMws (chanAddrMwIdx desc.chanAddr)) desc.chanAddr buf.size ↔
      ((ntc.peerMws (chanAddrMwIdx desc.chanAddr)).start desc.chanAddr).toNat + desc.size.toNat ≤
          (ntc.peerMws (chanAddrMwIdx desc.chanAddr)).limit desc.chanAddr ∧
        desc.size.toNat ≤ 2 ^ 63 := by
  obtain ⟨hsize, haddr⟩ : buf.size = desc.size ∧ ntcPeerAddr ntc desc.chanAddr ≠ 0 := by
    rw [ntcRemoteBufMap, if_neg hdesc] at hmap
    simp only at hmap
    split at hmap
    · cases hmap
    next haddr =>
      split at hmap <;> cases hmap
      exact ⟨rfl, haddr⟩
  rw [hsize]
  have hstart := start_lt_limit_of_ntcPeerAddr haddr
  have hlimit := (ntc.peerMws (chanAddrMwIdx desc.chanAddr)).limit_le_transLen desc.chanAddr
  have hbound := (ntc.peerMws (chanAddrMwIdx desc.chanAddr)).transLen.toNat_lt
  constructor
  · intro h
    rcases Nat.eq_zero_or_pos desc.size.toNat with hzero | hpos
    · omega
    · -- the copy of the last byte gives the extent, the one that wraps around the size
      have hone := toNat_sub_one hpos
      have hlast := h _ _ (ntcSegmentValid_last hpos)
      rw [hone, UInt64.toNat_one] at hlast
      refine ⟨by omega, ?_⟩
      by_contra hlarge
      have hcopy := h _ _ (ntcSegmentValid_wrap (by omega : 2 ^ 63 < desc.size.toNat))
      omega
  · rintro ⟨hextent, hsmall⟩ offset len hvalid
    have := le_of_ntcSegmentValid hsmall hvalid
    omega

def descOf (size : UInt64) : RemoteBufDesc := ⟨0x8000000000000100, size⟩

theorem staysInside_iff_page :
    StaysInside ((peerOf (windows pageHw (plainMws 0))).peerMws 0)
      (descOf 0x1000).chanAddr 0x1000 :=
  (staysInside_iff (show ntcRemoteBufMap (peerOf (windows pageHw (plainMws 0))) (descOf 0x1000) =
    .ok ⟨0x1000, 0x8000000100⟩ by decide) (by decide)).mpr (by decide)

/-- A description whose size is larger than the window is mapped as it is, and a copy to its end
leaves the window. -/
theorem staysInside_beyond :
    ntcRemoteBufMap (peerOf (windows pageHw (plainMws 0))) (descOf 0x100000000) =
        .ok ⟨0x100000000, 0x8000000100⟩ ∧
      ((peerOf (windows pageHw (plainMws 0))).peerMws 0).limit
        (descOf 0x100000000).chanAddr = 0x100000 ∧
      ntcSegmentValid 0x100000000 0x200000 0x1000 = true ∧
      ¬ StaysInside ((peerOf (windows pageHw (plainMws 0))).peerMws 0) (descOf 0x100000000).chanAddr
        0x100000000 :=
  ⟨by decide, by decide, by decide, fun h => absurd (h 0x200000 0x1000 (by decide)) (by decide)⟩

end Ntrdma
