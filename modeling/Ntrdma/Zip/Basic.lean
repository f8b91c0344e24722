import Ntrdma.Lib.Segment
import Ntrdma.Wr.Basic

/-!
# The copy engine

Model of `ntrdma_zip.c`: the cursors over a send list and over a receive list, the copies that
advance both in lockstep (`ntrdma_zip_rdma`), the copies of inline data (`ntrdma_zip_rdma_imm`) and
the copy out of a shadow buffer (`ntrdma_zip_memcpy`).

A pointer into an array together with the end of the array is the list of what is left of it, so
`c->snd_sge` and `c->snd_sg_end` are one field. A cursor function of the source returns a flag and
sets `rc` when the flag is false; here it returns a `CursorRc`. The reference counts of the regions
are left out. Each loop of the source runs on a bound for its number of rounds, and a loop that
needs more rounds gives `none`; the bounds of `zipRdma` and `zipRdmaImm` suffice (`zipRdma_spec`,
`zipRdmaImmRounds_spec`).
-/

namespace Ntrdma
open Lib

/-- The result of moving a cursor: there is more to copy, all is copied, or an error. -/
inductive CursorRc where
  | more
  | done
  | fail (e : Errno)
  deriving DecidableEq, Repr

/-- The region of an entry: the held one is kept if it has the same key, else one is looked up. The
reserved key names none. -/
def cursorLook {α : Type} (look : UInt32 → Option α) (held : Option α) (heldKey key : UInt32) :
    Except Errno (Option α) :=
  let held := if held.isSome && heldKey != key then none else held
  if held.isNone && key != reservedDmaLkey then
    match look key with
    | none => .error .einval
    | some m => .ok (some m)
  else .ok held

variable {α : Type} {heldKey key : UInt32}

lemma cursorLook_eq {look : UInt32 → Option α} {held : Option α}
    (h : ∀ m, held = some m → look heldKey = some m ∧ heldKey ≠ reservedDmaLkey) :
    cursorLook look held heldKey key =
      if key = reservedDmaLkey then .ok none
      else match look key with
        | none => .error .einval
        | some m => .ok (some m) := by
  cases held with
  | none =>
    by_cases hkey : key = reservedDmaLkey
    · simp [cursorLook, hkey]
    · simp [cursorLook, hkey]
  | some m =>
    obtain ⟨hlook, hheld⟩ := h m rfl
    by_cases heq : heldKey = key
    · subst heq
      simp [cursorLook, hheld, hlook]
    · by_cases hkey : key = reservedDmaLkey
      · rw [hkey] at heq
        simp [cursorLook, heq, hkey]
      · simp [cursorLook, heq, hkey]

lemma cursorLook_none {look : UInt32 → Option α} : cursorLook look none heldKey key =
      if key = reservedDmaLkey then .ok none
      else match look key with
        | none => .error .einval
        | some m => .ok (some m) := by
  refine cursorLook_eq fun m hm => ?_
  cases hm

inductive Found (look : UInt32 → Option α) (key : UInt32) : Option α → Prop where
  | reserved : key = reservedDmaLkey → Found look key none
  | region {m : α} : key ≠ reservedDmaLkey → look key = some m → Found look key (some m)

lemma cursorLook_cases (key : UInt32) {look : UInt32 → Option α} {held : Option α}
    (h : ∀ m, held = some m → look heldKey = some m ∧ heldKey ≠ reservedDmaLkey) :
    (∃ m, cursorLook look held heldKey key = .ok m ∧ Found look key m) ∨
      cursorLook look held heldKey key = .error .einval ∧
        key ≠ reservedDmaLkey ∧ look key = none := by
  rw [cursorLook_eq h]
  by_cases hkey : key = reservedDmaLkey
  · exact .inl ⟨none, if_pos hkey, .reserved hkey⟩
  · rw [if_neg hkey]
    cases hlook : look key with
    | none => exact .inr ⟨rfl, hkey, rfl⟩
    | some m => exact .inl ⟨some m, rfl, .region hkey hlook⟩

/-! ## Send cursor -/

structure SndCursor where
  sndSge : List IbSge
  sndRem : UInt64
  mr : Option Mr
  mrKey : UInt32
  mrSge : List MrBuf
  nextIoOff : UInt64

def sndCursorInit (sndSgList : List IbSge) : SndCursor where
  sndSge := sndSgList
  sndRem := 0
  mr := none
  mrKey := reservedDmaLkey
  mrSge := []
  nextIoOff := 0

def sndSgListSkipEmpty : List IbSge → List IbSge
  | [] => []
  | sge :: rest => if sge.length = 0 then sndSgListSkipEmpty rest else sge :: rest

/-- The label `next_io_off_update` of `ntrdma_snd_cursor_update`. -/
def SndCursor.nextIoOffUpdate (c : SndCursor) : CursorRc × SndCursor :=
  match c.mr with
  | none => (.more, c)
  | some _ =>
    let r := skip MrBuf.size c.nextIoOff c.mrSge
    let c := { c with nextIoOff := r.1, mrSge := r.2 }
    if r.2.isEmpty then (.fail .einval, c) else (.more, c)

/-- Start on the entry `sge`, whose region was found to be `mr`. -/
def SndCursor.enter (c : SndCursor) (sge : IbSge) (mr : Option Mr) : SndCursor :=
  let c := { c with mrKey := sge.lkey, mr, sndRem := sge.length.toUInt64 }
  match mr with
  | some m => { c with mrSge := m.sgList, nextIoOff := sge.addr - m.addr }
  | none => { c with nextIoOff := 0 }

def sndCursorUpdate (dev : Dev) (c : SndCursor) : CursorRc × SndCursor :=
  if c.sndRem ≠ 0 then c.nextIoOffUpdate
  else
    match sndSgListSkipEmpty c.sndSge with
    | [] => (.done, { c with sndSge := [] })
    | sge :: rest =>
      let c := { c with sndSge := sge :: rest }
      match cursorLook dev.mrLook c.mr c.mrKey sge.lkey with
      | .error e => (.fail e, { c with mr := none, mrKey := sge.lkey })
      | .ok mr => (c.enter sge mr).nextIoOffUpdate

def sndCursorForward (dev : Dev) (c : SndCursor) (len : UInt64) : CursorRc × SndCursor :=
  let c := { c with sndRem := c.sndRem - len }
  sndCursorUpdate dev
    (if c.sndRem ≠ 0 then { c with nextIoOff := c.nextIoOff + len }
      else { c with sndSge := c.sndSge.tail })

def sndCursorNextIoSize (c : SndCursor) : UInt64 :=
  match c.mr, c.mrSge with
  | some _, b :: _ => min c.sndRem (b.size - c.nextIoOff)
  | some _, [] => 0
  | none, _ => c.sndRem

/-! ## Receive cursor -/

/-- C `struct ntrdma_rcv_cursor`; the copy `rcv_sge_copy` is the head of the list. -/
structure RcvCursor where
  rcvSge : List RcvSge
  rcvRem : UInt64
  rmr : Option Rmr
  rmrKey : UInt32
  rmrSge : List RemoteBuf
  nextIoOff : UInt64
  offset : UInt32

def rcvCursorInit (rcvSgList : List RcvSge) (offset : UInt32) : RcvCursor where
  rcvSge := rcvSgList
  rcvRem := 0
  rmr := none
  rmrKey := reservedDmaLkey
  rmrSge := []
  nextIoOff := 0
  offset := offset

/-- The entries and the rest of the offset after the loop of `ntrdma_rcv_cursor_update` that passes
over whole entries. -/
def rcvSgListSkip (offset : UInt32) : List RcvSge → UInt32 × List RcvSge
  | [] => (offset, [])
  | sge :: rest =>
    if offset.toUInt64 < sge.len then (offset, sge :: rest)
    else rcvSgListSkip (offset.toUInt64 - sge.len).toUInt32 rest

/-- The label `next_io_off_update` of `ntrdma_rcv_cursor_update`. -/
def RcvCursor.nextIoOffUpdate (c : RcvCursor) : CursorRc × RcvCursor :=
  match c.rmr with
  | none => (.more, c)
  | some _ =>
    let r := skip RemoteBuf.size c.nextIoOff c.rmrSge
    let c := { c with nextIoOff := r.1, rmrSge := r.2 }
    if r.2.isEmpty then (.fail .einval, c) else (.more, c)

/-- Start on the entry `sge`, whose region was found to be `rmr`. -/
def RcvCursor.enter (c : RcvCursor) (sge : RcvSge) (rmr : Option Rmr) : RcvCursor :=
  let off := c.offset.toUInt64
  let c := { c with rmrKey := sge.remoteKey, rmr, rcvRem := sge.len - off, offset := 0 }
  match rmr with
  | some m => { c with rmrSge := m.sgList, nextIoOff := sge.sgeAddr + off - m.addr }
  | none => { c with nextIoOff := off }

def rcvCursorUpdate (dev : Dev) (c : RcvCursor) : CursorRc × RcvCursor :=
  if c.rcvRem ≠ 0 then c.nextIoOffUpdate
  else
    let r := rcvSgListSkip c.offset c.rcvSge
    let c := { c with offset := r.1, rcvSge := r.2 }
    match r.2 with
    | [] => (.fail .einval, c)
    | sge :: _ =>
      match cursorLook dev.rmrLook c.rmr c.rmrKey sge.remoteKey with
      | .error e => (.fail e, { c with rmr := none, rmrKey := sge.remoteKey })
      | .ok rmr => (c.enter sge rmr).nextIoOffUpdate

def rcvCursorForward (dev : Dev) (c : RcvCursor) (len : UInt64) : CursorRc × RcvCursor :=
  let c := { c with rcvRem := c.rcvRem - len }
  rcvCursorUpdate dev
    (if c.rcvRem ≠ 0 then { c with nextIoOff := c.nextIoOff + len }
      else { c with rcvSge := c.rcvSge.tail })

def rcvCursorNextIoSize (c : RcvCursor) : UInt64 :=
  match c.rmr, c.rmrSge with
  | some _, b :: _ => min c.rcvRem (b.size - c.nextIoOff)
  | some _, [] => 0
  | none, _ => c.rcvRem

/-- The buffer the next copy goes to: an element of the region, or the peer's shadow buffer, mapped
for this copy. -/
def rcvCursorBuf (dev : Dev) (c : RcvCursor) : Except Errno RemoteBuf :=
  match c.rmr, c.rmrSge, c.rcvSge with
  | some _, b :: _, _ => .ok b
  | none, _, sge :: _ => ntcRemoteBufMap dev.ntc sge.expBufDesc
  | _, _, _ => .error .einval

/-! ## Copies -/

/-- The request of `ntrdma_cursor_next_io`, from an element of the region or the buffer of a
reserved-key entry. -/
def SndCursor.request (snd : SndCursor) (chan : Chan) (buf : RemoteBuf) (rcvOff len : UInt64)
    (dmaWait : DmaWait) : Except Errno Unit × Chan :=
  match snd.mr, snd.mrSge, snd.sndSge with
  | some _, b :: _, _ =>
    ntcRequestMemcpy chan buf rcvOff b.size b.dmaAddr snd.nextIoOff len false dmaWait
  | none, _, sge :: _ =>
    ntcRequestMemcpy chan buf rcvOff sge.length.toUInt64 sge.addr snd.nextIoOff len true dmaWait
  | _, _, _ => (.error .einval, chan)

/-- C `ntrdma_cursor_next_io`: request the next copy. The result is its length. -/
def cursorNextIo (dev : Dev) (rcv : RcvCursor) (snd : SndCursor) (chan : Chan) (dmaWait : DmaWait) :
    Except Errno UInt64 × Chan :=
  let len := min (sndCursorNextIoSize snd) (rcvCursorNextIoSize rcv)
  -- `len` is signed in the source
  if 2 ^ 63 ≤ len.toNat then (.error .einval, chan)
  else
    match rcvCursorBuf dev rcv with
    | .error e => (.error e, chan)
    | .ok buf =>
      match snd.request chan buf rcv.nextIoOff len dmaWait with
      | (.error e, chan) => (.error e, chan)
      | (.ok _, chan) => (.ok len, chan)

def zipLoop (dev : Dev) (dmaWait : DmaWait) :
    Nat → SndCursor → RcvCursor → UInt32 → Chan → Option (Except Errno UInt32 × Chan)
  | 0, _, _, _, _ => none
  | fuel + 1, snd, rcv, totalLen, chan =>
    match cursorNextIo dev rcv snd chan dmaWait with
    | (.error e, chan) => some (.error e, chan)
    | (.ok len, chan) =>
      if totalLen.toUInt64 + len ≠ (totalLen + len.toUInt32).toUInt64 then
        some (.error .einval, chan)
      else
        let totalLen := totalLen + len.toUInt32
        match sndCursorForward dev snd len with
        | (.done, _) => some (.ok totalLen, chan)
        | (.fail e, _) => some (.error e, chan)
        | (.more, snd) =>
          match rcvCursorForward dev rcv len with
          | (.done, _) => some (.ok totalLen, chan)
          | (.fail e, _) => some (.error e, chan)
          | (.more, rcv) => zipLoop dev dmaWait fuel snd rcv totalLen chan

def sndTotal (sndSgList : List IbSge) : Nat := (sndSgList.map fun sge => sge.length.toNat).sum

/-- `ntrdma_zip_rdma` with a bound for the number of rounds of its loop. -/
def zipRdmaRounds (rounds : Nat) (dev : Dev) (chan : Chan) (rcvSgList : List RcvSge)
    (sndSgList : List IbSge) (rcvStartOffset : UInt32) (dmaWait : DmaWait) :
    Option (Except Errno UInt32 × Chan) :=
  match sndCursorUpdate dev (sndCursorInit sndSgList) with
  | (.done, _) => some (.ok 0, chan)
  | (.fail e, _) => some (.error e, chan)
  | (.more, snd) =>
    match rcvCursorUpdate dev (rcvCursorInit rcvSgList rcvStartOffset) with
    | (.done, _) => some (.ok 0, chan)
    | (.fail e, _) => some (.error e, chan)
    | (.more, rcv) => zipLoop dev dmaWait rounds snd rcv 0 chan

/-- C `ntrdma_zip_rdma`: the result is `*rdma_len`. -/
def zipRdma (dev : Dev) (chan : Chan) (rcvSgList : List RcvSge) (sndSgList : List IbSge)
    (rcvStartOffset : UInt32) (dmaWait : DmaWait) : Except Errno UInt32 × Chan :=
  (zipRdmaRounds (sndTotal sndSgList) dev chan rcvSgList sndSgList rcvStartOffset dmaWait).getD
    (.error .einval, chan)

def cursorNextImmIo (dev : Dev) (rcv : RcvCursor) (sndData : List UInt8) (chan : Chan) :
    Except Errno UInt64 × Chan :=
  let len := min (UInt64.ofNat sndData.length) (rcvCursorNextIoSize rcv)
  if 2 ^ 63 ≤ len.toNat then (.error .einval, chan)
  else
    match rcvCursorBuf dev rcv with
    | .error e => (.error e, chan)
    | .ok buf =>
      match ntcMrRequestMemcpyUnfencedImm chan buf rcv.nextIoOff (sndData.take len.toNat) with
      | (.error e, chan) => (.error e, chan)
      | (.ok _, chan) => (.ok len, chan)

def zipImmLoop (dev : Dev) : Nat → RcvCursor → List UInt8 → Chan → Option (Except Errno Unit × Chan)
  | 0, _, _, _ => none
  | fuel + 1, rcv, sndData, chan =>
    match cursorNextImmIo dev rcv sndData chan with
    | (.error e, chan) => some (.error e, chan)
    | (.ok len, chan) =>
      let sndData := sndData.drop len.toNat
      if sndData.isEmpty then some (.ok (), chan)
      else
        match rcvCursorForward dev rcv len with
        | (.done, _) => some (.ok (), chan)
        | (.fail e, _) => some (.error e, chan)
        | (.more, rcv) => zipImmLoop dev fuel rcv sndData chan

/-- `ntrdma_zip_rdma_imm` with a bound for the number of rounds of its loop. -/
def zipRdmaImmRounds (rounds : Nat) (dev : Dev) (chan : Chan) (rcvSgList : List RcvSge)
    (sndData : List UInt8) (rcvStartOffset : UInt32) : Option (Except Errno Unit × Chan) :=
  if sndData.isEmpty then some (.ok (), chan)
  else
    match rcvCursorUpdate dev (rcvCursorInit rcvSgList rcvStartOffset) with
    | (.done, _) => some (.ok (), chan)
    | (.fail e, _) => some (.error e, chan)
    | (.more, rcv) => zipImmLoop dev rounds rcv sndData chan

def zipRdmaImm (dev : Dev) (chan : Chan) (rcvSgList : List RcvSge) (sndData : List UInt8)
    (rcvStartOffset : UInt32) : Except Errno Unit × Chan :=
  (zipRdmaImmRounds sndData.length dev chan rcvSgList sndData rcvStartOffset).getD
    (.error .einval, chan)

/-- The second loop of `ntrdma_zip_memcpy`: the bytes left over and the stores. Each store goes to
the start of an element. -/
def zipMemcpyLoop : List MrBuf → UInt64 → List UInt8 → List UInt8 × List (UInt64 × UInt8)
  | [], _, src => (src, [])
  | b :: rest, nextIoOff, src =>
    if src.isEmpty then (src, [])
    else
      let nextIoSize := min (UInt64.ofNat src.length) (b.size - nextIoOff)
      let (left, stores) := zipMemcpyLoop rest 0 (src.drop nextIoSize.toNat)
      (left, (span b.dmaAddr nextIoSize.toNat).zip (src.take nextIoSize.toNat) ++ stores)

/-- C `ntrdma_zip_memcpy`: the result and the byte stores made. -/
def zipMemcpy (dev : Dev) (targetKey : UInt32) (targetAddr : UInt64) (src : List UInt8) :
    Except Errno Unit × List (UInt64 × UInt8) :=
  if src.isEmpty then (.ok (), [])
  else
    match dev.mrLook targetKey with
    | none => (.error .einval, [])
    | some mr =>
      let r := skip MrBuf.size (targetAddr - mr.addr) mr.sgList
      let (left, stores) := zipMemcpyLoop r.2 r.1 src
      (if left.isEmpty then .ok () else .error .einval, stores)

end Ntrdma
