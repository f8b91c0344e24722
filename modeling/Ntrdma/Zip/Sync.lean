import Ntrdma.Recv.Post
import Ntrdma.Zip.Exact
import Ntrdma.Zip.Memcpy

/-!
# The sync of a receive list

Model of `ntrdma_zip_sync`: a cursor over the local receive list of a completed receive, which gives
the memory of each entry back to the processor before the data are read. The cursor is the
counterpart of the send cursor of `Ntrdma.Zip.Basic` with the entries of a receive list; an entry
with a shadow has no region and is passed over.

A cursor denotes the memory that is left to sync (`LrcvCursor.rest`). A round takes at least one
byte off its front (`LrcvCursor.Ready.round`), so that the loop ends, and its calls cover exactly
the memory of the list (`zipSync_exact`). In a list that was posted only the entries with a shadow
have the reserved key, and none of them is so long that its length is negative as an `s64`
(`RcvSge.Posted`).
-/

namespace Ntrdma
open Lib

structure LrcvCursor where
  lrcvSge : List RcvSge
  lrcvRem : UInt64
  mr : Option Mr
  mrKey : UInt32
  mrSge : List MrBuf
  nextIoOff : UInt64

def lrcvCursorInit (lrcvSgList : List RcvSge) : LrcvCursor where
  lrcvSge := lrcvSgList
  lrcvRem := 0
  mr := none
  mrKey := reservedDmaLkey
  mrSge := []
  nextIoOff := 0

def rcvSgListSkipEmpty : List RcvSge → List RcvSge
  | [] => []
  | sge :: rest => if sge.len = 0 then rcvSgListSkipEmpty rest else sge :: rest

/-- The label `next_io_off_update` of `ntrdma_lrcv_cursor_update`. -/
def LrcvCursor.nextIoOffUpdate (c : LrcvCursor) : CursorRc × LrcvCursor :=
  match c.mr with
  | none => (.more, c)
  | some _ =>
    let r := skip MrBuf.size c.nextIoOff c.mrSge
    let c := { c with nextIoOff := r.1, mrSge := r.2 }
    if r.2.isEmpty then (.fail .einval, c) else (.more, c)

/-- Start on the entry `sge`, whose region was found to be `mr`. -/
def LrcvCursor.enter (c : LrcvCursor) (sge : RcvSge) (mr : Option Mr) : LrcvCursor :=
  let c := { c with mrKey := sge.remoteKey, mr, lrcvRem := sge.len }
  match mr with
  | some m => { c with mrSge := m.sgList, nextIoOff := sge.sgeAddr - m.addr }
  | none => { c with nextIoOff := 0 }

def lrcvCursorUpdate (dev : Dev) (c : LrcvCursor) : CursorRc × LrcvCursor :=
  if c.lrcvRem ≠ 0 then c.nextIoOffUpdate
  else
    match rcvSgListSkipEmpty c.lrcvSge with
    | [] => (.done, { c with lrcvSge := [] })
    | sge :: rest =>
      let c := { c with lrcvSge := sge :: rest }
      match cursorLook dev.mrLook c.mr c.mrKey sge.remoteKey with
      | .error e => (.fail e, { c with mr := none, mrKey := sge.remoteKey })
      | .ok mr => (c.enter sge mr).nextIoOffUpdate

/-- The cursor of `ntrdma_lrcv_cursor_forward` before it is updated. -/
def LrcvCursor.advance (c : LrcvCursor) (len : UInt64) : LrcvCursor :=
  if c.lrcvRem - len ≠ 0 then
    { c with lrcvRem := c.lrcvRem - len, nextIoOff := c.nextIoOff + len }
  else { c with lrcvRem := c.lrcvRem - len, lrcvSge := c.lrcvSge.tail }

def lrcvCursorForward (dev : Dev) (c : LrcvCursor) (len : UInt64) : CursorRc × LrcvCursor :=
  lrcvCursorUpdate dev (c.advance len)

def lrcvCursorNextIoSize (c : LrcvCursor) : UInt64 :=
  match c.mr, c.mrSge with
  | some _, b :: _ => min c.lrcvRem (b.size - c.nextIoOff)
  | some _, [] => 0
  | none, _ => c.lrcvRem

/-- A call of `ntc_mr_buf_sync`. -/
structure MrSync where
  buf : MrBuf
  offset : UInt64
  len : UInt64

/-- C `ntrdma_lrcv_cursor_next_io_deref`: the length, and the call that is made. -/
def lrcvCursorNextIoDeref (c : LrcvCursor) : Except Errno UInt64 × List MrSync :=
  let len := lrcvCursorNextIoSize c
  -- `len` is signed in the source
  if 2 ^ 63 ≤ len.toNat then (.error .einval, [])
  else
    match c.mr, c.mrSge with
    | some _, b :: _ => (.ok len, [⟨b, c.nextIoOff, len⟩])
    | _, _ => (.ok len, [])

def zipSyncLoop (dev : Dev) : Nat → LrcvCursor → List MrSync →
    Option (Except Errno Unit × List MrSync)
  | 0, _, _ => none
  | fuel + 1, c, syncs =>
    match lrcvCursorNextIoDeref c with
    | (.error e, calls) => some (.error e, syncs ++ calls)
    | (.ok len, calls) =>
      match lrcvCursorForward dev c len with
      | (.done, _) => some (.ok (), syncs ++ calls)
      | (.fail e, _) => some (.error e, syncs ++ calls)
      | (.more, c) => zipSyncLoop dev fuel c (syncs ++ calls)

def rcvTotal (rcvSgList : List RcvSge) : Nat := (rcvSgList.map fun sge => sge.len.toNat).sum

/-- `ntrdma_zip_sync` with a bound for the number of rounds of its loop. -/
def zipSyncRounds (rounds : Nat) (dev : Dev) (lrcvSgList : List RcvSge) :
    Option (Except Errno Unit × List MrSync) :=
  match lrcvCursorUpdate dev (lrcvCursorInit lrcvSgList) with
  | (.done, _) => some (.ok (), [])
  | (.fail e, _) => some (.error e, [])
  | (.more, c) => zipSyncLoop dev rounds c []

/-- C `ntrdma_zip_sync`: the result, and the calls of `ntc_mr_buf_sync` in order. -/
def zipSync (dev : Dev) (lrcvSgList : List RcvSge) : Except Errno Unit × List MrSync :=
  (zipSyncRounds (rcvTotal lrcvSgList) dev lrcvSgList).getD (.error .einval, [])

/-! ## What a cursor has left to sync -/

/-- What is left of an entry without a region: no memory, but a length that is negative as a signed
number is refused. -/
def noRegionLocs (len : UInt64) : List (Option UInt64) := if 2 ^ 63 ≤ len.toNat then [none] else []

def rcvSgeSyncLocs (dev : Dev) (sge : RcvSge) : List (Option UInt64) :=
  if sge.remoteKey = reservedDmaLkey then noRegionLocs sge.len
  else match dev.mrLook sge.remoteKey with
    | none => List.replicate sge.len.toNat none
    | some mr => window MrBuf.size MrBuf.dmaAddr mr.sgList
      (sge.sgeAddr - mr.addr).toNat sge.len.toNat

def LrcvCursor.entryRest (c : LrcvCursor) : List (Option UInt64) :=
  match c.mr with
  | none => noRegionLocs c.lrcvRem
  | some _ => window MrBuf.size MrBuf.dmaAddr c.mrSge c.nextIoOff.toNat c.lrcvRem.toNat

def LrcvCursor.rest (dev : Dev) (c : LrcvCursor) : List (Option UInt64) :=
  if c.lrcvRem = 0 then c.lrcvSge.flatMap (rcvSgeSyncLocs dev)
  else c.entryRest ++ c.lrcvSge.tail.flatMap (rcvSgeSyncLocs dev)

def LrcvCursor.left (c : LrcvCursor) : Nat :=
  if c.lrcvRem = 0 then rcvTotal c.lrcvSge else c.lrcvRem.toNat + rcvTotal c.lrcvSge.tail

/-- The region is the one that the key names, what is left in it is positive, and `P` holds of the
elements to come. -/
structure LrcvCursor.Wf (dev : Dev) (P : MrBuf → Prop) (c : LrcvCursor) : Prop where
  look : ∀ m, c.mr = some m → dev.mrLook c.mrKey = some m ∧ c.mrKey ≠ reservedDmaLkey
  entries : ∀ sge ∈ c.lrcvSge, ∀ m, dev.mrLook sge.remoteKey = some m → ∀ b ∈ m.sgList, P b
  elems : ∀ b ∈ c.mrSge, P b
  small : c.mr.isSome → c.lrcvRem.toNat < 2 ^ 63

/-- The cursor is at a byte, and inside an element of its region if it is in a region. -/
structure LrcvCursor.Ready (dev : Dev) (P : MrBuf → Prop) (c : LrcvCursor) :
    Prop extends c.Wf dev P where
  rem : c.lrcvRem ≠ 0
  elem : c.mr.isSome → ∃ b t, c.mrSge = b :: t ∧ c.nextIoOff < b.size

def LrcvCursor.Moved (dev : Dev) (P : MrBuf → Prop) (rest : List (Option UInt64)) (left : Nat) :
    CursorRc × LrcvCursor → Prop
  | (.more, c) => c.Ready dev P ∧ c.rest dev = rest ∧ c.left = left
  | (.done, _) => rest = []
  | (.fail _, _) => none ∈ rest

section
variable {dev : Dev} {P : MrBuf → Prop} {c : LrcvCursor}

lemma rcvSgListSkipEmpty_eq (l : List RcvSge) :
    rcvSgListSkipEmpty l = l.dropWhile fun sge => decide (sge.len = 0) := by
  induction l with
  | nil => rfl
  | cons _ _ ih => simp [rcvSgListSkipEmpty, List.dropWhile_cons, ih]

lemma rcvSgeSyncLocs_empty {sge : RcvSge} (h : sge.len = 0) : rcvSgeSyncLocs dev sge = [] := by
  rw [rcvSgeSyncLocs, h]
  split
  · rfl
  · split <;> rfl

lemma rcvSgListSkipEmpty_rest (dev : Dev) (l : List RcvSge) :
    (rcvSgListSkipEmpty l).flatMap (rcvSgeSyncLocs dev) = l.flatMap (rcvSgeSyncLocs dev) ∧
      rcvTotal (rcvSgListSkipEmpty l) = rcvTotal l := by
  induction l with
  | nil => exact ⟨rfl, rfl⟩
  | cons _ _ ih =>
    rw [rcvSgListSkipEmpty]
    split
    next hzero =>
      rw [ih.1, ih.2, List.flatMap_cons, rcvSgeSyncLocs_empty hzero,
        rcvTotal, rcvTotal, List.map_cons,
        List.sum_cons, hzero]
      exact ⟨rfl, (Nat.zero_add _).symm⟩
    · exact ⟨rfl, rfl⟩

lemma LrcvCursor.nextIoOffUpdate_spec (h : c.Wf dev P) (hrem : c.lrcvRem ≠ 0) :
    LrcvCursor.Moved dev P (c.rest dev) c.left c.nextIoOffUpdate := by
  rw [LrcvCursor.nextIoOffUpdate]
  split
  next hmr =>
    refine ⟨{ h with rem := hrem, elem := fun hsome => ?_ }, rfl, rfl⟩
    rw [hmr] at hsome
    cases hsome
  next m hmr =>
    have hwin := @window_skip _ MrBuf.size MrBuf.dmaAddr c.mrSge c.nextIoOff c.lrcvRem.toNat
    have hrest : c.rest dev = window MrBuf.size MrBuf.dmaAddr c.mrSge
      c.nextIoOff.toNat c.lrcvRem.toNat ++
        c.lrcvSge.tail.flatMap (rcvSgeSyncLocs dev) := by
      rw [LrcvCursor.rest, if_neg hrem, LrcvCursor.entryRest, hmr]
    dsimp only
    split
    next hempty =>
      rw [List.isEmpty_iff.1 hempty, window_nil] at hwin
      have hpos : c.lrcvRem.toNat ≠ 0 := fun hzero => hrem (UInt64.toNat_inj.1 hzero)
      rw [hrest, ← hwin]
      exact List.mem_append_left _ (List.mem_replicate.2 ⟨hpos, rfl⟩)
    next hne =>
      obtain ⟨b, t, hbt⟩ := List.exists_cons_of_ne_nil (mt List.isEmpty_iff.2 hne)
      refine ⟨⟨⟨h.look, h.entries, fun b hb => ?_, h.small⟩, hrem, fun _ =>
        ⟨b, t, hbt, skip_lt hbt⟩⟩, ?_, rfl⟩
      · exact h.elems b ((skip_suffix _ _).subset hb)
      · rw [hrest, ← hwin, LrcvCursor.rest, if_neg hrem, LrcvCursor.entryRest]
        simp only [hmr]

lemma RcvSge.len_lt {sge : RcvSge} (h : sge.remoteKey ≠ reservedDmaLkey) :
    sge.len.toNat < 2 ^ 63 := by
  cases sge with
  | direct sge =>
    have hlt := sge.length.toNat_lt
    rw [RcvSge.len, UInt32.toNat_toUInt64]
    omega
  | shadow => exact absurd rfl h

lemma LrcvCursor.enter_spec {sge : RcvSge} {l : List RcvSge} {mr : Option Mr} (h : c.Wf dev P)
    (hsge : c.lrcvSge = sge :: l) (hlen : sge.len ≠ 0) (hmr : Found dev.mrLook sge.remoteKey mr) :
    (c.enter sge mr).Wf dev P ∧ (c.enter sge mr).lrcvRem ≠ 0 ∧
      (c.enter sge mr).rest dev = (sge :: l).flatMap (rcvSgeSyncLocs dev) ∧
      (c.enter sge mr).left = rcvTotal (sge :: l) := by
  obtain hkey | ⟨hkey, hlook⟩ := hmr
  · refine ⟨⟨nofun, h.entries, h.elems, nofun⟩, hlen, ?_, ?_⟩
    · rw [LrcvCursor.rest, if_neg (by exact hlen), List.flatMap_cons, rcvSgeSyncLocs, if_pos hkey]
      simp only [LrcvCursor.enter, hsge]
      rfl
    · rw [LrcvCursor.left, if_neg (by exact hlen)]
      simp only [LrcvCursor.enter, hsge]
      rfl
  · refine ⟨⟨?_, h.entries, ?_, fun _ => RcvSge.len_lt hkey⟩, hlen, ?_, ?_⟩
    · rintro _ ⟨⟩
      exact ⟨hlook, hkey⟩
    · exact h.entries sge (hsge ▸ List.mem_cons_self) _ hlook
    · rw [LrcvCursor.rest, if_neg (by exact hlen), List.flatMap_cons,
        rcvSgeSyncLocs, if_neg hkey, hlook]
      simp only [LrcvCursor.enter, hsge]
      rfl
    · rw [LrcvCursor.left, if_neg (by exact hlen)]
      simp only [LrcvCursor.enter, hsge]
      rfl

lemma lrcvCursorUpdate_spec (h : c.Wf dev P) :
    LrcvCursor.Moved dev P (c.rest dev) c.left (lrcvCursorUpdate dev c) := by
  rw [lrcvCursorUpdate]
  split
  next hrem => exact LrcvCursor.nextIoOffUpdate_spec h hrem
  next hrem =>
    rw [ne_eq, not_not] at hrem
    obtain ⟨hlocs, htotal⟩ := rcvSgListSkipEmpty_rest dev c.lrcvSge
    have hsuf : rcvSgListSkipEmpty c.lrcvSge <:+ c.lrcvSge :=
      rcvSgListSkipEmpty_eq c.lrcvSge ▸ List.dropWhile_suffix _
    rw [LrcvCursor.rest, if_pos hrem, LrcvCursor.left, if_pos hrem, ← hlocs, ← htotal]
    split
    next hnil =>
      rw [hnil]
      rfl
    next sge l hcons =>
      have hlen : sge.len ≠ 0 := by
        have hnot := List.head?_dropWhile_not (fun sge : RcvSge => decide (sge.len = 0)) c.lrcvSge
        rw [← rcvSgListSkipEmpty_eq, hcons] at hnot
        simpa using hnot
      rw [hcons] at hsuf ⊢
      have hwf : ({ c with lrcvSge := sge :: l } : LrcvCursor).Wf dev P :=
        ⟨h.look, fun sge' hin => h.entries sge' (hsuf.subset hin), h.elems, h.small⟩
      dsimp only
      obtain ⟨mr, hlook, hmr⟩ | ⟨hlook, hkey, hnone⟩ := cursorLook_cases sge.remoteKey h.look
      · obtain ⟨hwf', hrem', hrest', hleft'⟩ := LrcvCursor.enter_spec hwf rfl hlen hmr
        rw [hlook, ← hrest', ← hleft']
        exact LrcvCursor.nextIoOffUpdate_spec hwf' hrem'
      · have hpos : sge.len.toNat ≠ 0 := fun hzero => hlen (UInt64.toNat_inj.1 hzero)
        rw [hlook]
        refine List.mem_flatMap.2 ⟨sge, List.mem_cons_self, ?_⟩
        rw [rcvSgeSyncLocs, if_neg hkey, hnone]
        exact List.mem_replicate.2 ⟨hpos, rfl⟩

/-! ## One round -/

def MrSync.bytes (sync : MrSync) : List UInt64 :=
    span (sync.buf.dmaAddr + sync.offset) sync.len.toNat

/-- The call is for a range of one element, which is not empty. -/
structure MrSync.Inside (P : MrBuf → Prop) (sync : MrSync) : Prop where
  elem : P sync.buf
  pos : 0 < sync.len.toNat
  bound : sync.offset.toNat + sync.len.toNat ≤ sync.buf.size.toNat

section
variable {len : UInt64}

lemma LrcvCursor.advance_wf (h : c.Wf dev P) (hle : len.toNat ≤ c.lrcvRem.toNat) :
    (c.advance len).Wf dev P := by
  have hsmall : c.mr.isSome → (c.lrcvRem - len).toNat < 2 ^ 63 := by
    intro hsome
    rw [toNat_sub64 hle]
    exact (Nat.sub_le _ _).trans_lt (h.small hsome)
  rw [LrcvCursor.advance]
  split
  · exact ⟨h.look, h.entries, h.elems, hsmall⟩
  · exact ⟨h.look, fun sge hin => h.entries sge (List.mem_of_mem_tail hin), h.elems, hsmall⟩

lemma LrcvCursor.advance_left (hrem : c.lrcvRem ≠ 0) (hle : len.toNat ≤ c.lrcvRem.toNat) :
    (c.advance len).left + len.toNat = c.left := by
  have hsub : (c.lrcvRem - len).toNat = c.lrcvRem.toNat - len.toNat :=
    toNat_sub64 hle
  rw [LrcvCursor.left, LrcvCursor.left, if_neg hrem, LrcvCursor.advance]
  by_cases hzero : c.lrcvRem - len = 0
  · rw [hzero, UInt64.toNat_zero] at hsub
    rw [if_neg (not_not.2 hzero), if_pos hzero]
    dsimp only
    omega
  · rw [if_pos hzero, if_neg hzero]
    dsimp only
    omega

lemma LrcvCursor.rest_region {m : Mr} {b : MrBuf} {t : List MrBuf} (hrem : c.lrcvRem ≠ 0)
    (hmr : c.mr = some m) (hbt : c.mrSge = b :: t) (hle : len.toNat ≤ c.lrcvRem.toNat)
    (hbound : c.nextIoOff.toNat + len.toNat ≤ b.size.toNat) :
    c.rest dev = (span (b.dmaAddr + c.nextIoOff) len.toNat).map some ++
      (c.advance len).rest dev := by
  rw [LrcvCursor.rest, if_neg hrem, LrcvCursor.entryRest, hmr]
  rw [hbt, window_advance hbound hle, ← hbt, List.append_assoc, LrcvCursor.advance]
  by_cases hzero : c.lrcvRem - len = 0
  · rw [if_neg (not_not.2 hzero), LrcvCursor.rest, if_pos hzero, hzero,
      UInt64.toNat_zero, window_zero,
      List.nil_append]
  · rw [if_pos hzero, LrcvCursor.rest, if_neg hzero, LrcvCursor.entryRest]
    simp only [hmr]

end

lemma LrcvCursor.Ready.round {len : Except Errno UInt64} {calls : List MrSync} (r : c.Ready dev P)
    (h : lrcvCursorNextIoDeref c = (len, calls)) :
    (∀ call ∈ calls, call.Inside P) ∧
    match len with
    | .error _ => none ∈ c.rest dev
    | .ok len => 0 < len.toNat ∧ len.toNat ≤ c.lrcvRem.toNat ∧
        c.rest dev = (calls.flatMap MrSync.bytes).map some ++ (c.advance len).rest dev := by
  have hpos : c.lrcvRem.toNat ≠ 0 := fun hzero => r.rem (UInt64.toNat_inj.1 hzero)
  rw [lrcvCursorNextIoDeref] at h
  cases hmr : c.mr with
  | none =>
    have hrest : c.rest dev = noRegionLocs c.lrcvRem ++ c.lrcvSge.tail.flatMap
        (rcvSgeSyncLocs dev) := by
      rw [LrcvCursor.rest, if_neg r.rem, LrcvCursor.entryRest, hmr]
    rw [lrcvCursorNextIoSize, hmr] at h
    dsimp only at h
    split at h
    next hbig =>
      cases h
      refine ⟨nofun, ?_⟩
      rw [hrest, noRegionLocs, if_pos hbig]
      exact List.mem_cons_self
    next hbig =>
      cases h
      refine ⟨nofun, Nat.pos_of_ne_zero hpos, Nat.le_refl _, ?_⟩
      have hzero : c.lrcvRem - c.lrcvRem = 0 := UInt64.sub_self _
      rw [hrest, noRegionLocs, if_neg hbig, LrcvCursor.advance,
        if_neg (not_not.2 hzero), LrcvCursor.rest,
        if_pos hzero]
      rfl
  | some =>
    obtain ⟨b, t, hbt, hlt⟩ := r.elem (by rw [hmr]; rfl)
    have hsmall := r.small (by rw [hmr]; rfl)
    rw [UInt64.lt_iff_toNat_lt] at hlt
    have hlen : (min c.lrcvRem (b.size - c.nextIoOff)).toNat =
        min c.lrcvRem.toNat (b.size.toNat - c.nextIoOff.toNat) := by
      rw [UInt64.toNat_min, toNat_sub64 hlt.le]
    rw [lrcvCursorNextIoSize, hmr, hbt] at h
    dsimp only at h
    rw [if_neg (by omega)] at h
    cases h
    have hle : (min c.lrcvRem (b.size - c.nextIoOff)).toNat ≤ c.lrcvRem.toNat := by omega
    refine ⟨fun call hcall => ?_, by omega, hle, ?_⟩
    · cases List.mem_singleton.1 hcall
      exact ⟨r.elems b (hbt ▸ List.mem_cons_self), by dsimp only; omega, by dsimp only; omega⟩
    · rw [LrcvCursor.rest_region r.rem hmr hbt hle (by omega)]
      simp only [List.flatMap_cons, List.flatMap_nil, List.append_nil, MrSync.bytes]

def SyncDone (P : MrBuf → Prop) (rest : List (Option UInt64)) (res : Except Errno Unit)
    (calls : List MrSync) : Prop :=
  (∀ call ∈ calls, call.Inside P) ∧
    match res with
    | .error _ => none ∈ rest
    | .ok () => (calls.flatMap MrSync.bytes).map some = rest

lemma zipSyncLoop_spec {fuel : Nat} (r : c.Ready dev P) (hfuel : c.left ≤ fuel)
    (syncs : List MrSync) :
    ∃ res calls, zipSyncLoop dev fuel c syncs = some (res, syncs ++ calls) ∧
      SyncDone P (c.rest dev) res calls := by
  induction fuel generalizing c syncs with
  | zero =>
    have hpos : c.lrcvRem.toNat ≠ 0 := fun h => r.rem (UInt64.toNat_inj.1 h)
    rw [LrcvCursor.left, if_neg r.rem] at hfuel
    omega
  | succ _ ih =>
    rw [zipSyncLoop]
    cases hio : lrcvCursorNextIoDeref c with
    | mk len calls =>
      obtain ⟨hinside, hround⟩ := r.round hio
      cases len with
      | error => exact ⟨_, calls, rfl, hinside, hround⟩
      | ok len =>
        obtain ⟨hpos, hle, hrest⟩ := hround
        have hleft := LrcvCursor.advance_left r.rem hle
        have hmoved := lrcvCursorUpdate_spec (LrcvCursor.advance_wf r.toWf hle)
        dsimp only
        rw [lrcvCursorForward, hrest]
        generalize lrcvCursorUpdate dev (c.advance len) = step at hmoved ⊢
        obtain ⟨rc, c'⟩ := step
        cases rc with
        | done =>
          refine ⟨_, calls, rfl, hinside, ?_⟩
          rw [show (c.advance len).rest dev = [] from hmoved, List.append_nil]
        | fail => exact ⟨_, calls, rfl, hinside, List.mem_append_right _ hmoved⟩
        | more =>
          obtain ⟨hready, hrest', hleft'⟩ := hmoved
          obtain ⟨res, calls', hloop, hinside', hdone⟩ := ih hready (by omega) (syncs ++ calls)
          refine ⟨res, calls ++ calls', hloop.trans (by rw [List.append_assoc]), ?_, ?_⟩
          · exact List.forall_mem_append.2 ⟨hinside, hinside'⟩
          · rw [hrest'] at hdone
            cases res with
            | error => exact List.mem_append_right _ hdone
            | ok =>
              rw [← show _ = (c.advance len).rest dev from hdone,
                List.flatMap_append, List.map_append]

end

lemma zipSync_spec (dev : Dev) {P : MrBuf → Prop} {lrcvSgList : List RcvSge}
    (hP : ∀ sge ∈ lrcvSgList, ∀ m, dev.mrLook sge.remoteKey = some m → ∀ b ∈ m.sgList, P b) :
    zipSyncRounds (rcvTotal lrcvSgList) dev lrcvSgList = some (zipSync dev lrcvSgList) ∧
      SyncDone P (lrcvSgList.flatMap (rcvSgeSyncLocs dev)) (zipSync dev lrcvSgList).1
        (zipSync dev lrcvSgList).2 := by
  have hwf : (lrcvCursorInit lrcvSgList).Wf dev P := ⟨nofun, hP, nofun, nofun⟩
  have hmoved : LrcvCursor.Moved dev P (lrcvSgList.flatMap (rcvSgeSyncLocs dev))
    (rcvTotal lrcvSgList) _ :=
    lrcvCursorUpdate_spec hwf
  rw [zipSync, zipSyncRounds]
  generalize lrcvCursorUpdate dev (lrcvCursorInit lrcvSgList) = step at hmoved ⊢
  obtain ⟨rc, c⟩ := step
  cases rc with
  | done =>
    rw [show lrcvSgList.flatMap (rcvSgeSyncLocs dev) = [] from hmoved]
    exact ⟨rfl, nofun, rfl⟩
  | fail => exact ⟨rfl, nofun, hmoved⟩
  | more =>
    obtain ⟨hready, hrest, hleft⟩ := hmoved
    obtain ⟨res, calls, hloop, hdone⟩ := zipSyncLoop_spec hready (Nat.le_of_eq hleft) []
    dsimp only
    rw [hloop]
    exact ⟨rfl, hrest ▸ hdone⟩

/-! ## The whole list -/

def RcvSge.mem (dev : Dev) (sge : RcvSge) : List (Option UInt64) :=
  if sge.remoteKey = reservedDmaLkey then []
  else (span sge.sgeAddr sge.len.toNat).map fun a =>
    (dev.mrLook sge.remoteKey).bind fun mr => mr.byte a

def RcvSge.InRegion (dev : Dev) (sge : RcvSge) : Prop :=
  ∃ mr, dev.mrLook sge.remoteKey = some mr ∧ mr.Holds sge.sgeAddr sge.len.toNat

/-- An entry that is not empty leaves its region or has no known one, or has a negative length, as
only one with a shadow can. -/
def RcvSge.Refused (dev : Dev) (sge : RcvSge) : Prop :=
  sge.len ≠ 0 ∧ if sge.remoteKey = reservedDmaLkey then 2 ^ 63 ≤
    sge.len.toNat else ¬ sge.InRegion dev

lemma none_mem_rcvSgeSyncLocs_iff (dev : Dev) (sge : RcvSge) :
    none ∈ rcvSgeSyncLocs dev sge ↔ sge.Refused dev := by
  have hpos : sge.len ≠ 0 ↔ 0 < sge.len.toNat := by
    rw [Nat.pos_iff_ne_zero]
    exact not_congr UInt64.toNat_inj.symm
  rw [rcvSgeSyncLocs, RcvSge.Refused, hpos]
  split
  · rw [noRegionLocs]
    split
    · next hbig => exact iff_of_true List.mem_cons_self ⟨by omega, hbig⟩
    · next hbig => exact iff_of_false List.not_mem_nil fun hh => hbig hh.2
  · rw [RcvSge.InRegion]
    cases hlook : dev.mrLook sge.remoteKey with
    | none => simp [Nat.pos_iff_ne_zero]
    | some =>
      rw [none_mem_window_iff]
      simp [Mr.Holds]

lemma rcvSgeSyncLocs_eq {dev : Dev} {sge : RcvSge} (h : none ∉ rcvSgeSyncLocs dev sge) :
    rcvSgeSyncLocs dev sge = sge.mem dev := by
  by_cases hzero : sge.len = 0
  · rw [rcvSgeSyncLocs_empty hzero, RcvSge.mem, hzero]
    split <;> rfl
  rw [none_mem_rcvSgeSyncLocs_iff, RcvSge.Refused, not_and] at h
  have h := h hzero
  rw [rcvSgeSyncLocs, RcvSge.mem]
  split
  · next hkey =>
    rw [if_pos hkey] at h
    exact if_neg h
  · next hkey =>
    rw [if_neg hkey, not_not] at h
    obtain ⟨mr, hlook, hholds⟩ := h
    have hfits := mr.fits
    rw [hlook]
    refine (span_map_byteAt ?_).symm
    rw [Mr.Holds] at hholds
    omega

/-- The sync of a receive list ends, covers exactly its memory, and fails exactly if some entry is
refused. -/
lemma zipSync_exact (dev : Dev) (lrcvSgList : List RcvSge) :
    zipSyncRounds (rcvTotal lrcvSgList) dev lrcvSgList = some (zipSync dev lrcvSgList) ∧
    (∀ syncs, zipSync dev lrcvSgList = (.ok (), syncs) →
      (syncs.flatMap MrSync.bytes).map some = lrcvSgList.flatMap (RcvSge.mem dev) ∧
      ∀ sync ∈ syncs, sync.Inside fun b =>
        ∃ sge ∈ lrcvSgList, ∃ mr, dev.mrLook sge.remoteKey = some mr ∧ b ∈ mr.sgList) ∧
    ((∃ e syncs, zipSync dev lrcvSgList = (.error e, syncs)) ↔
      ∃ sge ∈ lrcvSgList, sge.Refused dev) := by
  obtain ⟨hends, hinside, hdone⟩ := zipSync_spec dev
    (P := fun b => ∃ sge ∈ lrcvSgList, ∃ mr, dev.mrLook sge.remoteKey = some mr ∧ b ∈ mr.sgList)
    fun sge hsge mr hlook b hb => ⟨sge, hsge, mr, hlook, hb⟩
  have hrefused : none ∈ lrcvSgList.flatMap (rcvSgeSyncLocs dev) ↔
      ∃ sge ∈ lrcvSgList, sge.Refused dev := by
    simp only [List.mem_flatMap, none_mem_rcvSgeSyncLocs_iff]
  refine ⟨hends, ?_⟩
  generalize zipSync dev lrcvSgList = out at hinside hdone
  obtain ⟨res, calls⟩ := out
  cases res with
  | error e => exact ⟨nofun, iff_of_true ⟨e, calls, rfl⟩ (hrefused.1 hdone)⟩
  | ok =>
    have hnone : none ∉ lrcvSgList.flatMap (rcvSgeSyncLocs dev) := by
      rw [← show _ = lrcvSgList.flatMap (rcvSgeSyncLocs dev) from hdone]
      simp
    refine ⟨fun syncs hsyncs => ?_, iff_of_false ?_ (hrefused.not.1 hnone)⟩
    · cases hsyncs
      refine ⟨(show _ = lrcvSgList.flatMap (rcvSgeSyncLocs dev) from hdone).trans ?_, hinside⟩
      exact List.flatMap_congr fun sge hsge =>
        rcvSgeSyncLocs_eq fun hin => hnone (List.mem_flatMap.2 ⟨sge, hsge, hin⟩)
    · rintro ⟨e, syncs, heq⟩
      cases heq

/-! ## The lists that are posted -/

/-- An entry as `ntrdma_ib_recv_to_wqe` makes it: one without a shadow does not have the reserved
key, and the shadow of the other is not longer than a request can say. -/
def RcvSge.Posted : RcvSge → Prop
  | direct sge => sge.lkey ≠ reservedDmaLkey
  | shadow _ desc => desc.size.toNat < 2 ^ 63

/-- The memory of an entry without a shadow. -/
def RcvSge.directMem (dev : Dev) : RcvSge → List (Option UInt64)
  | direct sge => (span sge.addr sge.length.toNat).map fun a =>
    (dev.mrLook sge.lkey).bind fun mr => mr.byte a
  | shadow _ _ => []

/-- An entry without a shadow that has bytes, and an unknown key or bytes outside of its region. -/
def RcvSge.Outside (dev : Dev) : RcvSge → Prop
  | direct sge => sge.length ≠ 0 ∧
    ∀ mr, dev.mrLook sge.lkey = some mr → ¬ mr.Holds sge.addr sge.length.toNat
  | shadow _ _ => False

section
variable {dev : Dev} {sge : RcvSge} {lrcvSgList : List RcvSge}

lemma ntcExportBufMakeDesc_size_le (buf : ExportBuf) (chanAddr : UInt64) :
    (ntcExportBufMakeDesc buf chanAddr).size.toNat ≤ buf.size.toNat := by
  rw [ntcExportBufMakeDesc]
  split
  · exact Nat.zero_le _
  · exact Nat.le_refl _

lemma ibRecvToSge_posted {alloc : ShadowAlloc} {ibSge : IbSge}
    (h : ibRecvToSge dev alloc ibSge = .ok sge) : sge.Posted := by
  unfold ibRecvToSge at h
  split at h
  next hdirect =>
    cases h
    rw [rcvDirect, Bool.and_eq_true] at hdirect
    have hkey : ibSge.lkey ≠ reservedDmaLkey := by simpa [ibSgeReserved] using hdirect.1
    exact hkey
  next =>
    cases alloc with
    | noShadow => cases h
    | noBuf => cases h
    | ok _ chanAddr =>
      cases h
      refine (ntcExportBufMakeDesc_size_le _ chanAddr).trans_lt ?_
      have hlen := ibSge.length.toNat_lt
      rw [rcvShadow, UInt32.toNat_toUInt64]
      omega

lemma ibRecvToSgl_posted {alloc : Nat → ShadowAlloc} {sgl : List IbSge}
    (h : ibRecvToSgl dev alloc sgl = .ok lrcvSgList) : ∀ sge ∈ lrcvSgList, sge.Posted := by
  induction sgl generalizing alloc lrcvSgList with
  | nil =>
    cases h
    exact nofun
  | cons _ _ ih =>
    rw [ibRecvToSgl] at h
    split at h
    next => cases h
    next rcvSge hone =>
      split at h
      next => cases h
      next hrest =>
        cases h
        exact List.forall_mem_cons.2 ⟨ibRecvToSge_posted hone, ih hrest⟩

/-- Every list of an entry is one that was posted. -/
lemma ibRecvToWqe_posted {sgCap : UInt32} {alloc : Nat → ShadowAlloc} {wqe : RecvWqe} {wr : RecvWr}
    (h : ∀ sge ∈ wqe.rcvSgList, sge.Posted) :
    ∀ sge ∈ (ibRecvToWqe dev sgCap alloc wqe wr).2.rcvSgList, sge.Posted := by
  simp only [ibRecvToWqe]
  split
  · exact h
  · split
    · exact List.forall_mem_nil _
    next hsgl => exact ibRecvToSgl_posted hsgl

lemma RcvSge.Posted.mem_eq (h : sge.Posted) : sge.mem dev = sge.directMem dev := by
  cases sge with
  | direct sge =>
    have hkey : (RcvSge.direct sge).remoteKey ≠ reservedDmaLkey := h
    rw [RcvSge.mem, if_neg hkey, RcvSge.len, UInt32.toNat_toUInt64]
    rfl
  | shadow => exact if_pos rfl

lemma RcvSge.Posted.refused_iff (h : sge.Posted) : sge.Refused dev ↔ sge.Outside dev := by
  cases sge with
  | direct sge =>
    have hzero : sge.length.toUInt64 = 0 ↔ sge.length = 0 := by
      rw [← UInt64.toNat_inj, ← UInt32.toNat_inj, UInt32.toNat_toUInt64]
      rfl
    have hkey : (RcvSge.direct sge).remoteKey ≠ reservedDmaLkey := h
    rw [RcvSge.Refused, if_neg hkey, RcvSge.InRegion, RcvSge.len,
      UInt32.toNat_toUInt64, ne_eq, hzero]
    simp [RcvSge.Outside, RcvSge.remoteKey, RcvSge.sgeAddr]
  | shadow => exact iff_of_false (fun hr => (Nat.not_le_of_lt h) hr.2) id

end

/-- **Receive sync**: on a list that was posted it ends. If it succeeds, its calls cover exactly the
memory of the entries without a shadow, each a range of one element that is not empty; it fails
exactly if one of these entries has an unknown key or leaves its region. -/
theorem zipSync_posted (dev : Dev) {lrcvSgList : List RcvSge} (h : ∀ sge ∈ lrcvSgList, sge.Posted) :
    zipSyncRounds (rcvTotal lrcvSgList) dev lrcvSgList = some (zipSync dev lrcvSgList) ∧
    (∀ syncs, zipSync dev lrcvSgList = (.ok (), syncs) →
      (syncs.flatMap MrSync.bytes).map some = lrcvSgList.flatMap (RcvSge.directMem dev) ∧
      ∀ sync ∈ syncs, sync.Inside fun b =>
        ∃ sge ∈ lrcvSgList, ∃ mr, dev.mrLook sge.remoteKey = some mr ∧ b ∈ mr.sgList) ∧
    ((∃ e syncs, zipSync dev lrcvSgList = (.error e, syncs)) ↔
      ∃ sge ∈ lrcvSgList, sge.Outside dev) := by
  obtain ⟨hends, hok, hfails⟩ := zipSync_exact dev lrcvSgList
  have hmem : lrcvSgList.flatMap (RcvSge.mem dev) = lrcvSgList.flatMap (RcvSge.directMem dev) :=
    List.flatMap_congr fun sge hsge => (h sge hsge).mem_eq
  refine ⟨hends, fun syncs heq => ?_, hfails.trans ?_⟩
  · rw [← hmem]
    exact hok syncs heq
  · exact exists_congr fun sge => and_congr_right fun hsge => (h sge hsge).refused_iff

def writableDev : Dev :=
  { smallDev with
    mrLook := fun key => (smallDev.mrLook key).map fun mr =>
      { mr with access := accessRemoteWrite } }

theorem zipSync_posted_two : ∃ rcvSgList,
    ibRecvToSgl writableDev (fun _ => .ok 8 8) [⟨0x11, 3, 1⟩,
      ⟨0, 4, reservedDmaLkey⟩] = .ok rcvSgList ∧
      zipSync writableDev rcvSgList = (.ok (), [⟨⟨2, 0xA0⟩, 1, 1⟩, ⟨⟨4, 0xC0⟩, 0, 2⟩]) ∧
      ([0xA1, 0xC0, 0xC1] : List UInt64).map some = rcvSgList.flatMap
        (RcvSge.directMem writableDev) := by
  obtain ⟨rcvSgList, hlist, hsync⟩ : ∃ rcvSgList,
      ibRecvToSgl writableDev (fun _ => .ok 8 8) [⟨0x11, 3, 1⟩,
        ⟨0, 4, reservedDmaLkey⟩] = .ok rcvSgList ∧
        zipSync writableDev rcvSgList = (.ok (),
          [⟨⟨2, 0xA0⟩, 1, 1⟩, ⟨⟨4, 0xC0⟩, 0, 2⟩]) := ⟨_, rfl, rfl⟩
  exact ⟨rcvSgList, hlist, hsync,
    ((zipSync_posted writableDev (ibRecvToSgl_posted hlist)).2.1 _ hsync).1⟩

end Ntrdma
