import Ntrdma.Lib.RefTrace
import Ntrdma.Zip.Exact
import Ntrdma.Zip.Imm
import Ntrdma.Zip.Sync

/-!
# The references of the copy engine

The functions of `ntrdma_zip.c` with the references they take and give back: a lookup takes a
reference to the region it finds (`ntrdma_res_look`, `ntrdma_rres_look`), a cursor keeps it over
entries with the same key and gives it back when the key changes (`ntrdma_mr_put`, `ntrdma_rmr_put`)
or at the end (`ntrdma_snd_cursor_deinit` and its counterparts). A round of a loop uses the regions
whose elements it reads. The results are those of the functions without references (`Balanced`).

A region is known by the kind of its table and the key under which it is found. A region that is
found has a reference.
-/

namespace Ntrdma
open Lib

inductive Region where
  | mr (key : UInt32)
  | rmr (key : UInt32)
  deriving DecidableEq, Repr

def Dev.Finds (dev : Dev) : Region → Prop
  | .mr key => (dev.mrLook key).isSome
  | .rmr key => (dev.rmrLook key).isSome

/-- The reference counts of the regions of a device; a region that is found was not released. -/
structure RegionRefs (dev : Dev) where
  count : Region → Nat
  pos : ∀ r, dev.Finds r → 0 < count r

/-! ## Cursors -/

section
variable {α : Type} (region : UInt32 → Region)

def heldRef (held : Option α) (key : UInt32) : Multiset Region :=
  match held with
  | none => 0
  | some _ => region key ::ₘ 0

/-- The references of `cursorLook`: a held region with another key is put, and a region that is
looked up is taken. -/
def cursorLookRefs (look : UInt32 → Option α) (held : Option α) (heldKey key : UInt32) :
    List (RefEvent Region) :=
  let drop := held.isSome && heldKey != key
  (if drop then [.put (region heldKey)] else []) ++
    (if (drop || held.isNone) && key != reservedDmaLkey && (look key).isSome then
      [.get (region key)] else [])

def cursorUse (held : Option α) (key : UInt32) : List (RefEvent Region) :=
  if held.isSome then [.use (region key)] else []

/-- The end of a cursor: C `ntrdma_snd_cursor_deinit`, `ntrdma_rcv_cursor_deinit` and
`ntrdma_lrcv_cursor_deinit`. -/
def cursorDeinit (held : Option α) (key : UInt32) : List (RefEvent Region) :=
  if held.isSome then [.put (region key)] else []

variable {region} {alive : Region → Prop} {look : UInt32 → Option α} {held : Option α}
  {heldKey key : UInt32}

lemma cursorUse_replay :
    Replay alive (heldRef region held key) (cursorUse region held key)
      (heldRef region held key) := by
  cases held with
  | none => exact .nil
  | some =>
    rw [heldRef]
    exact .use .nil

lemma cursorDeinit_replay :
    Replay alive (heldRef region held key) (cursorDeinit region held key) 0 := by
  cases held with
  | none => exact .nil
  | some =>
    rw [heldRef]
    exact .put .nil

def lookRef (region : UInt32 → Region) (key : UInt32) : Except Errno (Option α) → Multiset Region
  | .error _ => 0
  | .ok m => heldRef region m key

lemma cursorLookRefs_none :
    cursorLookRefs region look none heldKey key =
      if key = reservedDmaLkey then []
      else match look key with
        | none => []
        | some _ => [.get (region key)] := by
  by_cases hkey : key = reservedDmaLkey
  · simp [cursorLookRefs, hkey]
  · cases hlook : look key <;> simp [cursorLookRefs, hkey, hlook]

lemma cursorLook_none_replay (halive : ∀ key, (look key).isSome → alive (region key)) :
    Replay alive 0 (cursorLookRefs region look none heldKey key)
      (lookRef region key (cursorLook look none heldKey key)) := by
  rw [cursorLookRefs_none, cursorLook_none]
  split
  · exact .nil
  · cases hlook : look key with
    | none => exact .nil
    | some => exact .get (halive key (by rw [hlook]; rfl)) .nil

lemma cursorLook_replay (halive : ∀ key, (look key).isSome → alive (region key)) :
    Replay alive (heldRef region held heldKey) (cursorLookRefs region look held heldKey key)
      (lookRef region key (cursorLook look held heldKey key)) := by
  cases held with
  | none => exact cursorLook_none_replay halive
  | some m =>
    by_cases heq : heldKey = key
    · subst heq
      have hlook : cursorLook look (some m) heldKey heldKey = .ok (some m) := by simp [cursorLook]
      have hrefs : cursorLookRefs region look (some m) heldKey heldKey =
        [] := by simp [cursorLookRefs]
      rw [hlook, hrefs]
      exact .nil
    · -- the old reference is given back first
      have hlook : cursorLook look (some m) heldKey key = cursorLook look none heldKey key := by
        simp [cursorLook, heq]
      have hrefs : cursorLookRefs region look (some m) heldKey key =
          .put (region heldKey) :: cursorLookRefs region look none heldKey key := by
        simp [cursorLookRefs, heq]
      rw [hlook, hrefs]
      exact .put (cursorLook_none_replay halive)

end

def sndCursorUpdateRefs (dev : Dev) (c : SndCursor) : List (RefEvent Region) :=
  if c.sndRem ≠ 0 then []
  else
    match sndSgListSkipEmpty c.sndSge with
    | [] => []
    | sge :: _ => cursorLookRefs .mr dev.mrLook c.mr c.mrKey sge.lkey

def rcvCursorUpdateRefs (dev : Dev) (c : RcvCursor) : List (RefEvent Region) :=
  if c.rcvRem ≠ 0 then []
  else
    match (rcvSgListSkip c.offset c.rcvSge).2 with
    | [] => []
    | sge :: _ => cursorLookRefs .rmr dev.rmrLook c.rmr c.rmrKey sge.remoteKey

def lrcvCursorUpdateRefs (dev : Dev) (c : LrcvCursor) : List (RefEvent Region) :=
  if c.lrcvRem ≠ 0 then []
  else
    match rcvSgListSkipEmpty c.lrcvSge with
    | [] => []
    | sge :: _ => cursorLookRefs .mr dev.mrLook c.mr c.mrKey sge.remoteKey

def SndCursor.held (c : SndCursor) : Multiset Region := heldRef .mr c.mr c.mrKey

def RcvCursor.held (c : RcvCursor) : Multiset Region := heldRef .rmr c.rmr c.rmrKey

def LrcvCursor.held (c : LrcvCursor) : Multiset Region := heldRef .mr c.mr c.mrKey

section
variable (dev : Dev)

lemma SndCursor.nextIoOffUpdate_held (c : SndCursor) : c.nextIoOffUpdate.2.held = c.held := by
  rw [SndCursor.nextIoOffUpdate]
  split
  · rfl
  · dsimp only
    split <;> rfl

lemma sndCursorUpdate_replay (c : SndCursor) :
    Replay dev.Finds c.held (sndCursorUpdateRefs dev c) (sndCursorUpdate dev c).2.held := by
  rw [sndCursorUpdateRefs, sndCursorUpdate]
  split
  · rw [c.nextIoOffUpdate_held]
    exact .nil
  · cases sndSgListSkipEmpty c.sndSge with
    | nil => exact .nil
    | cons sge =>
      have hlook : Replay dev.Finds c.held (cursorLookRefs .mr dev.mrLook
        c.mr c.mrKey sge.lkey) _ :=
        cursorLook_replay fun _ => id
      dsimp only
      generalize cursorLook dev.mrLook c.mr c.mrKey sge.lkey = res at hlook ⊢
      cases res with
      | error => exact hlook
      | ok mr =>
        rw [SndCursor.nextIoOffUpdate_held]
        cases mr <;> exact hlook

lemma RcvCursor.nextIoOffUpdate_held (c : RcvCursor) : c.nextIoOffUpdate.2.held = c.held := by
  rw [RcvCursor.nextIoOffUpdate]
  split
  · rfl
  · dsimp only
    split <;> rfl

lemma rcvCursorUpdate_replay (c : RcvCursor) :
    Replay dev.Finds c.held (rcvCursorUpdateRefs dev c) (rcvCursorUpdate dev c).2.held := by
  rw [rcvCursorUpdateRefs, rcvCursorUpdate]
  split
  · rw [c.nextIoOffUpdate_held]
    exact .nil
  · generalize rcvSgListSkip c.offset c.rcvSge = r
    obtain ⟨offset, l⟩ := r
    cases l with
    | nil => exact .nil
    | cons sge =>
      have hlook : Replay dev.Finds c.held (cursorLookRefs .rmr dev.rmrLook c.rmr
        c.rmrKey sge.remoteKey) _ :=
        cursorLook_replay fun _ => id
      dsimp only
      generalize cursorLook dev.rmrLook c.rmr c.rmrKey sge.remoteKey = res at hlook ⊢
      cases res with
      | error => exact hlook
      | ok rmr =>
        rw [RcvCursor.nextIoOffUpdate_held]
        cases rmr <;> exact hlook

lemma LrcvCursor.nextIoOffUpdate_held (c : LrcvCursor) : c.nextIoOffUpdate.2.held = c.held := by
  rw [LrcvCursor.nextIoOffUpdate]
  split
  · rfl
  · dsimp only
    split <;> rfl

lemma lrcvCursorUpdate_replay (c : LrcvCursor) :
    Replay dev.Finds c.held (lrcvCursorUpdateRefs dev c) (lrcvCursorUpdate dev c).2.held := by
  rw [lrcvCursorUpdateRefs, lrcvCursorUpdate]
  split
  · rw [c.nextIoOffUpdate_held]
    exact .nil
  · cases rcvSgListSkipEmpty c.lrcvSge with
    | nil => exact .nil
    | cons sge =>
      have hlook : Replay dev.Finds c.held (cursorLookRefs .mr dev.mrLook c.mr
        c.mrKey sge.remoteKey) _ :=
        cursorLook_replay fun _ => id
      dsimp only
      generalize cursorLook dev.mrLook c.mr c.mrKey sge.remoteKey = res at hlook ⊢
      cases res with
      | error => exact hlook
      | ok mr =>
        rw [LrcvCursor.nextIoOffUpdate_held]
        cases mr <;> exact hlook

end

/-! ## Copies -/

/-- The label `out` of `ntrdma_zip_rdma`: the result and the trace. -/
def zipOut {β : Type} (res : β) (snd : SndCursor) (rcv : RcvCursor)
    (refs : List (RefEvent Region)) : β × List (RefEvent Region) :=
  (res, refs ++ cursorDeinit .mr snd.mr snd.mrKey ++ cursorDeinit .rmr rcv.rmr rcv.rmrKey)

def zipLoopRefs (dev : Dev) (dmaWait : DmaWait) :
    Nat → SndCursor → RcvCursor → UInt32 → Chan → List (RefEvent Region) →
      Option ((Except Errno UInt32 × Chan) × List (RefEvent Region))
  | 0, _, _, _, _, _ => none
  | fuel + 1, snd, rcv, totalLen, chan, refs =>
    let refs := refs ++ cursorUse .mr snd.mr snd.mrKey ++ cursorUse .rmr rcv.rmr rcv.rmrKey
    match cursorNextIo dev rcv snd chan dmaWait with
    | (.error e, chan) => some (zipOut (.error e, chan) snd rcv refs)
    | (.ok len, chan) =>
      if totalLen.toUInt64 + len ≠ (totalLen + len.toUInt32).toUInt64 then
        some (zipOut (.error .einval, chan) snd rcv refs)
      else
        let totalLen := totalLen + len.toUInt32
        let refs := refs ++ sndCursorUpdateRefs dev (snd.advance len)
        match sndCursorForward dev snd len with
        | (.done, snd) => some (zipOut (.ok totalLen, chan) snd rcv refs)
        | (.fail e, snd) => some (zipOut (.error e, chan) snd rcv refs)
        | (.more, snd) =>
          let refs := refs ++ rcvCursorUpdateRefs dev (rcv.advance len)
          match rcvCursorForward dev rcv len with
          | (.done, rcv) => some (zipOut (.ok totalLen, chan) snd rcv refs)
          | (.fail e, rcv) => some (zipOut (.error e, chan) snd rcv refs)
          | (.more, rcv) => zipLoopRefs dev dmaWait fuel snd rcv totalLen chan refs

def zipRdmaRefs (rounds : Nat) (dev : Dev) (chan : Chan) (rcvSgList : List RcvSge)
    (sndSgList : List IbSge) (rcvStartOffset : UInt32) (dmaWait : DmaWait) :
    Option ((Except Errno UInt32 × Chan) × List (RefEvent Region)) :=
  let snd := sndCursorInit sndSgList
  let rcv := rcvCursorInit rcvSgList rcvStartOffset
  let refs := sndCursorUpdateRefs dev snd
  match sndCursorUpdate dev snd with
  | (.done, snd) => some (zipOut (.ok 0, chan) snd rcv refs)
  | (.fail e, snd) => some (zipOut (.error e, chan) snd rcv refs)
  | (.more, snd) =>
    let refs := refs ++ rcvCursorUpdateRefs dev rcv
    match rcvCursorUpdate dev rcv with
    | (.done, rcv) => some (zipOut (.ok 0, chan) snd rcv refs)
    | (.fail e, rcv) => some (zipOut (.error e, chan) snd rcv refs)
    | (.more, rcv) => zipLoopRefs dev dmaWait rounds snd rcv 0 chan refs

def zipImmOut {β : Type} (res : β) (rcv : RcvCursor) (refs : List (RefEvent Region)) :
    β × List (RefEvent Region) :=
  (res, refs ++ cursorDeinit .rmr rcv.rmr rcv.rmrKey)

def zipImmLoopRefs (dev : Dev) :
    Nat → RcvCursor → List UInt8 → Chan → List (RefEvent Region) →
      Option ((Except Errno Unit × Chan) × List (RefEvent Region))
  | 0, _, _, _, _ => none
  | fuel + 1, rcv, sndData, chan, refs =>
    let refs := refs ++ cursorUse .rmr rcv.rmr rcv.rmrKey
    match cursorNextImmIo dev rcv sndData chan with
    | (.error e, chan) => some (zipImmOut (.error e, chan) rcv refs)
    | (.ok len, chan) =>
      let sndData := sndData.drop len.toNat
      if sndData.isEmpty then some (zipImmOut (.ok (), chan) rcv refs)
      else
        let refs := refs ++ rcvCursorUpdateRefs dev (rcv.advance len)
        match rcvCursorForward dev rcv len with
        | (.done, rcv) => some (zipImmOut (.ok (), chan) rcv refs)
        | (.fail e, rcv) => some (zipImmOut (.error e, chan) rcv refs)
        | (.more, rcv) => zipImmLoopRefs dev fuel rcv sndData chan refs

/-- C `ntrdma_zip_rdma_imm` with its references. Nothing is done if there are no data. -/
def zipRdmaImmRefs (rounds : Nat) (dev : Dev) (chan : Chan) (rcvSgList : List RcvSge)
    (sndData : List UInt8) (rcvStartOffset : UInt32) :
    Option ((Except Errno Unit × Chan) × List (RefEvent Region)) :=
  if sndData.isEmpty then some ((.ok (), chan), [])
  else
    let rcv := rcvCursorInit rcvSgList rcvStartOffset
    let refs := rcvCursorUpdateRefs dev rcv
    match rcvCursorUpdate dev rcv with
    | (.done, rcv) => some (zipImmOut (.ok (), chan) rcv refs)
    | (.fail e, rcv) => some (zipImmOut (.error e, chan) rcv refs)
    | (.more, rcv) => zipImmLoopRefs dev rounds rcv sndData chan refs

def zipSyncOut {β : Type} (res : β) (c : LrcvCursor) (refs : List (RefEvent Region)) :
    β × List (RefEvent Region) :=
  (res, refs ++ cursorDeinit .mr c.mr c.mrKey)

def zipSyncLoopRefs (dev : Dev) :
    Nat → LrcvCursor → List MrSync → List (RefEvent Region) →
      Option ((Except Errno Unit × List MrSync) × List (RefEvent Region))
  | 0, _, _, _ => none
  | fuel + 1, c, syncs, refs =>
    let refs := refs ++ cursorUse .mr c.mr c.mrKey
    match lrcvCursorNextIoDeref c with
    | (.error e, calls) => some (zipSyncOut (.error e, syncs ++ calls) c refs)
    | (.ok len, calls) =>
      let refs := refs ++ lrcvCursorUpdateRefs dev (c.advance len)
      match lrcvCursorForward dev c len with
      | (.done, c) => some (zipSyncOut (.ok (), syncs ++ calls) c refs)
      | (.fail e, c) => some (zipSyncOut (.error e, syncs ++ calls) c refs)
      | (.more, c) => zipSyncLoopRefs dev fuel c (syncs ++ calls) refs

def zipSyncRefs (rounds : Nat) (dev : Dev) (lrcvSgList : List RcvSge) :
    Option ((Except Errno Unit × List MrSync) × List (RefEvent Region)) :=
  let c := lrcvCursorInit lrcvSgList
  let refs := lrcvCursorUpdateRefs dev c
  match lrcvCursorUpdate dev c with
  | (.done, c) => some (zipSyncOut (.ok (), []) c refs)
  | (.fail e, c) => some (zipSyncOut (.error e, []) c refs)
  | (.more, c) => zipSyncLoopRefs dev rounds c [] refs

/-- The uses of a region in the second loop of `ntrdma_zip_memcpy`: one for each copy. -/
def zipMemcpyUses (region : Region) : List MrBuf → UInt64 → List UInt8 → List (RefEvent Region)
  | [], _, _ => []
  | b :: rest, nextIoOff, src =>
    if src.isEmpty then []
    else
      let nextIoSize := min (UInt64.ofNat src.length) (b.size - nextIoOff)
      .use region :: zipMemcpyUses region rest 0 (src.drop nextIoSize.toNat)

def zipMemcpyRefs (dev : Dev) (targetKey : UInt32) (targetAddr : UInt64) (src : List UInt8) :
    (Except Errno Unit × List (UInt64 × UInt8)) × List (RefEvent Region) :=
  if src.isEmpty then ((.ok (), []), [])
  else
    match dev.mrLook targetKey with
    | none => ((.error .einval, []), [])
    | some mr =>
      let r := skip MrBuf.size (targetAddr - mr.addr) mr.sgList
      let (left, stores) := zipMemcpyLoop r.2 r.1 src
      ((if left.isEmpty then .ok () else .error .einval, stores),
        .get (.mr targetKey) :: zipMemcpyUses (.mr targetKey) r.2 r.1 src ++ [.put (.mr targetKey)])

/-! ## The references are given back -/

section
variable {dev : Dev}

lemma SndCursor.advance_held (c : SndCursor) (len : UInt64) : (c.advance len).held = c.held := by
  rw [SndCursor.advance]
  split <;> rfl

lemma RcvCursor.advance_held (c : RcvCursor) (len : UInt64) : (c.advance len).held = c.held := by
  rw [RcvCursor.advance]
  split <;> rfl

lemma LrcvCursor.advance_held (c : LrcvCursor) (len : UInt64) : (c.advance len).held = c.held := by
  rw [LrcvCursor.advance]
  split <;> rfl

lemma sndCursorForward_replay (dev : Dev) (c : SndCursor) (len : UInt64) :
    Replay dev.Finds c.held (sndCursorUpdateRefs dev (c.advance len))
      (sndCursorForward dev c len).2.held := by
  rw [← c.advance_held len]
  exact sndCursorUpdate_replay dev (c.advance len)

lemma rcvCursorForward_replay (dev : Dev) (c : RcvCursor) (len : UInt64) :
    Replay dev.Finds c.held (rcvCursorUpdateRefs dev (c.advance len))
      (rcvCursorForward dev c len).2.held := by
  rw [← c.advance_held len]
  exact rcvCursorUpdate_replay dev (c.advance len)

lemma lrcvCursorForward_replay (dev : Dev) (c : LrcvCursor) (len : UInt64) :
    Replay dev.Finds c.held (lrcvCursorUpdateRefs dev (c.advance len))
      (lrcvCursorForward dev c len).2.held := by
  rw [← c.advance_held len]
  exact lrcvCursorUpdate_replay dev (c.advance len)

/-- A function with its references has the results it has without them, and gives all references
back. -/
def Balanced (dev : Dev) {β : Type} : Option (β × List (RefEvent Region)) → Option β → Prop :=
  Option.Rel fun traced res => traced.1 = res ∧ Replay dev.Finds 0 traced.2 0

section
variable {snd : SndCursor} {rcv : RcvCursor} {c : LrcvCursor} {refs : List (RefEvent Region)}

lemma Balanced.exists_of_some {β : Type} {traced : Option (β × List (RefEvent Region))} {res : β}
    (h : Balanced dev traced (some res)) : ∃ evs, traced = some (res, evs) ∧
      Replay dev.Finds 0 evs 0 := by
  cases h with
  | @some traced _ h =>
    obtain ⟨rfl, hevs⟩ := h
    exact ⟨traced.2, rfl, hevs⟩

lemma zipOut_balanced {β : Type} {res : β} (h : Replay dev.Finds 0 refs (snd.held + rcv.held)) :
    Balanced dev (some (zipOut res snd rcv refs)) (some res) :=
  .some ⟨rfl, (h.append (cursorDeinit_replay.frame rcv.held)).append
    (cursorDeinit_replay.frame_left 0)⟩

lemma zipImmOut_balanced {β : Type} {res : β} (h : Replay dev.Finds 0 refs rcv.held) :
    Balanced dev (some (zipImmOut res rcv refs)) (some res) :=
  .some ⟨rfl, h.append cursorDeinit_replay⟩

lemma zipSyncOut_balanced {β : Type} {res : β} (h : Replay dev.Finds 0 refs c.held) :
    Balanced dev (some (zipSyncOut res c refs)) (some res) :=
  .some ⟨rfl, h.append cursorDeinit_replay⟩

lemma zipLoopRefs_balanced (dmaWait : DmaWait) (fuel : Nat) (totalLen : UInt32) (chan : Chan)
    (h : Replay dev.Finds 0 refs (snd.held + rcv.held)) :
    Balanced dev (zipLoopRefs dev dmaWait fuel snd rcv totalLen chan refs)
      (zipLoop dev dmaWait fuel snd rcv totalLen chan) := by
  induction fuel generalizing snd rcv totalLen chan refs with
  | zero => exact .none
  | succ _ ih =>
    have huse : Replay dev.Finds 0
        (refs ++ cursorUse .mr snd.mr snd.mrKey ++ cursorUse .rmr rcv.rmr rcv.rmrKey)
          (snd.held + rcv.held) :=
      (h.append (cursorUse_replay.frame rcv.held)).append (cursorUse_replay.frame_left snd.held)
    rw [zipLoopRefs, zipLoop]
    obtain ⟨rc, chan⟩ := cursorNextIo dev rcv snd chan dmaWait
    cases rc with
    | error => exact zipOut_balanced huse
    | ok len =>
      dsimp only
      split
      · exact zipOut_balanced huse
      · have hsnd := huse.append ((sndCursorForward_replay dev snd len).frame rcv.held)
        generalize sndCursorForward dev snd len = step at hsnd ⊢
        obtain ⟨rc, snd⟩ := step
        cases rc with
        | done => exact zipOut_balanced hsnd
        | fail => exact zipOut_balanced hsnd
        | more =>
          have hrcv := hsnd.append ((rcvCursorForward_replay dev rcv len).frame_left snd.held)
          generalize rcvCursorForward dev rcv len = step at hrcv ⊢
          obtain ⟨rc, rcv⟩ := step
          cases rc with
          | done => exact zipOut_balanced hrcv
          | fail => exact zipOut_balanced hrcv
          | more => exact ih _ _ hrcv

lemma zipRdmaRefs_balanced (dev : Dev) (rounds : Nat) (chan : Chan) (rcvSgList : List RcvSge)
    (sndSgList : List IbSge) (rcvStartOffset : UInt32) (dmaWait : DmaWait) :
    Balanced dev (zipRdmaRefs rounds dev chan rcvSgList sndSgList rcvStartOffset dmaWait)
      (zipRdmaRounds rounds dev chan rcvSgList sndSgList rcvStartOffset dmaWait) := by
  have hsnd := (sndCursorUpdate_replay dev (sndCursorInit sndSgList)).frame
    (rcvCursorInit rcvSgList rcvStartOffset).held
  rw [zipRdmaRefs, zipRdmaRounds]
  generalize sndCursorUpdate dev (sndCursorInit sndSgList) = step at hsnd ⊢
  obtain ⟨rc, snd⟩ := step
  cases rc with
  | done => exact zipOut_balanced hsnd
  | fail => exact zipOut_balanced hsnd
  | more =>
    have hrcv := hsnd.append
      ((rcvCursorUpdate_replay dev (rcvCursorInit rcvSgList rcvStartOffset)).frame_left snd.held)
    generalize rcvCursorUpdate dev (rcvCursorInit rcvSgList rcvStartOffset) = step at hrcv ⊢
    obtain ⟨rc, rcv⟩ := step
    cases rc with
    | done => exact zipOut_balanced hrcv
    | fail => exact zipOut_balanced hrcv
    | more => exact zipLoopRefs_balanced dmaWait rounds 0 chan hrcv

lemma zipImmLoopRefs_balanced (fuel : Nat) (sndData : List UInt8) (chan : Chan)
    (h : Replay dev.Finds 0 refs rcv.held) :
    Balanced dev (zipImmLoopRefs dev fuel rcv sndData chan refs)
      (zipImmLoop dev fuel rcv sndData chan) := by
  induction fuel generalizing rcv sndData chan refs with
  | zero => exact .none
  | succ _ ih =>
    have huse : Replay dev.Finds 0 (refs ++ cursorUse .rmr rcv.rmr rcv.rmrKey) rcv.held :=
      h.append cursorUse_replay
    rw [zipImmLoopRefs, zipImmLoop]
    obtain ⟨rc, chan⟩ := cursorNextImmIo dev rcv sndData chan
    cases rc with
    | error => exact zipImmOut_balanced huse
    | ok len =>
      dsimp only
      split
      · exact zipImmOut_balanced huse
      · have hrcv := huse.append (rcvCursorForward_replay dev rcv len)
        generalize rcvCursorForward dev rcv len = step at hrcv ⊢
        obtain ⟨rc, rcv⟩ := step
        cases rc with
        | done => exact zipImmOut_balanced hrcv
        | fail => exact zipImmOut_balanced hrcv
        | more => exact ih _ _ hrcv

lemma zipRdmaImmRefs_balanced (dev : Dev) (rounds : Nat) (chan : Chan) (rcvSgList : List RcvSge)
    (sndData : List UInt8) (rcvStartOffset : UInt32) :
    Balanced dev (zipRdmaImmRefs rounds dev chan rcvSgList sndData rcvStartOffset)
      (zipRdmaImmRounds rounds dev chan rcvSgList sndData rcvStartOffset) := by
  have hrcv := rcvCursorUpdate_replay dev (rcvCursorInit rcvSgList rcvStartOffset)
  rw [zipRdmaImmRefs, zipRdmaImmRounds]
  split
  · exact .some ⟨rfl, .nil⟩
  · dsimp only
    generalize rcvCursorUpdate dev (rcvCursorInit rcvSgList rcvStartOffset) = step at hrcv ⊢
    obtain ⟨rc, rcv⟩ := step
    cases rc with
    | done => exact zipImmOut_balanced hrcv
    | fail => exact zipImmOut_balanced hrcv
    | more => exact zipImmLoopRefs_balanced rounds sndData chan hrcv

lemma zipSyncLoopRefs_balanced (fuel : Nat) (syncs : List MrSync)
    (h : Replay dev.Finds 0 refs c.held) :
    Balanced dev (zipSyncLoopRefs dev fuel c syncs refs) (zipSyncLoop dev fuel c syncs) := by
  induction fuel generalizing c syncs refs with
  | zero => exact .none
  | succ _ ih =>
    have huse : Replay dev.Finds 0 (refs ++ cursorUse .mr c.mr c.mrKey) c.held :=
      h.append cursorUse_replay
    rw [zipSyncLoopRefs, zipSyncLoop]
    obtain ⟨rc, calls⟩ := lrcvCursorNextIoDeref c
    cases rc with
    | error => exact zipSyncOut_balanced huse
    | ok len =>
      have hlrcv := huse.append (lrcvCursorForward_replay dev c len)
      dsimp only
      generalize lrcvCursorForward dev c len = step at hlrcv ⊢
      obtain ⟨rc, c⟩ := step
      cases rc with
      | done => exact zipSyncOut_balanced hlrcv
      | fail => exact zipSyncOut_balanced hlrcv
      | more => exact ih _ hlrcv

lemma zipSyncRefs_balanced (dev : Dev) (rounds : Nat) (lrcvSgList : List RcvSge) :
    Balanced dev (zipSyncRefs rounds dev lrcvSgList) (zipSyncRounds rounds dev lrcvSgList) := by
  have hlrcv := lrcvCursorUpdate_replay dev (lrcvCursorInit lrcvSgList)
  rw [zipSyncRefs, zipSyncRounds]
  generalize lrcvCursorUpdate dev (lrcvCursorInit lrcvSgList) = step at hlrcv ⊢
  obtain ⟨rc, c⟩ := step
  cases rc with
  | done => exact zipSyncOut_balanced hlrcv
  | fail => exact zipSyncOut_balanced hlrcv
  | more => exact zipSyncLoopRefs_balanced rounds [] hlrcv

end

lemma zipMemcpyRefs_res (targetKey : UInt32) (targetAddr : UInt64) (src : List UInt8) :
    (zipMemcpyRefs dev targetKey targetAddr src).1 = zipMemcpy dev targetKey targetAddr src := by
  rw [zipMemcpyRefs, zipMemcpy]
  split
  · rfl
  · cases dev.mrLook targetKey <;> rfl

lemma zipMemcpyUses_replay {alive : Region → Prop} (region : Region) (l : List MrBuf)
    (nextIoOff : UInt64) (src : List UInt8) :
    Replay alive (region ::ₘ 0) (zipMemcpyUses region l nextIoOff src) (region ::ₘ 0) := by
  induction l generalizing nextIoOff src with
  | nil => exact .nil
  | cons _ _ ih =>
    rw [zipMemcpyUses]
    split
    · exact .nil
    · exact .use (ih ..)

lemma zipMemcpyRefs_replay (targetKey : UInt32) (targetAddr : UInt64) (src : List UInt8) :
    Replay dev.Finds 0 (zipMemcpyRefs dev targetKey targetAddr src).2 0 := by
  rw [zipMemcpyRefs]
  split
  · exact .nil
  · cases hlook : dev.mrLook targetKey with
    | none => exact .nil
    | some =>
      have hfinds : dev.Finds (.mr targetKey) := by
        rw [Dev.Finds, hlook]
        rfl
      exact .get hfinds ((zipMemcpyUses_replay ..).append (.put .nil))

end

/-- Every exit of the four functions leaves the reference counts as they were. -/
theorem zip_refsKept (dev : Dev) (refs : RegionRefs dev) :
    (∀ chan rcvSgList sndSgList rcvStartOffset dmaWait, ∃ evs,
      zipRdmaRefs (sndTotal sndSgList) dev chan rcvSgList sndSgList rcvStartOffset dmaWait =
          some (zipRdma dev chan rcvSgList sndSgList rcvStartOffset dmaWait, evs) ∧
        RefsKept refs.count evs) ∧
    (∀ chan rcvSgList sndData rcvStartOffset, sndData.length < 2 ^ 32 → ∃ evs,
      zipRdmaImmRefs sndData.length dev chan rcvSgList sndData rcvStartOffset =
          some (zipRdmaImm dev chan rcvSgList sndData rcvStartOffset, evs) ∧
        RefsKept refs.count evs) ∧
    (∀ lrcvSgList, ∃ evs,
      zipSyncRefs (rcvTotal lrcvSgList) dev lrcvSgList = some (zipSync dev lrcvSgList, evs) ∧
        RefsKept refs.count evs) ∧
    ∀ targetKey targetAddr src, ∃ evs,
      zipMemcpyRefs dev targetKey targetAddr src = (zipMemcpy dev targetKey targetAddr src, evs) ∧
        RefsKept refs.count evs := by
  refine ⟨fun chan rcvSgList sndSgList off dmaWait => ?_,
    fun chan rcvSgList sndData off hsize => ?_,
    fun lrcvSgList => ?_, fun targetKey targetAddr src => ?_⟩
  · have hbalanced := zipRdmaRefs_balanced dev (sndTotal sndSgList) chan
      rcvSgList sndSgList off dmaWait
    rw [(zipRdma_spec dev chan rcvSgList sndSgList off dmaWait).1] at hbalanced
    obtain ⟨evs, hzip, hevs⟩ := hbalanced.exists_of_some
    exact ⟨evs, hzip, hevs.refsKept refs.pos⟩
  · have hbalanced := zipRdmaImmRefs_balanced dev sndData.length chan rcvSgList sndData off
    obtain ⟨r, hr, -⟩ := zipRdmaImmRounds_spec dev chan rcvSgList sndData off hsize
    rw [hr] at hbalanced
    obtain ⟨evs, hzip, hevs⟩ := hbalanced.exists_of_some
    refine ⟨evs, ?_, hevs.refsKept refs.pos⟩
    rw [hzip, zipRdmaImm, hr]
    rfl
  · have hbalanced := zipSyncRefs_balanced dev (rcvTotal lrcvSgList) lrcvSgList
    rw [(zipSync_spec (P := fun _ => True) dev fun _ _ _ _ _ _ => trivial).1] at hbalanced
    obtain ⟨evs, hzip, hevs⟩ := hbalanced.exists_of_some
    exact ⟨evs, hzip, hevs.refsKept refs.pos⟩
  · exact ⟨_, Prod.ext (zipMemcpyRefs_res ..) rfl, (zipMemcpyRefs_replay ..).refsKept refs.pos⟩

def ownerRefs (dev : Dev) : RegionRefs dev := ⟨fun _ => 1, fun _ _ => Nat.one_pos⟩

theorem zip_refsKept_oneByte : ∃ evs,
    zipRdmaImmRefs 1 smallDev freshChan [.direct ⟨0x20, 5, 2⟩] [7] 0 =
        some (zipRdmaImm smallDev freshChan [.direct ⟨0x20, 5, 2⟩] [7] 0, evs) ∧
      RefsKept (ownerRefs smallDev).count evs :=
  (zip_refsKept smallDev (ownerRefs smallDev)).2.1 freshChan
    [.direct ⟨0x20, 5, 2⟩] [7] 0 (by decide)

example : (zipRdmaImmRefs 1 smallDev freshChan [.direct ⟨0x20, 5, 2⟩] [7] 0).map Prod.snd =
    some [.get (.rmr 2), .use (.rmr 2), .put (.rmr 2)] := by decide

end Ntrdma
