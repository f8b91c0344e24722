import Ntrdma.Qp.SendWork
import Ntrdma.Zip.Requests

/-!
# Protection domains

Regions and queue pairs carry the key of their protection domain, but the copy engine looks regions
up by their own key only. This module follows which regions a copy is made between, and says for
which keys the copies of a work request keep to the domains of its queue pair and of the peer.
-/

namespace Ntrdma
open Lib

/-! ## The copies that are made -/

/-- A copy by the keys of the entries it is made between; inline data has no entry. -/
structure Copy where
  src : Option UInt32
  dst : Option UInt32

/-- The copies that the loop of `ntrdma_zip_rdma` makes. -/
def zipLoopCopies (dev : Dev) (dmaWait : DmaWait) :
    Nat → SndCursor → RcvCursor → UInt32 → Chan → List Copy
  | 0, _, _, _, _ => []
  | fuel + 1, snd, rcv, totalLen, chan =>
    match cursorNextIo dev rcv snd chan dmaWait with
    | (.error _, _) => []
    | (.ok len, chan) =>
      ⟨snd.sndSge.head?.map IbSge.lkey, rcv.rcvSge.head?.map RcvSge.remoteKey⟩ ::
        if totalLen.toUInt64 + len ≠ (totalLen + len.toUInt32).toUInt64 then []
        else
          match sndCursorForward dev snd len, rcvCursorForward dev rcv len with
          | (.more, snd), (.more, rcv) => zipLoopCopies dev dmaWait fuel snd rcv
            (totalLen + len.toUInt32) chan
          | _, _ => []

def zipImmLoopCopies (dev : Dev) : Nat → RcvCursor → List UInt8 → Chan → List Copy
  | 0, _, _, _ => []
  | fuel + 1, rcv, sndData, chan =>
    match cursorNextImmIo dev rcv sndData chan with
    | (.error _, _) => []
    | (.ok len, chan) =>
      ⟨none, rcv.rcvSge.head?.map RcvSge.remoteKey⟩ ::
        if (sndData.drop len.toNat).isEmpty then []
        else
          match rcvCursorForward dev rcv len with
          | (.more, rcv) => zipImmLoopCopies dev fuel rcv (sndData.drop len.toNat) chan
          | _ => []

/-- A call of the copy engine: `ntrdma_zip_rdma` or `ntrdma_zip_rdma_imm`. -/
inductive CopyCall where
  | sgl (rcvSgList : List RcvSge) (sndSgList : List IbSge)
    (rcvStartOffset : UInt32) (dmaWait : DmaWait)
  | imm (rcvSgList : List RcvSge) (sndData : List UInt8) (rcvStartOffset : UInt32)

def CopyCall.chan (dev : Dev) (chan : Chan) : CopyCall → Chan
  | sgl rcvSgList sndSgList off dmaWait => (zipRdma dev chan rcvSgList sndSgList off dmaWait).2
  | imm rcvSgList sndData off => (zipRdmaImm dev chan rcvSgList sndData off).2

def CopyCall.copies (dev : Dev) (chan : Chan) : CopyCall → List Copy
  | sgl rcvSgList sndSgList off dmaWait =>
    match sndCursorUpdate dev (sndCursorInit sndSgList),
      rcvCursorUpdate dev (rcvCursorInit rcvSgList off) with
    | (.more, snd), (.more, rcv) => zipLoopCopies dev dmaWait (sndTotal sndSgList) snd rcv 0 chan
    | _, _ => []
  | imm rcvSgList sndData off =>
    if sndData.isEmpty then []
    else
      match rcvCursorUpdate dev (rcvCursorInit rcvSgList off) with
      | (.more, rcv) => zipImmLoopCopies dev sndData.length rcv sndData chan
      | _ => []

/-- The call names these keys of local entries and of entries at the peer. -/
def CopyCall.Names (srcs dsts : List UInt32) : CopyCall → Prop
  | sgl rcvSgList sndSgList _ _ => sndSgList.map IbSge.lkey = srcs ∧
    rcvSgList.map RcvSge.remoteKey = dsts
  | imm rcvSgList sndData _ => sndData.length < 2 ^ 32 ∧ rcvSgList.map RcvSge.remoteKey = dsts

def Chan.Logs (chan : Chan) {α : Type} (res : Except Errno α × Chan) : Prop :=
  match res.1 with
  | .ok _ => res.2.log.length = chan.log.length + 1
  | .error _ => res.2.log = chan.log

lemma Chan.Adds.logs {α : Type} {chan : Chan} {res : Except Errno α × Chan} (h : chan.Adds res) :
    chan.Logs res := by
  obtain ⟨_ | a, chan'⟩ := res
  · exact h
  · obtain ⟨req, hlog⟩ := h
    exact (congrArg List.length hlog).trans List.length_append

section
variable {dev : Dev} {chan : Chan}

variable {fuel : Nat} {snd : SndCursor} {rcv : RcvCursor}

lemma zipLoopCopies_length {dmaWait : DmaWait} {totalLen : UInt32}
    {res : Except Errno UInt32 × Chan}
    (h : zipLoop dev dmaWait fuel snd rcv totalLen chan = some res) :
    res.2.log.length = chan.log.length + (zipLoopCopies dev dmaWait fuel snd rcv
      totalLen chan).length := by
  induction fuel generalizing snd rcv totalLen chan with
  | zero => cases h
  | succ _ ih =>
    rw [zipLoop] at h
    rw [zipLoopCopies]
    have hlog := (cursorNextIo_adds chan dev rcv snd dmaWait).logs
    generalize cursorNextIo dev rcv snd chan dmaWait = next at h hlog ⊢
    obtain ⟨rc, chan'⟩ := next
    cases rc with
    | error =>
      cases h
      exact congrArg List.length hlog
    | ok len =>
      dsimp only at h ⊢
      split at h
      next hover =>
        cases h
        rw [if_pos hover]
        exact hlog
      next hover =>
        rw [if_neg hover, List.length_cons]
        generalize sndCursorForward dev snd len = s at h ⊢
        generalize rcvCursorForward dev rcv len = r at h ⊢
        obtain ⟨_ | _ | _, s⟩ := s
        · obtain ⟨_ | _ | _, r⟩ := r
          · rw [ih h, hlog]
            dsimp only
            omega
          · cases h; exact hlog
          · cases h; exact hlog
        · cases h; exact hlog
        · cases h; exact hlog

lemma zipImmLoopCopies_length {sndData : List UInt8} {res : Except Errno Unit × Chan}
    (h : zipImmLoop dev fuel rcv sndData chan = some res) :
    res.2.log.length = chan.log.length + (zipImmLoopCopies dev fuel rcv sndData chan).length := by
  induction fuel generalizing rcv sndData chan with
  | zero => cases h
  | succ _ ih =>
    rw [zipImmLoop] at h
    rw [zipImmLoopCopies]
    have hlog := (cursorNextImmIo_adds chan dev rcv sndData).logs
    generalize cursorNextImmIo dev rcv sndData chan = next at h hlog ⊢
    obtain ⟨rc, chan'⟩ := next
    cases rc with
    | error =>
      cases h
      exact congrArg List.length hlog
    | ok len =>
      dsimp only at h ⊢
      split at h
      next hempty =>
        cases h
        rw [if_pos hempty]
        exact hlog
      next hempty =>
        rw [if_neg hempty, List.length_cons]
        generalize rcvCursorForward dev rcv len = r at h ⊢
        obtain ⟨rrc, r⟩ := r
        cases rrc with
        | more =>
          rw [ih h, hlog]
          dsimp only
          omega
        | done => cases h; exact hlog
        | fail => cases h; exact hlog

variable {srcs dsts : List UInt32}

lemma CopyCall.copies_length {call : CopyCall} (hnames : call.Names srcs dsts) (chan : Chan) :
    (call.chan dev chan).log.length = chan.log.length + (call.copies dev chan).length := by
  cases call with
  | sgl rcvSgList sndSgList off dmaWait =>
    have h := (zipRdma_spec dev chan rcvSgList sndSgList off dmaWait).1
    simp only [CopyCall.chan, CopyCall.copies]
    simp only [zipRdmaRounds] at h
    generalize zipRdma dev chan rcvSgList sndSgList off dmaWait = res at h ⊢
    generalize sndCursorUpdate dev (sndCursorInit sndSgList) = s at h ⊢
    generalize rcvCursorUpdate dev (rcvCursorInit rcvSgList off) = r at h ⊢
    obtain ⟨_ | _ | _, s⟩ := s
    · obtain ⟨_ | _ | _, r⟩ := r
      · exact zipLoopCopies_length h
      · cases h; rfl
      · cases h; rfl
    · cases h; rfl
    · cases h; rfl
  | imm rcvSgList sndData off =>
    obtain ⟨res, h, -⟩ := zipRdmaImmRounds_spec dev chan rcvSgList sndData off hnames.1
    simp only [CopyCall.chan, CopyCall.copies, zipRdmaImm, h, Option.getD_some]
    simp only [zipRdmaImmRounds] at h
    split at h
    next hempty =>
      cases h
      rw [if_pos hempty]
      rfl
    next hempty =>
      rw [if_neg hempty]
      generalize rcvCursorUpdate dev (rcvCursorInit rcvSgList off) = r at h ⊢
      obtain ⟨rrc, r⟩ := r
      cases rrc with
      | more => exact zipImmLoopCopies_length h
      | done => cases h; rfl
      | fail => cases h; rfl

/-! ## The regions that are used -/

def Dev.HasMr (dev : Dev) (key : UInt32) : Prop :=
  key ≠ reservedDmaLkey ∧ ∃ mr, dev.mrLook key = some mr ∧ ∃ b ∈ mr.sgList, b.size ≠ 0

def Dev.HasRmr (dev : Dev) (key : UInt32) : Prop :=
  key ≠ reservedDmaLkey ∧ ∃ rmr, dev.rmrLook key = some rmr ∧ ∃ b ∈ rmr.sgList, b.size ≠ 0

/-- An entry with this key can be written to: it is in a region, or a shadow buffer that can be
mapped. -/
def Dev.Fills (dev : Dev) (key : UInt32) : Prop :=
  dev.HasRmr key ∨ key = reservedDmaLkey ∧ ∃ desc buf,
    ntcRemoteBufMap dev.ntc desc = .ok buf ∧ buf.size ≠ 0

variable {b : MrBuf}

lemma SndPiece.hasMr {sge : IbSge} (h : SndPiece dev sge b) (hkey : sge.lkey ≠ reservedDmaLkey)
    (hsize : b.size ≠ 0) : dev.HasMr sge.lkey := by
  cases h with
  | reserved hres => exact absurd hres hkey
  | mr _ hlook hb => exact ⟨hkey, _, hlook, b, hb, hsize⟩

lemma RcvPiece.fills {sge : RcvSge} {b : RemoteBuf} (h : RcvPiece dev sge b) (hsize : b.size ≠ 0) :
    dev.Fills sge.remoteKey := by
  cases h with
  | rmr hkey hlook hb => exact .inl ⟨hkey, _, hlook, b, hb, hsize⟩
  | expBuf hkey hmap => exact .inr ⟨hkey, _, b, hmap, hsize⟩

lemma ne_zero_of_lt {a b : UInt64} (h : a < b) : b ≠ 0 := by
  rintro rfl
  exact UInt64.not_lt_zero h

lemma SndCursor.Ready.head (h : snd.Ready dev b) {l : List IbSge} (hsuf : snd.sndSge <:+ l) :
    ∃ key ∈ l.map IbSge.lkey,
      snd.sndSge.head?.map IbSge.lkey = some key ∧
      (key ≠ reservedDmaLkey → dev.HasMr key) := by
  obtain ⟨sge, t, hsge, -, hpiece, -⟩ := h.entry h.rem
  obtain ⟨t', helems⟩ := h.elem
  refine ⟨sge.lkey, List.mem_map_of_mem (hsuf.subset (by simp [hsge])), by
    rw [hsge]; rfl, fun hkey => ?_⟩
  exact (hpiece b (by simp [helems])).hasMr hkey (ne_zero_of_lt h.inside)

lemma RcvCursor.In.head {b : RemoteBuf} (h : rcv.In dev b) {l : List RcvSge}
    (hsuf : rcv.rcvSge <:+ l) : ∃ key ∈ l.map RcvSge.remoteKey,
      rcv.rcvSge.head?.map RcvSge.remoteKey = some key ∧ dev.Fills key := by
  obtain ⟨sge, t, hsge, -, hpiece, -⟩ := h.entry h.rem
  obtain ⟨t', helems⟩ := h.piece
  refine ⟨sge.remoteKey, List.mem_map_of_mem (hsuf.subset (by simp [hsge])), by rw [hsge]; rfl, ?_⟩
  exact (hpiece b (by simp [helems])).fills (ne_zero_of_lt h.inside)

def Copy.Between (dev : Dev) (srcs dsts : List UInt32) (copy : Copy) : Prop :=
  (∀ key, copy.src = some key → key ∈ srcs ∧ (key ≠ reservedDmaLkey → dev.HasMr key)) ∧
    ∃ key ∈ dsts, copy.dst = some key ∧ dev.Fills key

lemma zipLoopCopies_between {dmaWait : DmaWait} {totalLen : UInt32} {chan : Chan}
    {sndSgList : List IbSge} {rcvSgList : List RcvSge} (hs : snd.Ready dev b) (hr : rcv.Ready dev)
    (hsuf : snd.sndSge <:+ sndSgList) (hruf : rcv.rcvSge <:+ rcvSgList) :
    ∀ copy ∈ zipLoopCopies dev dmaWait fuel snd rcv totalLen chan,
      copy.Between dev (sndSgList.map IbSge.lkey) (rcvSgList.map RcvSge.remoteKey) := by
  induction fuel generalizing snd rcv totalLen chan b with
  | zero => exact nofun
  | succ _ ih =>
    intro copy hcopy
    rw [zipLoopCopies] at hcopy
    obtain ⟨d, -, hin⟩ | ⟨-, hempty⟩ := hr.buf_cases
    · obtain ⟨len, fence, -, -, hls, hlr, hnext | ⟨-, e, hnext⟩⟩ :=
        cursorNextIo_eq chan hs hin dmaWait
      · rw [hnext] at hcopy
        obtain rfl | hcopy := List.mem_cons.mp hcopy
        · obtain ⟨src, hsrc, hsome, hmr⟩ := hs.head hsuf
          obtain ⟨dst, hdst, hsome', hfills⟩ := hin.head hruf
          refine ⟨fun key hkey => ?_, dst, hdst, hsome', hfills⟩
          obtain rfl := Option.some.inj (hsome.symm.trans hkey)
          exact ⟨hsrc, hmr⟩
        · split at hcopy
          · cases hcopy
          · have hsnd := sndCursorUpdate_spec (hs.advance_wf hls)
            have hrcv := rcvCursorUpdate_spec (hin.advance_wf hlr)
            rw [sndCursorForward_eq, rcvCursorForward_eq] at hcopy
            generalize sndCursorUpdate dev (snd.advance len) = rs at hsnd hcopy
            generalize rcvCursorUpdate dev (rcv.advance len) = rr at hrcv hcopy
            cases hsnd with
            | done => cases hcopy
            | fail => cases hcopy
            | more hs' _ hsuf' =>
              cases hrcv with
              | fail => cases hcopy
              | more hr' _ hruf' =>
                exact ih hs' hr' (hsuf'.trans (SndCursor.advance_suffix.trans hsuf))
                  (hruf'.trans (RcvCursor.advance_suffix.trans hruf)) copy hcopy
      · rw [hnext] at hcopy
        cases hcopy
    · obtain ⟨e, hnext⟩ := cursorNextIo_error snd chan dmaWait hempty
      rw [hnext] at hcopy
      cases hcopy

lemma zipImmLoopCopies_between {sndData : List UInt8} {chan : Chan} {rcvSgList : List RcvSge}
    (srcs : List UInt32) (hr : rcv.Ready dev) (hruf : rcv.rcvSge <:+ rcvSgList) (hne : sndData ≠ [])
    (hlt : sndData.length < 2 ^ 32) :
    ∀ copy ∈ zipImmLoopCopies dev fuel rcv sndData chan,
      copy.Between dev srcs (rcvSgList.map RcvSge.remoteKey) := by
  induction fuel generalizing rcv sndData chan with
  | zero => exact nofun
  | succ _ ih =>
    intro copy hcopy
    rw [zipImmLoopCopies] at hcopy
    obtain ⟨d, -, hin⟩ | ⟨-, hempty⟩ := hr.buf_cases
    · obtain ⟨len, -, hle, hlr, hnext | ⟨-, e, hnext⟩ | ⟨-, e, hnext⟩⟩ :=
        cursorNextImmIo_eq chan hin hne hlt
      · rw [hnext] at hcopy
        obtain rfl | hcopy := List.mem_cons.mp hcopy
        · obtain ⟨dst, hdst, hsome, hfills⟩ := hin.head hruf
          exact ⟨nofun, dst, hdst, hsome, hfills⟩
        · split at hcopy
          · cases hcopy
          next hrest =>
            have hrcv := rcvCursorUpdate_spec (hin.advance_wf hlr)
            rw [rcvCursorForward_eq] at hcopy
            generalize rcvCursorUpdate dev (rcv.advance len) = rr at hrcv hcopy
            cases hrcv with
            | fail => cases hcopy
            | more hr' _ hruf' =>
              exact ih hr' (hruf'.trans (RcvCursor.advance_suffix.trans hruf))
                (mt List.isEmpty_iff.2 hrest)
                (by rw [List.length_drop]; omega) copy hcopy
      · rw [hnext] at hcopy
        cases hcopy
      · rw [hnext] at hcopy
        cases hcopy
    · obtain ⟨e, hnext⟩ := cursorNextImmIo_error sndData chan hempty
      rw [hnext] at hcopy
      cases hcopy

lemma CopyCall.copies_between {call : CopyCall} (hnames : call.Names srcs dsts) (chan : Chan) :
    ∀ copy ∈ call.copies dev chan, copy.Between dev srcs dsts := by
  intro copy hcopy
  cases call with
  | sgl rcvSgList sndSgList off =>
    obtain ⟨rfl, rfl⟩ := hnames
    have hsnd := sndCursorUpdate_spec (sndCursorInit_wf dev sndSgList)
    have hrcv := rcvCursorUpdate_spec (rcvCursorInit_wf dev rcvSgList off)
    simp only [CopyCall.copies] at hcopy
    generalize sndCursorUpdate dev (sndCursorInit sndSgList) = rs at hsnd hcopy
    generalize rcvCursorUpdate dev (rcvCursorInit rcvSgList off) = rr at hrcv hcopy
    cases hsnd with
    | done => cases hcopy
    | fail => cases hcopy
    | more hs _ hsuf =>
      cases hrcv with
      | fail => cases hcopy
      | more hr _ hruf => exact zipLoopCopies_between hs hr hsuf hruf copy hcopy
  | imm rcvSgList _ off =>
    obtain ⟨hlt, rfl⟩ := hnames
    have hrcv := rcvCursorUpdate_spec (rcvCursorInit_wf dev rcvSgList off)
    simp only [CopyCall.copies] at hcopy
    split at hcopy
    · cases hcopy
    next hne =>
      generalize rcvCursorUpdate dev (rcvCursorInit rcvSgList off) = rr at hrcv hcopy
      cases hrcv with
      | fail => cases hcopy
      | more hr _ hruf =>
        exact zipImmLoopCopies_between srcs hr hruf (mt List.isEmpty_iff.2 hne) hlt copy hcopy

/-! ## Calls that use a region -/

lemma skip_zero_ne_nil {α : Type} {size : α → UInt64} {l : List α} (h : ∃ b ∈ l, size b ≠ 0) :
    (skip size 0 l).2 ≠ [] := by
  induction l with
  | nil => exact absurd h nofun
  | cons b _ ih =>
    rw [skip]
    split
    next hle =>
      have hzero : size b = 0 := UInt64.le_zero_iff.mp hle
      rw [hzero, UInt64.sub_zero]
      refine ih ?_
      obtain ⟨c, hc, hne⟩ := h
      obtain rfl | hc := List.mem_cons.mp hc
      · exact absurd hzero hne
      · exact ⟨c, hc, hne⟩
    · exact List.cons_ne_nil _ _

variable {key : UInt32}

lemma sndCursorUpdate_at {pre post : List IbSge} {mr : Mr} (hpre : ∀ sge ∈ pre, sge.length = 0)
    (hkey : key ≠ reservedDmaLkey) (hlook : dev.mrLook key = some mr)
    (hb : ∃ b ∈ mr.sgList, b.size ≠ 0) :
    ∃ c, sndCursorUpdate dev (sndCursorInit (pre ++ ⟨mr.addr, 1, key⟩ :: post)) = (.more, c) ∧
      c.sndSge.head?.map IbSge.lkey = some key := by
  have hskip : sndSgListSkipEmpty (pre ++ ⟨mr.addr, 1, key⟩ :: post) =
      ⟨mr.addr, 1, key⟩ :: post := by
    induction pre with
    | nil => rfl
    | cons _ _ ih =>
      obtain ⟨hsge, hpre⟩ := List.forall_mem_cons.mp hpre
      rw [List.cons_append, sndSgListSkipEmpty, if_pos hsge]
      exact ih hpre
  have hne := skip_zero_ne_nil hb
  simp only [sndCursorUpdate, sndCursorInit, hskip]
  rw [cursorLook_none, if_neg hkey, hlook]
  simp only [SndCursor.enter, SndCursor.nextIoOffUpdate, UInt64.sub_self]
  generalize skip MrBuf.size 0 mr.sgList = r at hne ⊢
  obtain ⟨off, elems⟩ := r
  cases elems with
  | nil => exact absurd rfl hne
  | cons => exact ⟨_, rfl, rfl⟩

lemma rcvSgListSkip_at {pre post : List RcvSge} {sge : RcvSge} (hpre : ∀ sge ∈ pre, sge.len = 0)
    (hlen : sge.len ≠ 0) : rcvSgListSkip 0 (pre ++ sge :: post) = (0, sge :: post) := by
  induction pre with
  | nil =>
    rw [List.nil_append, rcvSgListSkip, if_pos]
    exact UInt64.pos_iff_ne_zero.mpr hlen
  | cons _ _ ih =>
    obtain ⟨he, hpre⟩ := List.forall_mem_cons.mp hpre
    rw [List.cons_append, rcvSgListSkip, he, if_neg (by decide)]
    exact ih hpre

lemma RcvCursor.Ready.in_of_size {c : RcvCursor} {b : RemoteBuf} (h : c.Ready dev)
    (hbuf : rcvCursorBuf dev c = .ok b) (hsize : b.size ≠ 0) : ∃ b, c.In dev b := by
  obtain ⟨b, -, hin⟩ | ⟨-, hempty⟩ := h.buf_cases
  · exact ⟨b, hin⟩
  · exact absurd (hempty b hbuf) hsize

lemma Dev.Fills.entry (h : dev.Fills key) : ∃ sge : RcvSge, sge.remoteKey = key ∧
    ∀ pre post, (∀ sge ∈ pre, sge.len = 0) →
      ∃ c, rcvCursorUpdate dev (rcvCursorInit (pre ++ sge :: post) 0) = (.more, c) ∧
        c.rcvSge.head?.map RcvSge.remoteKey = some key ∧ ∃ b, c.In dev b := by
  obtain ⟨hkey, rmr, hlook, hb⟩ | ⟨rfl, desc, buf, hmap, hsize⟩ := h
  · refine ⟨.direct ⟨rmr.addr, 1, key⟩, rfl, fun pre post hpre => ?_⟩
    have hskip : rcvSgListSkip 0 (pre ++ .direct ⟨rmr.addr, 1, key⟩ :: post) =
        (0, .direct ⟨rmr.addr, 1, key⟩ :: post) :=
      rcvSgListSkip_at hpre (show (1 : UInt32).toUInt64 ≠ 0 by decide)
    have hne := skip_zero_ne_nil hb
    have hlt := fun b t => @skip_lt _ RemoteBuf.size rmr.sgList 0 b t
    have hoff : rmr.addr + (0 : UInt32).toUInt64 - rmr.addr = 0 := by
      rw [show (0 : UInt32).toUInt64 = 0 from rfl, UInt64.add_zero, UInt64.sub_self]
    have hspec := rcvCursorUpdate_spec (rcvCursorInit_wf dev
      (pre ++ .direct ⟨rmr.addr, 1, key⟩ :: post) 0)
    have hmore :
      ∃ c b, rcvCursorUpdate dev (rcvCursorInit (pre ++ .direct ⟨rmr.addr, 1, key⟩ :: post) 0) =
        (.more, c) ∧ c.rcvSge.head?.map RcvSge.remoteKey = some key ∧ rcvCursorBuf dev c = .ok b ∧
        b.size ≠ 0 := by
      simp only [rcvCursorUpdate, rcvCursorInit, hskip, RcvSge.remoteKey]
      rw [cursorLook_none, if_neg hkey, hlook]
      simp only [RcvCursor.enter, RcvCursor.nextIoOffUpdate, RcvSge.sgeAddr, hoff]
      generalize skip RemoteBuf.size 0 rmr.sgList = r at hne hlt ⊢
      obtain ⟨off, elems⟩ := r
      cases elems with
      | nil => exact absurd rfl hne
      | cons b t => exact ⟨_, b, rfl, rfl, rfl, ne_zero_of_lt (hlt b t rfl)⟩
    obtain ⟨c, b, hc, hhead, hbuf, hsize⟩ := hmore
    rw [hc] at hspec
    cases hspec with
    | more hr => exact ⟨c, hc, hhead, hr.in_of_size hbuf hsize⟩
  · refine ⟨.shadow ⟨.mr 0 0, ⟨0, 0⟩⟩ desc, rfl, fun pre post hpre => ?_⟩
    have hlen : (RcvSge.shadow ⟨.mr 0 0, ⟨0, 0⟩⟩ desc).len ≠ 0 := by
      obtain h | h := ntcRemoteBufMap_size hmap
      · exact fun hzero => hsize (h.trans hzero)
      · exact absurd h hsize
    have hskip : rcvSgListSkip 0 (pre ++ .shadow ⟨.mr 0 0, ⟨0, 0⟩⟩ desc :: post) =
        (0, .shadow ⟨.mr 0 0, ⟨0, 0⟩⟩ desc :: post) := rcvSgListSkip_at hpre hlen
    have hspec := rcvCursorUpdate_spec
      (rcvCursorInit_wf dev (pre ++ RcvSge.shadow ⟨.mr 0 0, ⟨0, 0⟩⟩ desc :: post) 0)
    have hmore : ∃ c, rcvCursorUpdate dev
        (rcvCursorInit (pre ++ .shadow ⟨.mr 0 0, ⟨0, 0⟩⟩ desc :: post) 0) = (.more, c) ∧
        c.rcvSge.head?.map RcvSge.remoteKey = some reservedDmaLkey ∧
          rcvCursorBuf dev c = .ok buf := by
      simp only [rcvCursorUpdate, rcvCursorInit, hskip, RcvSge.remoteKey]
      exact ⟨_, rfl, rfl, hmap⟩
    obtain ⟨c, hc, hhead, hbuf⟩ := hmore
    rw [hc] at hspec
    cases hspec with
    | more hr => exact ⟨c, hc, hhead, hr.in_of_size hbuf hsize⟩

lemma cursorNextImmIo_byte {d : RemoteBuf} (h : rcv.In dev d) (byte : UInt8) :
    ∃ chan', cursorNextImmIo dev rcv [byte] freshChan = (.ok 1, chan') := by
  have hrem : rcv.rcvRem.toNat ≠ 0 := fun hzero => h.rem (UInt64.toNat_inj.1 hzero)
  have hinside := UInt64.lt_iff_toNat_lt.1 h.inside
  have hsize := h.nextIoSize
  have hlen : min (UInt64.ofNat [byte].length) (rcvCursorNextIoSize rcv) = 1 := by
    rw [← UInt64.toNat_inj, UInt64.toNat_min]
    simp only [List.length_singleton, UInt64.reduceOfNat, UInt64.toNat_one]
    omega
  have hvalid : ntcSegmentValid d.size rcv.nextIoOff (UInt64.ofNat [byte].length) = true :=
    ntcSegmentValid_of_le (by simp) (by simp; omega)
  simp only [cursorNextImmIo, hlen, h.buf]
  simp only [UInt64.toNat_one, List.take_one, List.head?_cons, Option.toList_some,
    ntcMrRequestMemcpyUnfencedImm,
    hvalid]
  exact ⟨_, rfl⟩

def emptySges (keys : List UInt32) : List IbSge := keys.map fun key => ⟨0, 0, key⟩

def emptyRcvSges (keys : List UInt32) : List RcvSge := keys.map fun key => .direct ⟨0, 0, key⟩

@[simp] lemma emptySges_lkey (keys : List UInt32) : (emptySges keys).map IbSge.lkey = keys := by
  rw [emptySges, List.map_map]
  exact List.map_id keys

@[simp] lemma emptyRcvSges_remoteKey (keys : List UInt32) :
    (emptyRcvSges keys).map RcvSge.remoteKey = keys := by
  rw [emptyRcvSges, List.map_map]
  exact List.map_id keys

lemma emptySges_length {keys : List UInt32} : ∀ sge ∈ emptySges keys, sge.length = 0 := by
  simp [emptySges]

lemma emptyRcvSges_len {keys : List UInt32} : ∀ sge ∈ emptyRcvSges keys, sge.len = 0 := by
  simp [emptyRcvSges, RcvSge.len]

lemma Dev.Fills.call {dsts : List UInt32} (h : dev.Fills key) (hkey : key ∈ dsts)
    (srcs : List UInt32) : ∃ call : CopyCall, call.Names srcs dsts ∧
      ⟨none, some key⟩ ∈ call.copies dev freshChan := by
  obtain ⟨pre, post, rfl⟩ := List.append_of_mem hkey
  obtain ⟨sge, hsge, hentry⟩ := h.entry
  obtain ⟨c, hc, hhead, b, hin⟩ := hentry (emptyRcvSges pre) (emptyRcvSges post) emptyRcvSges_len
  refine ⟨.imm (emptyRcvSges pre ++ sge :: emptyRcvSges post) [0] 0,
    ⟨by decide, by simp [hsge]⟩, ?_⟩
  obtain ⟨chan', hnext⟩ := cursorNextImmIo_byte hin 0
  simp only [CopyCall.copies, hc, List.length_singleton, zipImmLoopCopies, hnext, hhead]
  exact List.mem_cons_self

lemma Dev.HasMr.call {src dst : UInt32} (h : dev.HasMr src) (hsrc : src ∈ srcs)
    (hfills : dev.Fills dst) (hdst : dst ∈ dsts) : ∃ call : CopyCall, call.Names srcs dsts ∧
      ⟨some src, some dst⟩ ∈ call.copies dev freshChan := by
  obtain ⟨hkey, mr, hlook, hb⟩ := h
  obtain ⟨pre, post, rfl⟩ := List.append_of_mem hsrc
  obtain ⟨pre', post', rfl⟩ := List.append_of_mem hdst
  obtain ⟨sge, hsge, hentry⟩ := hfills.entry
  obtain ⟨r, hr, hrhead, d, hin⟩ := hentry (emptyRcvSges pre') (emptyRcvSges post') emptyRcvSges_len
  have hsnd := sndCursorUpdate_spec (sndCursorInit_wf dev
    (emptySges pre ++ ⟨mr.addr, 1, src⟩ :: emptySges post))
  obtain ⟨c, hc, hhead⟩ : ∃ c, sndCursorUpdate dev (sndCursorInit
      (emptySges pre ++ ⟨mr.addr, 1, src⟩ :: emptySges post)) = (.more, c) ∧
      c.sndSge.head?.map IbSge.lkey = some src := sndCursorUpdate_at emptySges_length hkey hlook hb
  rw [hc] at hsnd
  obtain ⟨hs, -, -⟩ := hsnd
  obtain ⟨n, hn⟩ : ∃ n, sndTotal (emptySges pre ++ ⟨mr.addr, 1, src⟩ ::
    emptySges post) = n + 1 := by
    refine Nat.exists_eq_succ_of_ne_zero ?_
    simp [sndTotal]
  obtain ⟨len, fence, -, -, -, -, hnext | ⟨hna, -⟩⟩ := cursorNextIo_eq freshChan hs hin .wait
  · refine ⟨.sgl (emptyRcvSges pre' ++ sge :: emptyRcvSges post')
      (emptySges pre ++ ⟨mr.addr, 1, src⟩ :: emptySges post) 0 .wait, ⟨by simp, by simp [hsge]⟩, ?_⟩
    simp only [CopyCall.copies, hc, hr, hn, zipLoopCopies, hnext, hhead, hrhead]
    exact List.mem_cons_self
  · exact absurd freshChan_accepts hna

end

/-! ## Isolation -/

/-- The regions of a device with the protection domains (`pd_key`) that they are registered with. -/
structure PdDev where
  dev : Dev
  mrPd : UInt32 → UInt32
  rmrPd : UInt32 → UInt32

/-- The copy keeps to the domains of the queue pair and its peer. Reserved-key, inline and shadow
buffers belong to no region. -/
def Copy.Isolated (pd : PdDev) (qpPd rqpPd : UInt32) (copy : Copy) : Prop :=
  (∀ key, copy.src = some key → key ≠ reservedDmaLkey → pd.mrPd key = qpPd) ∧
    ∀ key, copy.dst = some key → key ≠ reservedDmaLkey → pd.rmrPd key = rqpPd

/-- The copies for requests keep to the domains of the queue pair and its peer exactly if the
regions that the keys name do, as far as anything is read or written. -/
theorem copies_isolated_iff (pd : PdDev) (qpPd rqpPd : UInt32) (srcs dsts : List UInt32) :
    (∀ call : CopyCall, call.Names srcs dsts → ∀ chan, ∀ copy ∈ call.copies pd.dev chan,
      copy.Isolated pd qpPd rqpPd) ↔
    (∀ key ∈ dsts, pd.dev.HasRmr key → pd.rmrPd key = rqpPd) ∧
      ((∃ key ∈ dsts, pd.dev.Fills key) → ∀ key ∈ srcs, pd.dev.HasMr key → pd.mrPd key = qpPd) := by
  constructor
  · intro hall
    refine ⟨fun key hkey hrmr => ?_, fun ⟨dst, hdst, hfills⟩ key hkey hmr => ?_⟩
    · obtain ⟨call, hnames, hcopy⟩ := Dev.Fills.call (.inl hrmr) hkey srcs
      exact (hall call hnames freshChan _ hcopy).2 key rfl hrmr.1
    · obtain ⟨call, hnames, hcopy⟩ := hmr.call hkey hfills hdst
      exact (hall call hnames freshChan _ hcopy).1 key rfl hmr.1
  · rintro ⟨hdsts, hsrcs⟩ call hnames chan copy hcopy
    obtain ⟨hsrc, dst, hdst, hsome, hfills⟩ := call.copies_between hnames chan copy hcopy
    refine ⟨fun key hkey hne => ?_, fun key hkey hne => ?_⟩
    · obtain ⟨hmem, hmr⟩ := hsrc key hkey
      exact hsrcs ⟨dst, hdst, hfills⟩ key hmem (hmr hne)
    · obtain rfl := Option.some.inj (hsome.symm.trans hkey)
      obtain hrmr | ⟨hres, -⟩ := hfills
      · exact hdsts dst hdst hrmr
      · exact absurd hres hne

lemma qpRdmaWrite_call (dev : Dev) (chan : Chan) (wqe : SendWqe) :
    (qpRdmaWrite dev chan wqe).2.2 = chan ∨
      ∃ call : CopyCall, (qpRdmaWrite dev chan wqe).2.2 = call.chan dev chan ∧
        call.Names (wqe.sndSgList.map IbSge.lkey) [wqe.rdmaSge.lkey] := by
  simp only [qpRdmaWrite]
  split
  · exact .inl rfl
  · refine .inr ?_
    cases isInlineFlag wqe.flags with
    | true =>
      refine ⟨.imm [.direct { wqe.rdmaSge with length := 0xFFFFFFFF }]
        (wqe.tail.take wqe.count.toNat) 0,
        ?_, ?_, rfl⟩
      · simp only [CopyCall.chan, if_true]
        generalize zipRdmaImm dev chan [.direct { wqe.rdmaSge with length := 0xFFFFFFFF }]
          (wqe.tail.take wqe.count.toNat) 0 = res
        obtain ⟨rc, chan'⟩ := res
        cases rc <;> rfl
      · have hlt := wqe.count.toNat_lt
        rw [List.length_take]
        omega
    | false =>
      refine ⟨.sgl [.direct { wqe.rdmaSge with length := 0xFFFFFFFF }] wqe.sndSgList 0
        (if isSignaled wqe.flags then .wait else .dontWait), ?_, rfl, rfl⟩
      simp only [CopyCall.chan, Bool.false_eq_true, if_false]
      generalize zipRdma dev chan
        [.direct { wqe.rdmaSge with length := 0xFFFFFFFF }] wqe.sndSgList 0
        (if isSignaled wqe.flags then .wait else .dontWait) = res
      obtain ⟨rc, chan'⟩ := res
      cases rc <;> rfl

lemma sendWorkPush_call (dev : Dev) (chan : Chan) (rqp : Rqp) (wqe : SendWqe)
    (recvWqe : Option RecvWqe) :
    (sendWorkPush dev chan rqp wqe recvWqe).2.2 = chan ∨
      ∃ call : CopyCall, (sendWorkPush dev chan rqp wqe recvWqe).2.2 = call.chan dev chan ∧
        call.Names (wqe.sndSgList.map IbSge.lkey)
          (if wrCodeIsRdma wqe.opCode then [wqe.rdmaSge.lkey]
          else ((recvWqe.map RecvWqe.rcvSgList).getD []).map RcvSge.remoteKey) := by
  simp only [sendWorkPush]
  split
  · exact .inl rfl
  · split
    · exact qpRdmaWrite_call dev chan wqe
    · split
      · refine .inr ⟨.sgl ((recvWqe.map RecvWqe.rcvSgList).getD [])
          wqe.sndSgList 0 .wait, ?_, rfl, rfl⟩
        simp only [CopyCall.chan]
        generalize zipRdma dev chan ((recvWqe.map RecvWqe.rcvSgList).getD [])
          wqe.sndSgList 0 .wait = res
        obtain ⟨rc, chan'⟩ := res
        cases rc <;> rfl
      · exact .inl rfl

/-- An entry is pushed by one call of the copy engine at most, whose copies are all that is
requested and are between the regions that the entry and its receive name. -/
theorem sendWorkPush_copies (dev : Dev) (chan : Chan) (rqp : Rqp) (wqe : SendWqe)
    (recvWqe : Option RecvWqe) :
    let chan' := (sendWorkPush dev chan rqp wqe recvWqe).2.2
    chan' = chan ∨ ∃ call : CopyCall, chan' = call.chan dev chan ∧
      chan'.log.length = chan.log.length + (call.copies dev chan).length ∧
        ∀ copy ∈ call.copies dev chan, copy.Between dev (wqe.sndSgList.map IbSge.lkey)
          (if wrCodeIsRdma wqe.opCode then [wqe.rdmaSge.lkey]
            else ((recvWqe.map RecvWqe.rcvSgList).getD []).map RcvSge.remoteKey) := by
  refine (sendWorkPush_call dev chan rqp wqe recvWqe).imp_right ?_
  rintro ⟨call, hchan, hnames⟩
  refine ⟨call, hchan, ?_, call.copies_between hnames chan⟩
  rw [hchan]
  exact call.copies_length hnames chan

def mixedDev : PdDev where
  dev := smallDev
  mrPd _ := 2
  rmrPd _ := 3

/-- On a queue pair of domain 1, a write from a region of domain 2 to one of domain 3 is carried
out. -/
theorem copies_foreign :
    ∃ wqe chan', Builds (Qp.fresh 4) (fun _ => none) ⟨9, wrRdmaWrite.toUInt32, 0, 0,
      0x20, 2, [⟨0x10, 2, 1⟩]⟩ wqe ∧
      qpRdmaWrite smallDev freshChan wqe = (.ok (), { wqe with rdmaSge := ⟨0x20, 2, 2⟩ }, chan') ∧
      chan'.log = [⟨0xD0, .mem 0xA0, 2, false⟩] ∧
      (CopyCall.sgl [.direct ⟨0x20, 0xFFFFFFFF, 2⟩] [⟨0x10, 2, 1⟩] 0 .dontWait).copies
        smallDev freshChan =
        [⟨some 1, some 2⟩] ∧
      ¬ (⟨some 1, some 2⟩ : Copy).Isolated mixedDev 1 1 :=
  ⟨_, _, ⟨rfl, rfl⟩, rfl, rfl, rfl, fun h => absurd (h.1 1 rfl (by decide)) (by decide)⟩

end Ntrdma
