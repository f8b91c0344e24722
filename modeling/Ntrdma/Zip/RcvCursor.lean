import Ntrdma.Zip.Basic

/-!
# What a receive cursor has left to fill

The counterpart of `Ntrdma.Zip.SndCursor` for the list that is written to. A receive list denotes
the run of bytes `rcvLocs`; an entry with a shadow denotes the peer's shadow buffer, if it can be
mapped. A cursor starts at an offset into the list, so what is left at first is `rcvLocs` without
its first bytes (`rcvSgListSkip_locs`). Unlike a send cursor, a cursor that reached the end of its
list fails, and whether a shadow buffer can be mapped is seen only when a copy is requested
(`RcvCursor.Ready.buf_cases`).
-/

namespace Ntrdma
open Lib

def mappedBuf (dev : Dev) (desc : RemoteBufDesc) : List RemoteBuf :=
  match ntcRemoteBufMap dev.ntc desc with
  | .ok buf => [buf]
  | .error _ => []

variable {dev : Dev}

lemma mem_mappedBuf {desc b} : b ∈ mappedBuf dev desc ↔ ntcRemoteBufMap dev.ntc desc = .ok b := by
  simp only [mappedBuf]
  split
  next h => simp [h, eq_comm]
  next h => simp [h]

def rcvSgeLocs (dev : Dev) (sge : RcvSge) : List (Option UInt64) :=
  if sge.remoteKey = reservedDmaLkey then
    window RemoteBuf.size RemoteBuf.dmaAddr (mappedBuf dev sge.expBufDesc) 0 sge.len.toNat
  else
    (span sge.sgeAddr sge.len.toNat).map
      (match dev.rmrLook sge.remoteKey with
        | none => fun _ => none
        | some rmr => rmr.byte)

def rcvLocs (dev : Dev) (rcvSgList : List RcvSge) : List (Option UInt64) :=
  rcvSgList.flatMap (rcvSgeLocs dev)

@[simp] lemma rcvLocs_nil (dev : Dev) : rcvLocs dev [] = [] := rfl

@[simp] lemma rcvLocs_cons (dev : Dev) (sge : RcvSge) (l : List RcvSge) :
    rcvLocs dev (sge :: l) = rcvSgeLocs dev sge ++ rcvLocs dev l := rfl

@[simp] lemma length_rcvSgeLocs (dev : Dev) (sge : RcvSge) :
    (rcvSgeLocs dev sge).length = sge.len.toNat := by
  simp only [rcvSgeLocs]
  split <;> simp

/-- A piece of the peer's memory: an element of the region of a receive entry or the mapped shadow
buffer. -/
inductive RcvPiece (dev : Dev) (sge : RcvSge) : RemoteBuf → Prop where
  | rmr {rmr b} : sge.remoteKey ≠ reservedDmaLkey → dev.rmrLook sge.remoteKey = some rmr →
    b ∈ rmr.sgList → RcvPiece dev sge b
  | expBuf {b} : sge.remoteKey = reservedDmaLkey → ntcRemoteBufMap dev.ntc sge.expBufDesc = .ok b →
    RcvPiece dev sge b

def RcvCursor.elems (dev : Dev) (c : RcvCursor) : List RemoteBuf :=
  match c.rmr, c.rcvSge with
  | some _, _ => c.rmrSge
  | none, sge :: _ => mappedBuf dev sge.expBufDesc
  | none, [] => []

def RcvCursor.rest (dev : Dev) (c : RcvCursor) : List (Option UInt64) :=
  if c.rcvRem = 0 then (rcvLocs dev c.rcvSge).drop c.offset.toNat
  else window RemoteBuf.size RemoteBuf.dmaAddr (c.elems dev) c.nextIoOff.toNat c.rcvRem.toNat ++
    rcvLocs dev c.rcvSge.tail

/-- The region the cursor holds is the one its key names, and an entry that was begun is the first
one of the list. -/
structure RcvCursor.Wf (dev : Dev) (c : RcvCursor) : Prop where
  look : ∀ m, c.rmr = some m → dev.rmrLook c.rmrKey = some m ∧ c.rmrKey ≠ reservedDmaLkey
  entry : c.rcvRem ≠ 0 → ∃ sge l, c.rcvSge = sge :: l ∧ c.offset = 0 ∧
    (∀ b ∈ c.elems dev, RcvPiece dev sge b) ∧
    (c.rmr = none → c.nextIoOff.toNat + c.rcvRem.toNat = sge.len.toNat)

structure RcvCursor.Ready (dev : Dev) (c : RcvCursor) : Prop extends c.Wf dev where
  rem : c.rcvRem ≠ 0
  elem : c.rmr.isSome → ∃ b t, c.rmrSge = b :: t ∧ c.nextIoOff < b.size

structure RcvCursor.In (dev : Dev) (c : RcvCursor) (b : RemoteBuf) : Prop extends c.Ready dev where
  piece : ∃ t, c.elems dev = b :: t
  inside : c.nextIoOff < b.size

lemma rcvCursorInit_wf (dev : Dev) (l : List RcvSge) (offset : UInt32) :
    (rcvCursorInit l offset).Wf dev :=
  ⟨nofun, fun h => absurd rfl h⟩

lemma rcvSgListSkip_locs (dev : Dev) (l : List RcvSge) (offset : UInt32) :
    (rcvLocs dev (rcvSgListSkip offset l).2).drop (rcvSgListSkip offset l).1.toNat =
      (rcvLocs dev l).drop offset.toNat := by
  induction l generalizing offset with
  | nil => rfl
  | cons sge _ ih =>
    simp only [rcvSgListSkip]
    split
    · rfl
    next h =>
      have hle := UInt64.not_lt.1 h
      have hsub : (offset.toUInt64 - sge.len).toUInt32.toNat = offset.toNat - sge.len.toNat := by
        have := offset.toNat_lt
        rw [UInt64.toNat_toUInt32, UInt64.toNat_sub_of_le _ _ hle, UInt32.toNat_toUInt64,
          Nat.mod_eq_of_lt (by omega)]
      rw [UInt64.le_iff_toNat_le, UInt32.toNat_toUInt64] at hle
      have hnil : (rcvSgeLocs dev sge).drop offset.toNat = [] :=
        List.drop_of_length_le (by rw [length_rcvSgeLocs]; exact hle)
      rw [ih, hsub, rcvLocs_cons, List.drop_append, hnil, length_rcvSgeLocs, List.nil_append]

lemma rcvSgListSkip_lt {l t : List RcvSge} {offset : UInt32} {sge : RcvSge}
    (h : (rcvSgListSkip offset l).2 = sge :: t) :
    (rcvSgListSkip offset l).1.toNat < sge.len.toNat := by
  induction l generalizing offset with
  | nil => cases h
  | cons _ _ ih =>
    simp only [rcvSgListSkip] at h ⊢
    split
    next hlt =>
      rw [if_pos hlt] at h
      cases h
      simpa [UInt64.lt_iff_toNat_lt] using hlt
    next hlt =>
      rw [if_neg hlt] at h
      exact ih h

lemma rcvSgListSkip_suffix (l : List RcvSge) (offset : UInt32) :
    (rcvSgListSkip offset l).2 <:+ l := by
  induction l generalizing offset with
  | nil => exact List.suffix_rfl
  | cons sge l ih =>
    simp only [rcvSgListSkip]
    split
    · exact List.suffix_rfl
    · exact (ih _).trans (List.suffix_cons sge l)

/-- What an update of a cursor with `left` to fill may return. -/
inductive RcvCursor.Moved (dev : Dev) (left : List (Option UInt64)) (l : List RcvSge) :
    CursorRc × RcvCursor → Prop where
  | more {c} : c.Ready dev → cut (c.rest dev) = cut left → c.rcvSge <:+ l →
    Moved dev left l (.more, c)
  | fail {e c} : left = [] ∨ cut left = [none] → Moved dev left l (.fail e, c)

lemma RcvCursor.Moved.mono {left left' l l' r} (h : RcvCursor.Moved dev left l r)
    (hleft : cut left = cut left') (hl : l <:+ l') : RcvCursor.Moved dev left' l' r := by
  cases h with
  | more hr hcut hsuf => exact .more hr (hcut.trans hleft) (hsuf.trans hl)
  | fail h =>
    obtain rfl | h := h
    · cases left' with
      | nil => exact .fail (.inl rfl)
      | cons a => cases a <;> cases hleft
    · exact .fail (.inr (hleft.symm.trans h))

variable {c : RcvCursor}

lemma RcvCursor.nextIoOffUpdate_spec (wf : c.Wf dev) (hrem : c.rcvRem ≠ 0) :
    RcvCursor.Moved dev (c.rest dev) c.rcvSge c.nextIoOffUpdate := by
  have hpos : c.rcvRem.toNat ≠ 0 := fun h => hrem (UInt64.toNat_inj.1 h)
  obtain ⟨sge, l, hsge, hoff, hpiece, hdma⟩ := wf.entry hrem
  simp only [RcvCursor.nextIoOffUpdate]
  split
  next hrmr => exact .more ⟨wf, hrem, by simp [hrmr]⟩ rfl List.suffix_rfl
  next m hrmr =>
    have hwin := @window_skip _ RemoteBuf.size RemoteBuf.dmaAddr c.rmrSge c.nextIoOff c.rcvRem.toNat
    have helems : c.elems dev = c.rmrSge := by simp [RcvCursor.elems, hrmr]
    split
    next hempty =>
      rw [List.isEmpty_iff] at hempty
      obtain ⟨n, hn⟩ := Nat.exists_eq_succ_of_ne_zero hpos
      rw [hempty, window_nil, hn, List.replicate_succ] at hwin
      exact .fail (.inr (by simp [RcvCursor.rest, hrem, helems, hn, ← hwin]))
    next hne =>
      obtain ⟨b, t, hbt⟩ := List.exists_cons_of_ne_nil (mt List.isEmpty_iff.2 hne)
      have hpiece' : ∀ b ∈ (skip RemoteBuf.size c.nextIoOff c.rmrSge).2, RcvPiece dev sge b :=
        fun b hb => hpiece b (helems ▸ (skip_suffix _ _).subset hb)
      refine .more ⟨⟨wf.look, fun _ => ⟨sge, l, hsge, hoff, ?_, ?_⟩⟩,
        hrem, fun _ => ⟨b, t, hbt, ?_⟩⟩
        ?_ List.suffix_rfl
      · simpa [RcvCursor.elems, hrmr] using hpiece'
      · exact fun h => absurd (hrmr.symm.trans h) nofun
      · exact skip_lt hbt
      · simp only [RcvCursor.rest, if_neg hrem, RcvCursor.elems, hrmr, hwin]

lemma RcvCursor.enter_spec {sge l rmr} (hsge : c.rcvSge = sge :: l)
    (hoff : c.offset.toNat < sge.len.toNat) (hrmr : Found dev.rmrLook sge.remoteKey rmr) :
    (c.enter sge rmr).Wf dev ∧ (c.enter sge rmr).rcvRem ≠ 0 ∧
      (c.enter sge rmr).rcvSge = sge :: l ∧
      cut ((c.enter sge rmr).rest dev) = cut ((rcvLocs dev (sge :: l)).drop c.offset.toNat) := by
  have hrem : (sge.len - c.offset.toUInt64).toNat = sge.len.toNat - c.offset.toNat := by
    rw [UInt64.toNat_sub_of_le, UInt32.toNat_toUInt64]
    rw [UInt64.le_iff_toNat_le, UInt32.toNat_toUInt64]
    exact hoff.le
  have hrem0 : sge.len - c.offset.toUInt64 ≠ 0 := by
    intro h
    rw [h, UInt64.toNat_zero] at hrem
    omega
  have hdrop : (rcvLocs dev (sge :: l)).drop c.offset.toNat =
      (rcvSgeLocs dev sge).drop c.offset.toNat ++ rcvLocs dev l := by
    rw [rcvLocs_cons, List.drop_append_of_le_length (by rw [length_rcvSgeLocs]; exact hoff.le)]
  rw [hdrop]
  obtain hkey | ⟨hkey, hlook⟩ := hrmr
  · refine ⟨⟨nofun, fun _ => ⟨_, l, hsge, rfl, ?_, fun _ => ?_⟩⟩, hrem0, hsge, ?_⟩
    · intro b hb
      simp only [RcvCursor.elems, RcvCursor.enter, hsge] at hb
      exact .expBuf hkey (mem_mappedBuf.1 hb)
    · simp only [RcvCursor.enter, hrem, UInt32.toNat_toUInt64]
      omega
    · rw [RcvCursor.rest, if_neg (by exact hrem0)]
      simp only [RcvCursor.enter, RcvCursor.elems, hsge, List.tail_cons, rcvSgeLocs, if_pos hkey,
        UInt32.toNat_toUInt64]
      rw [window_drop hoff.le, Nat.zero_add, ← hrem]
  · refine ⟨⟨?_, fun _ => ⟨_, l, hsge, rfl, ?_, nofun⟩⟩, hrem0, hsge, ?_⟩
    · rintro _ ⟨⟩
      exact ⟨hlook, hkey⟩
    · exact fun b hb => .rmr hkey hlook hb
    · rw [RcvCursor.rest, if_neg (by exact hrem0)]
      simp only [RcvCursor.enter, RcvCursor.elems, hrem, hsge, List.tail_cons, rcvSgeLocs,
        if_neg hkey, hlook]
      rw [cut_window (Rmr.fits _), ← List.map_drop, span_drop hoff.le, UInt64.ofNat_uInt32ToNat]
      rfl

lemma rcvCursorUpdate_spec (wf : c.Wf dev) :
    RcvCursor.Moved dev (c.rest dev) c.rcvSge (rcvCursorUpdate dev c) := by
  simp only [rcvCursorUpdate]
  split
  next hrem => exact RcvCursor.nextIoOffUpdate_spec wf hrem
  next hrem =>
    rw [ne_eq, not_not] at hrem
    have hsuf := rcvSgListSkip_suffix c.rcvSge c.offset
    have hrest : c.rest dev = (rcvLocs dev (rcvSgListSkip c.offset c.rcvSge).2).drop
        (rcvSgListSkip c.offset c.rcvSge).1.toNat := by
      rw [RcvCursor.rest, if_pos hrem, rcvSgListSkip_locs]
    split
    next hnil =>
      rw [hnil, rcvLocs_nil, List.drop_nil] at hrest
      exact .fail (.inl hrest)
    next sge l hcons =>
      have hoff := rcvSgListSkip_lt hcons
      rw [hcons] at hsuf hrest
      generalize (rcvSgListSkip c.offset c.rcvSge).1 = off at hrest hoff ⊢
      rw [hcons]
      rw [hrest]
      obtain ⟨rmr, hlook, hrmr⟩ | ⟨hlook, hkey, hnone⟩ := cursorLook_cases sge.remoteKey wf.look
      · -- the region is looked up, or kept from the entry before
        obtain ⟨wf', hrem', hsge', hrest'⟩ :=
          RcvCursor.enter_spec (c := { c with offset := off, rcvSge := sge :: l }) rfl hoff hrmr
        have h := RcvCursor.nextIoOffUpdate_spec wf' hrem'
        rw [hsge'] at h
        rw [hlook]
        exact h.mono hrest' hsuf
      · obtain ⟨n, hn⟩ := Nat.exists_eq_succ_of_ne_zero (Nat.sub_ne_zero_of_lt hoff)
        rw [hlook]
        refine .fail (.inr ?_)
        rw [rcvLocs_cons, List.drop_append_of_le_length (by rw [length_rcvSgeLocs]; exact hoff.le)]
        simp [rcvSgeLocs, hkey, hnone, hn, List.replicate_succ]

/-- The cursor of `ntrdma_rcv_cursor_forward` before it is updated. -/
def RcvCursor.advance (c : RcvCursor) (len : UInt64) : RcvCursor :=
  if c.rcvRem - len ≠ 0 then
    { c with rcvRem := c.rcvRem - len, nextIoOff := c.nextIoOff + len }
  else { c with rcvRem := c.rcvRem - len, rcvSge := c.rcvSge.tail }

lemma rcvCursorForward_eq (dev : Dev) (c : RcvCursor) (len : UInt64) :
    rcvCursorForward dev c len = rcvCursorUpdate dev (c.advance len) := rfl

lemma RcvCursor.Ready.in_region (r : c.Ready dev) (h : c.rmr.isSome) :
    ∃ b, rcvCursorBuf dev c = .ok b ∧ c.In dev b := by
  obtain ⟨m, hrmr⟩ := Option.isSome_iff_exists.1 h
  obtain ⟨b, t, hbt, hlt⟩ := r.elem h
  exact ⟨b, by simp [rcvCursorBuf, hrmr, hbt], r, ⟨t, by simp [RcvCursor.elems, hrmr, hbt]⟩, hlt⟩

lemma RcvCursor.Ready.buf_cases (r : c.Ready dev) : (∃ b, rcvCursorBuf dev c = .ok b ∧ c.In dev b) ∨
      (cut (c.rest dev) = [none] ∧ ∀ b, rcvCursorBuf dev c = .ok b → b.size = 0) := by
  have hpos : c.rcvRem.toNat ≠ 0 := fun h => r.rem (UInt64.toNat_inj.1 h)
  obtain ⟨n, hn⟩ := Nat.exists_eq_succ_of_ne_zero hpos
  obtain ⟨sge, l, hsge, hoff, hpiece, hdma⟩ := r.entry r.rem
  cases hrmr : c.rmr with
  | some => exact .inl (r.in_region (by rw [hrmr]; rfl))
  | none =>
    have hrem := hdma hrmr
    have hle := sge.len_le_expBufDesc
    have hbuf : rcvCursorBuf dev c = ntcRemoteBufMap dev.ntc sge.expBufDesc := by
      simp [rcvCursorBuf, hrmr, hsge]
    cases hmap : ntcRemoteBufMap dev.ntc sge.expBufDesc with
    | error =>
      refine .inr ⟨?_, fun b hb => absurd (hb.symm.trans (hbuf.trans hmap)) nofun⟩
      simp [RcvCursor.rest, r.rem, RcvCursor.elems, hrmr, hsge, mappedBuf, hmap, window_nil, hn,
        List.replicate_succ]
    | ok b =>
      have helems : c.elems dev = [b] := by simp [RcvCursor.elems, hrmr, hsge, mappedBuf, hmap]
      obtain h | h := ntcRemoteBufMap_size hmap
      · refine .inl ⟨b, hbuf.trans hmap, r, ⟨[], helems⟩, ?_⟩
        rw [UInt64.lt_iff_toNat_lt, h]
        omega
      · refine .inr ⟨?_, fun b' hb' => ?_⟩
        · have hnone : (bytes RemoteBuf.size RemoteBuf.dmaAddr [b]) = [] := by simp [bytes, h]
          simp [RcvCursor.rest, r.rem, helems, hn, window, hnone, List.range_succ_eq_map]
        · cases hb'.symm.trans (hbuf.trans hmap)
          exact h

lemma RcvCursor.In.buf {b} (r : c.In dev b) : rcvCursorBuf dev c = .ok b := by
  obtain ⟨b', hb', r'⟩ | ⟨h, -⟩ := r.buf_cases
  · obtain ⟨t, ht⟩ := r.piece
    obtain ⟨t', ht'⟩ := r'.piece
    cases ht.symm.trans ht'
    exact hb'
  · obtain ⟨t, ht⟩ := r.piece
    rw [RcvCursor.rest, if_neg r.rem] at h
    have hpos : c.rcvRem.toNat ≠ 0 := fun h => r.rem (UInt64.toNat_inj.1 h)
    have hinside := UInt64.lt_iff_toNat_lt.1 r.inside
    rw [ht, window_split (n := 1) (by omega) (by omega), List.append_assoc] at h
    cases h

lemma RcvCursor.In.nextIoSize {b} (r : c.In dev b) :
    (rcvCursorNextIoSize c).toNat = min c.rcvRem.toNat (b.size.toNat - c.nextIoOff.toNat) := by
  obtain ⟨sge, l, hsge, -, -, hdma⟩ := r.entry r.rem
  obtain ⟨t, helems⟩ := r.piece
  have hinside := r.inside
  rw [UInt64.lt_iff_toNat_lt] at hinside
  cases hrmr : c.rmr with
  | none =>
    have hrem := hdma hrmr
    have hle := sge.len_le_expBufDesc
    simp only [RcvCursor.elems, hrmr, hsge] at helems
    have hmap := mem_mappedBuf.1 (helems ▸ List.mem_cons_self)
    simp only [rcvCursorNextIoSize, hrmr]
    obtain h | h := ntcRemoteBufMap_size hmap
    · rw [h] at hinside ⊢
      omega
    · rw [h] at hinside
      cases hinside
  | some =>
    simp only [RcvCursor.elems, hrmr] at helems
    simp only [rcvCursorNextIoSize, hrmr, helems, UInt64.toNat_min]
    rw [toNat_sub64 hinside.le]

lemma RcvCursor.In.rest_eq {b len} (r : c.In dev b) (hlen : len ≤ rcvCursorNextIoSize c) :
    c.rest dev = (span (b.dmaAddr + c.nextIoOff) len.toNat).map some ++
      (c.advance len).rest dev := by
  obtain ⟨sge, l, hsge, hoff, -⟩ := r.entry r.rem
  obtain ⟨t, helems⟩ := r.piece
  have hinside := r.inside
  rw [UInt64.le_iff_toNat_le, r.nextIoSize] at hlen
  rw [UInt64.lt_iff_toNat_lt] at hinside
  have hadvance := @window_advance _ RemoteBuf.size RemoteBuf.dmaAddr b t
    c.nextIoOff len c.rcvRem (by omega)
    (by omega)
  rw [← helems] at hadvance
  rw [RcvCursor.rest, if_neg r.rem, hadvance, List.append_assoc]
  congr 1
  by_cases h : c.rcvRem - len = 0
  · simp [RcvCursor.advance, RcvCursor.rest, h, hoff]
  · simp only [RcvCursor.advance, RcvCursor.rest, if_neg h, if_pos h, ne_eq]
    rfl

lemma RcvCursor.In.advance_wf {b len} (r : c.In dev b) (hlen : len ≤ rcvCursorNextIoSize c) :
    (c.advance len).Wf dev := by
  obtain ⟨sge, l, hsge, hoff, hpiece, hdma⟩ := r.entry r.rem
  rw [UInt64.le_iff_toNat_le, r.nextIoSize] at hlen
  have hsub : (c.rcvRem - len).toNat = c.rcvRem.toNat - len.toNat :=
    toNat_sub64 (by omega)
  simp only [RcvCursor.advance]
  split
  next h =>
    refine ⟨r.look, fun _ => ⟨sge, l, hsge, hoff, hpiece, fun hrmr => ?_⟩⟩
    have := hdma hrmr
    have := sge.len.toNat_lt
    rw [hsub, UInt64.toNat_add, Nat.mod_eq_of_lt (by omega)]
    omega
  next h => exact ⟨r.look, fun h' => absurd h' h⟩

lemma RcvCursor.advance_suffix {len} : (c.advance len).rcvSge <:+ c.rcvSge := by
  simp only [RcvCursor.advance]
  split
  · exact List.suffix_rfl
  · exact List.tail_suffix _

/-! ## Lists without reserved keys -/

lemma RcvCursor.advance_rmr {len} : (c.advance len).rmr = c.rmr := by
  simp only [RcvCursor.advance]
  split <;> rfl

lemma RcvCursor.nextIoOffUpdate_rmr {c c' : RcvCursor} {rc} (h : c.nextIoOffUpdate = (rc, c')) :
    c'.rmr = c.rmr := by
  simp only [RcvCursor.nextIoOffUpdate] at h
  split at h
  · cases h
    rfl
  · split at h <;> cases h <;> rfl

lemma RcvCursor.enter_rmr (c : RcvCursor) (sge : RcvSge) (rmr : Option Rmr) :
    (c.enter sge rmr).rmr = rmr := by
  cases rmr <;> rfl

lemma rcvCursorUpdate_region {c c' : RcvCursor} (wf : c.Wf dev)
    (hkeys : ∀ sge ∈ c.rcvSge, sge.remoteKey ≠ reservedDmaLkey) (hrmr : c.rcvRem ≠ 0 → c.rmr.isSome)
    (h : rcvCursorUpdate dev c = (.more, c')) : c'.rmr.isSome := by
  simp only [rcvCursorUpdate] at h
  split at h
  next hrem =>
    rw [RcvCursor.nextIoOffUpdate_rmr h]
    exact hrmr hrem
  · split at h
    · cases h
    next sge l hcons =>
      have hmem : sge ∈ c.rcvSge :=
        (rcvSgListSkip_suffix c.rcvSge c.offset).subset (hcons ▸ List.mem_cons_self)
      rw [cursorLook_eq wf.look, if_neg (hkeys sge hmem)] at h
      cases hlook : dev.rmrLook sge.remoteKey with
      | none =>
        rw [hlook] at h
        cases h
      | some =>
        rw [hlook] at h
        rw [RcvCursor.nextIoOffUpdate_rmr h, RcvCursor.enter_rmr]
        rfl

end Ntrdma
