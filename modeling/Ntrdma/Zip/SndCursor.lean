import Ntrdma.Zip.Basic

/-!
# What a send cursor has left to copy

A send list denotes one flat run of bytes, `sndLocs`: the DMA address of each byte, or `none` where
the entry names no region or leaves its region. A cursor denotes what is left of it
(`SndCursor.rest`). Moving a cursor to the next byte neither loses nor repeats a byte
(`sndCursorUpdate_spec`), and a cursor that is ready for a copy stands on consecutive addresses
(`SndCursor.Ready.rest_eq`). Lists are compared up to their first byte that does not exist (`cut`).
-/

namespace Ntrdma
open Lib

def sndSgeLocs (dev : Dev) (sge : IbSge) : List (Option UInt64) :=
  (span sge.addr sge.length.toNat).map
    (if sge.lkey = reservedDmaLkey then some
      else match dev.mrLook sge.lkey with
        | none => fun _ => none
        | some mr => mr.byte)

def sndLocs (dev : Dev) (sndSgList : List IbSge) : List (Option UInt64) :=
  sndSgList.flatMap (sndSgeLocs dev)

@[simp] lemma sndLocs_nil (dev : Dev) : sndLocs dev [] = [] := rfl

@[simp] lemma sndLocs_cons (dev : Dev) (sge : IbSge) (l : List IbSge) :
    sndLocs dev (sge :: l) = sndSgeLocs dev sge ++ sndLocs dev l := rfl

@[simp] lemma length_sndSgeLocs (dev : Dev) (sge : IbSge) :
    (sndSgeLocs dev sge).length = sge.length.toNat := by
  simp [sndSgeLocs]

lemma length_sndLocs (dev : Dev) (l : List IbSge) : (sndLocs dev l).length = sndTotal l := by
  induction l with
  | nil => rfl
  | cons _ _ ih => simp [sndTotal, ih]

/-- The memory a send entry refers to in one piece: a reserved-key buffer or an element of its
region. -/
inductive SndPiece (dev : Dev) (sge : IbSge) : MrBuf → Prop where
  | reserved : sge.lkey = reservedDmaLkey → SndPiece dev sge ⟨sge.length.toUInt64, sge.addr⟩
  | mr {mr b} : sge.lkey ≠ reservedDmaLkey → dev.mrLook sge.lkey = some mr → b ∈ mr.sgList →
    SndPiece dev sge b

def SndCursor.elems (c : SndCursor) : List MrBuf :=
  match c.mr, c.sndSge with
  | some _, _ => c.mrSge
  | none, sge :: _ => [⟨sge.length.toUInt64, sge.addr⟩]
  | none, [] => []

def SndCursor.rest (dev : Dev) (c : SndCursor) : List (Option UInt64) :=
  if c.sndRem = 0 then sndLocs dev c.sndSge
  else window MrBuf.size MrBuf.dmaAddr c.elems c.nextIoOff.toNat c.sndRem.toNat ++
    sndLocs dev c.sndSge.tail

/-- The region the cursor holds is the one its key names, and an entry that was begun is the first
one of the list. -/
structure SndCursor.Wf (dev : Dev) (c : SndCursor) : Prop where
  look : ∀ m, c.mr = some m → dev.mrLook c.mrKey = some m ∧ c.mrKey ≠ reservedDmaLkey
  entry : c.sndRem ≠ 0 → ∃ sge l, c.sndSge = sge :: l ∧ c.sndRem.toNat ≤ sge.length.toNat ∧
    (∀ b ∈ c.elems, SndPiece dev sge b) ∧
    (c.mr = none → c.nextIoOff.toNat + c.sndRem.toNat = sge.length.toNat)

structure SndCursor.Ready (dev : Dev) (c : SndCursor) (b : MrBuf) : Prop extends c.Wf dev where
  rem : c.sndRem ≠ 0
  elem : ∃ t, c.elems = b :: t
  inside : c.nextIoOff < b.size

lemma sndCursorInit_wf (dev : Dev) (l : List IbSge) : (sndCursorInit l).Wf dev :=
  ⟨nofun, fun h => absurd rfl h⟩

lemma sndLocs_skipEmpty (dev : Dev) (l : List IbSge) :
    sndLocs dev (sndSgListSkipEmpty l) = sndLocs dev l := by
  induction l with
  | nil => rfl
  | cons sge _ ih =>
    simp only [sndSgListSkipEmpty]
    split
    next h =>
      have hnil : sndSgeLocs dev sge = [] := by
        rw [← List.length_eq_zero_iff, length_sndSgeLocs, h]; rfl
      rw [ih, sndLocs_cons, hnil, List.nil_append]
    · rfl

lemma sndSgListSkipEmpty_eq (l : List IbSge) :
    sndSgListSkipEmpty l = l.dropWhile fun sge => decide (sge.length = 0) := by
  induction l with
  | nil => rfl
  | cons _ _ ih => simp [sndSgListSkipEmpty, List.dropWhile_cons, ih]

/-- What an update of a cursor with `left` to copy may return. -/
inductive SndCursor.Moved (dev : Dev) (left : List (Option UInt64)) (l : List IbSge) :
    CursorRc × SndCursor → Prop where
  | more {b c} : c.Ready dev b → cut (c.rest dev) = cut left → c.sndSge <:+ l →
    Moved dev left l (.more, c)
  | done {c} : left = [] → Moved dev left l (.done, c)
  | fail {e c} : cut left = [none] → Moved dev left l (.fail e, c)

variable {dev : Dev}

lemma SndCursor.Moved.mono {left left' l l' r} (h : SndCursor.Moved dev left l r)
    (hleft : cut left = cut left') (hl : l <:+ l') : SndCursor.Moved dev left' l' r := by
  cases h with
  | more hr hcut hsuf => exact .more hr (hcut.trans hleft) (hsuf.trans hl)
  | done h =>
    subst h
    cases left' with
    | nil => exact .done rfl
    | cons a => cases a <;> cases hleft
  | fail h => exact .fail (hleft.symm.trans h)

variable {c : SndCursor}

lemma SndCursor.nextIoOffUpdate_spec (wf : c.Wf dev) (hrem : c.sndRem ≠ 0) :
    SndCursor.Moved dev (c.rest dev) c.sndSge c.nextIoOffUpdate := by
  have hpos : c.sndRem.toNat ≠ 0 := fun h => hrem (UInt64.toNat_inj.1 h)
  obtain ⟨sge, l, hsge, hle, hpiece, hdma⟩ := wf.entry hrem
  simp only [SndCursor.nextIoOffUpdate]
  split
  next hmr =>
    refine .more (b := ⟨sge.length.toUInt64, sge.addr⟩) ⟨wf, hrem, ⟨[], ?_⟩, ?_⟩ rfl List.suffix_rfl
    · simp [SndCursor.elems, hmr, hsge]
    · have := hdma hmr
      rw [UInt64.lt_iff_toNat_lt, UInt32.toNat_toUInt64]
      omega
  next m hmr =>
    have hwin := @window_skip _ MrBuf.size MrBuf.dmaAddr c.mrSge c.nextIoOff c.sndRem.toNat
    have helems : c.elems = c.mrSge := by simp [SndCursor.elems, hmr]
    split
    next hempty =>
      rw [List.isEmpty_iff] at hempty
      obtain ⟨n, hn⟩ := Nat.exists_eq_succ_of_ne_zero hpos
      rw [hempty, window_nil, hn, List.replicate_succ] at hwin
      exact .fail (by simp [SndCursor.rest, hrem, helems, hn, ← hwin])
    next hne =>
      obtain ⟨b, t, hbt⟩ := List.exists_cons_of_ne_nil (mt List.isEmpty_iff.2 hne)
      have hpiece' : ∀ b ∈ (skip MrBuf.size c.nextIoOff c.mrSge).2, SndPiece dev sge b :=
        fun b hb => hpiece b (helems ▸ (skip_suffix _ _).subset hb)
      refine .more (b := b) ⟨⟨wf.look, fun _ => ⟨sge, l, hsge, hle, ?_, ?_⟩⟩,
        hrem, ⟨t, ?_⟩, skip_lt hbt⟩
        ?_ List.suffix_rfl
      · simpa [SndCursor.elems, hmr] using hpiece'
      · exact fun h => absurd (hmr.symm.trans h) nofun
      · simp [SndCursor.elems, hmr, hbt]
      · simp only [SndCursor.rest, if_neg hrem, SndCursor.elems, hmr, hwin]

lemma SndCursor.enter_spec {sge l mr} (hsge : c.sndSge = sge :: l) (hlen : sge.length ≠ 0)
    (hmr : Found dev.mrLook sge.lkey mr) :
    (c.enter sge mr).Wf dev ∧ (c.enter sge mr).sndRem ≠ 0 ∧ (c.enter sge mr).sndSge = sge :: l ∧
      cut ((c.enter sge mr).rest dev) = cut (sndLocs dev (sge :: l)) := by
  have hnat : sge.length.toUInt64.toNat = sge.length.toNat := UInt32.toNat_toUInt64 _
  have hrem : sge.length.toUInt64 ≠ 0 := by
    intro h
    apply hlen
    rw [← UInt32.toNat_inj, ← hnat, h]
    rfl
  obtain hkey | ⟨hkey, hlook⟩ := hmr
  · have helems : (c.enter sge none).elems = [⟨sge.length.toUInt64, sge.addr⟩] := by
      simp [SndCursor.elems, SndCursor.enter, hsge]
    refine ⟨⟨nofun, fun _ => ⟨sge, l, hsge, hnat.le, ?_, fun _ => ?_⟩⟩, hrem, hsge, ?_⟩
    · rw [helems]
      rintro b hb
      cases List.mem_singleton.1 hb
      exact .reserved hkey
    · simp [SndCursor.enter, hnat]
    · rw [SndCursor.rest, helems, if_neg (by exact hrem)]
      simp only [SndCursor.enter, UInt64.toNat_zero, hnat, hsge, List.tail_cons, sndLocs_cons]
      rw [window_cons (by simp [hnat]), sndSgeLocs, if_pos hkey]
      simp
  · refine ⟨⟨?_, fun _ => ⟨sge, l, hsge, hnat.le, ?_, nofun⟩⟩, hrem, hsge, ?_⟩
    · rintro _ ⟨⟩
      exact ⟨hlook, hkey⟩
    · exact fun b hb => .mr hkey hlook hb
    · rw [SndCursor.rest, if_neg (by exact hrem), sndLocs_cons, sndSgeLocs, if_neg hkey, hlook]
      simp only [SndCursor.enter, SndCursor.elems, hnat, hsge, List.tail_cons]
      exact cut_window (Mr.fits _) _ sge.addr _ _

lemma sndCursorUpdate_spec (wf : c.Wf dev) :
    SndCursor.Moved dev (c.rest dev) c.sndSge (sndCursorUpdate dev c) := by
  simp only [sndCursorUpdate]
  split
  next hrem => exact SndCursor.nextIoOffUpdate_spec wf hrem
  next hrem =>
    rw [ne_eq, not_not] at hrem
    have hsuf : sndSgListSkipEmpty c.sndSge <:+ c.sndSge :=
      sndSgListSkipEmpty_eq c.sndSge ▸ List.dropWhile_suffix _
    have hrest : c.rest dev = sndLocs dev (sndSgListSkipEmpty c.sndSge) := by
      simp only [SndCursor.rest, if_pos hrem, sndLocs_skipEmpty dev c.sndSge]
    split
    next hnil =>
      rw [hnil] at hrest
      exact .done hrest
    next sge l hcons =>
      have hlen : sge.length ≠ 0 := by
        have hnot := List.head?_dropWhile_not (fun sge : IbSge => decide (sge.length = 0)) c.sndSge
        rw [← sndSgListSkipEmpty_eq, hcons] at hnot
        simpa using hnot
      rw [hcons] at hsuf hrest
      rw [hrest]
      obtain ⟨mr, hlook, hmr⟩ | ⟨hlook, hkey, hnone⟩ := cursorLook_cases sge.lkey wf.look
      · -- the region is looked up, or kept from the entry before
        obtain ⟨wf', hrem', hsge', hrest'⟩ :=
          SndCursor.enter_spec (c := { c with sndSge := sge :: l }) rfl hlen hmr
        have h := SndCursor.nextIoOffUpdate_spec wf' hrem'
        rw [hsge'] at h
        rw [hlook]
        exact h.mono hrest' hsuf
      · have hpos : sge.length.toNat ≠ 0 := fun h => hlen (UInt32.toNat_inj.1 h)
        obtain ⟨n, hn⟩ := Nat.exists_eq_succ_of_ne_zero hpos
        rw [hlook]
        exact .fail (by simp [sndSgeLocs, hkey, hnone, hn, span_succ])

/-- The cursor of `ntrdma_snd_cursor_forward` before it is updated. -/
def SndCursor.advance (c : SndCursor) (len : UInt64) : SndCursor :=
  if c.sndRem - len ≠ 0 then
    { c with sndRem := c.sndRem - len, nextIoOff := c.nextIoOff + len }
  else { c with sndRem := c.sndRem - len, sndSge := c.sndSge.tail }

lemma sndCursorForward_eq (dev : Dev) (c : SndCursor) (len : UInt64) :
    sndCursorForward dev c len = sndCursorUpdate dev (c.advance len) := rfl

lemma SndCursor.Ready.nextIoSize {b} (r : c.Ready dev b) :
    (sndCursorNextIoSize c).toNat = min c.sndRem.toNat (b.size.toNat - c.nextIoOff.toNat) := by
  obtain ⟨sge, l, hsge, hle, -, hdma⟩ := r.entry r.rem
  obtain ⟨t, helems⟩ := r.elem
  have hinside := r.inside
  rw [UInt64.lt_iff_toNat_lt] at hinside
  cases hmr : c.mr with
  | none =>
    simp only [SndCursor.elems, hmr, hsge, List.cons.injEq] at helems
    have := hdma hmr
    simp only [sndCursorNextIoSize, hmr, ← helems.1, UInt32.toNat_toUInt64]
    omega
  | some =>
    simp only [SndCursor.elems, hmr] at helems
    simp only [sndCursorNextIoSize, hmr, helems, UInt64.toNat_min]
    rw [toNat_sub64 hinside.le]

lemma SndCursor.Ready.rest_eq {b len} (r : c.Ready dev b) (hlen : len ≤ sndCursorNextIoSize c) :
    c.rest dev = (span (b.dmaAddr + c.nextIoOff) len.toNat).map some ++
      (c.advance len).rest dev := by
  obtain ⟨t, helems⟩ := r.elem
  have hinside := r.inside
  rw [UInt64.le_iff_toNat_le, r.nextIoSize] at hlen
  rw [UInt64.lt_iff_toNat_lt] at hinside
  have hadvance := @window_advance _ MrBuf.size MrBuf.dmaAddr b t c.nextIoOff len
    c.sndRem (by omega) (by omega)
  rw [← helems] at hadvance
  rw [SndCursor.rest, if_neg r.rem, hadvance, List.append_assoc]
  congr 1
  by_cases h : c.sndRem - len = 0
  · simp [SndCursor.advance, SndCursor.rest, h]
  · simp only [SndCursor.advance, SndCursor.rest, if_neg h, if_pos h, ne_eq]
    rfl

lemma SndCursor.Ready.rest_ne_nil {b} (r : c.Ready dev b) : cut (c.rest dev) ≠ [] := by
  have hpos : c.sndRem.toNat ≠ 0 := fun h => r.rem (UInt64.toNat_inj.1 h)
  have hinside := UInt64.lt_iff_toNat_lt.1 r.inside
  have hone : (1 : UInt64) ≤ sndCursorNextIoSize c := by
    rw [UInt64.le_iff_toNat_le, r.nextIoSize, UInt64.toNat_one]
    omega
  rw [r.rest_eq hone]
  exact nofun

lemma SndCursor.Ready.rest_ne_nil_of_cut {b left} (r : c.Ready dev b)
    (h : cut (c.rest dev) = cut left) : left ≠ [] := by
  rintro rfl
  exact r.rest_ne_nil h

lemma SndCursor.Ready.advance_wf {b len} (r : c.Ready dev b) (hlen : len ≤ sndCursorNextIoSize c) :
    (c.advance len).Wf dev := by
  obtain ⟨sge, l, hsge, hle, hpiece, hdma⟩ := r.entry r.rem
  have hinside := r.inside
  rw [UInt64.le_iff_toNat_le, r.nextIoSize] at hlen
  have hsub : (c.sndRem - len).toNat = c.sndRem.toNat - len.toNat :=
    toNat_sub64 (by omega)
  simp only [SndCursor.advance]
  split
  next h =>
    refine ⟨r.look, fun _ => ⟨sge, l, hsge, ?_, hpiece, fun hmr => ?_⟩⟩
    · rw [hsub]
      omega
    · have := hdma hmr
      have := sge.length.toNat_lt
      rw [hsub, UInt64.toNat_add, Nat.mod_eq_of_lt (by omega)]
      omega
  next h => exact ⟨r.look, fun h' => absurd h' h⟩

lemma SndCursor.advance_suffix {len} : (c.advance len).sndSge <:+ c.sndSge := by
  simp only [SndCursor.advance]
  split
  · exact List.suffix_rfl
  · exact List.tail_suffix _

end Ntrdma
