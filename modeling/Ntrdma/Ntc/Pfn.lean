import Ntrdma.Lib.Align
import Ntrdma.Ntc.Dma

/-!
# Segments of page frames

Model of `ntc_get_io_pfn_segment_locked` (`ntc_pfn.h`), which looks how far the memory of a process
from an address on is contiguous in physical memory. An area of the address space maps its pages to
consecutive frames, so that only the first page of each area is looked up, and its frame is compared
with the one that the pages before it lead to.

The number of these pages is computed from the address and not from its page. From an address inside
of a page it is one too small where the first area ends: an area that goes on in physical memory is
taken for one that does not, and one that begins with the last frame again for one that goes on
(`ioPfn_exact_iff`).
-/

namespace Ntrdma
open Lib

def pageShift : UInt64 := 12

def pageMask : UInt64 := ~~~0xFFF

/-- An area of an address space (C `struct vm_area_struct`), with the frame of its first page. -/
structure VmArea where
  vmStart : UInt64
  vmEnd : UInt64
  pfn : UInt64
  deriving DecidableEq, Repr

/-- C `ntc_follow_io_pfn`: the frame of the page of an address. -/
def VmArea.followIoPfn (vma : VmArea) (addr : UInt64) : UInt64 :=
  vma.pfn + ((addr - vma.vmStart) >>> pageShift)

/-- C `find_vma`: the first area that ends after an address. -/
def findVma (areas : List VmArea) (addr : UInt64) : Option VmArea :=
    areas.find? fun vma => addr < vma.vmEnd

lemma segmentLoop_decreasing {start : UInt64} {vma : VmArea}
    (h : ¬ (start < vma.vmStart ∨ start ≥ vma.vmEnd)) :
    2 ^ 64 - vma.vmEnd.toNat < 2 ^ 64 - start.toNat := by
  have hlt := vma.vmEnd.toNat_lt
  have hend : start.toNat < vma.vmEnd.toNat :=
    UInt64.lt_iff_toNat_lt.1 (UInt64.not_le.1 fun h0 => h (.inr h0))
  omega

/-- The loop of `ntc_get_io_pfn_segment_locked`: the address at which it leaves for `partial`, if it
does. -/
def segmentLoop (areas : List VmArea) (addr stop startPfn start : UInt64) : Option UInt64 :=
  if stop > start then
    match findVma areas start with
    | none => some start
    | some vma =>
      -- a gap between the areas
      if _h : start < vma.vmStart ∨ start ≥ vma.vmEnd then some start
      else
        let pfn := vma.followIoPfn start
        if pfn ≠ startPfn + ((start - addr) >>> pageShift) ∨ pfn = 0 then some start
        else segmentLoop areas addr stop startPfn vma.vmEnd
  else none
termination_by 2 ^ 64 - start.toNat
decreasing_by exact segmentLoop_decreasing _h

/-- What is found: C `*dma_out` and `*len_out`. -/
structure IoSegment where
  dma : UInt64
  len : UInt64
  deriving DecidableEq, Repr

def ntcGetIoPfnSegmentLocked (areas : List VmArea) (addr len : UInt64) : Except Errno IoSegment :=
  let stop := addr + len
  let start := addr &&& pageMask
  let shift := addr &&& ~~~pageMask
  if stop < addr then .error .einval
  else
    match findVma areas start with
    | none => .error .einval
    | some vma =>
      if start < vma.vmStart ∨ start ≥ vma.vmEnd then .error .einval
      else
        let startPfn := vma.followIoPfn start
        if startPfn = 0 then .error .einval
        else
          let dma := (startPfn <<< pageShift) + shift
          match segmentLoop areas addr stop startPfn vma.vmEnd with
          | none => .ok ⟨dma, len⟩
          | some start => .ok ⟨dma, start - addr⟩

/-! ## Address spaces -/

/-- An area consists of pages, and the physical addresses of its frames have 64 bits. -/
structure VmArea.Valid (vma : VmArea) : Prop where
  start_aligned : 4096 ∣ vma.vmStart.toNat
  end_aligned : 4096 ∣ vma.vmEnd.toNat
  start_lt_end : vma.vmStart.toNat < vma.vmEnd.toNat
  frames : 4096 * vma.pfn.toNat + (vma.vmEnd.toNat - vma.vmStart.toNat) ≤ 2 ^ 64

/-- The areas of an address space, in the order of their addresses (C `struct mm_struct`). -/
structure AddressSpace where
  areas : List VmArea
  valid : ∀ vma ∈ areas, vma.Valid
  sorted : areas.Pairwise fun v w => v.vmEnd.toNat ≤ w.vmStart.toNat

def VmArea.Has (vma : VmArea) (a : Nat) : Prop := vma.vmStart.toNat ≤ a ∧ a < vma.vmEnd.toNat

def VmArea.phys (vma : VmArea) (a : Nat) : Nat := 4096 * vma.pfn.toNat + (a - vma.vmStart.toNat)

namespace AddressSpace

def Maps (s : AddressSpace) (a p : Nat) : Prop := ∃ vma ∈ s.areas, vma.Has a ∧ p = vma.phys a

def Contiguous (s : AddressSpace) (a n : Nat) : Prop := ∃ p, ∀ x < n, s.Maps (a + x) (p + x)

/-- All of a segment is where it is said to be, and a range that is contiguous is one segment. -/
def Exact (s : AddressSpace) (addr len : UInt64) (seg : IoSegment) : Prop :=
  (∀ x < seg.len.toNat, s.Maps (addr.toNat + x) (seg.dma.toNat + x)) ∧
    (s.Contiguous addr.toNat len.toNat → seg.len = len)

/-- The address begins a page, or the range ends in its first area or where no frame is repeated. -/
def CrossingFine (s : AddressSpace) (addr len : UInt64) : Prop :=
  4096 ∣ addr.toNat ∨ ∀ vma ∈ s.areas, vma.Has addr.toNat →
    addr.toNat + len.toNat ≤ vma.vmEnd.toNat ∨
      ¬ s.Maps vma.vmEnd.toNat (vma.phys vma.vmEnd.toNat - 4096) ∧
        ¬ s.Contiguous addr.toNat len.toNat

section
variable {s : AddressSpace} {v w : VmArea} {a : Nat}

lemma findVma_of_has {addr : UInt64} (hv : v ∈ s.areas) (hhas : v.Has addr.toNat) :
    findVma s.areas addr = some v := by
  have hlt : addr < v.vmEnd := UInt64.lt_iff_toNat_lt.2 hhas.2
  cases hfind : findVma s.areas addr with
  | none => exact absurd (decide_eq_true hlt) (List.find?_eq_none.1 hfind v hv)
  | some w =>
    obtain ⟨hw, before, after, hareas, hbefore⟩ := List.find?_eq_some_iff_append.1 hfind
    have hw' : addr.toNat < w.vmEnd.toNat := UInt64.lt_iff_toNat_lt.1 (of_decide_eq_true hw)
    rw [hareas, List.mem_append, List.mem_cons] at hv
    obtain hv | rfl | hv := hv
    · -- the areas before the one that is found end at or before the address
      have hnot := hbefore v hv
      rw [decide_eq_true hlt] at hnot
      cases hnot
    · rfl
    · -- the areas after it begin where it ends, or later
      have hsorted := s.sorted
      rw [hareas] at hsorted
      have hle := (List.pairwise_cons.1 (List.pairwise_append.1 hsorted).2.1).1 v hv
      have hstart := hhas.1
      omega

lemma findVma_cases (s : AddressSpace) (addr : UInt64) :
    (∃ v ∈ s.areas, v.Has addr.toNat ∧ findVma s.areas addr = some v ∧
        ¬ (addr < v.vmStart ∨ addr ≥ v.vmEnd)) ∨
      (∀ v ∈ s.areas, ¬ v.Has addr.toNat) ∧
        (findVma s.areas addr = none ∨
          ∃ v, findVma s.areas addr = some v ∧ (addr < v.vmStart ∨ addr ≥ v.vmEnd)) := by
  by_cases hany : ∃ v ∈ s.areas, v.Has addr.toNat
  · obtain ⟨v, hv, hhas⟩ := hany
    refine .inl ⟨v, hv, hhas, findVma_of_has hv hhas, ?_⟩
    rw [UInt64.lt_iff_toNat_lt, ge_iff_le, UInt64.le_iff_toNat_le]
    have hstart := hhas.1
    have hend := hhas.2
    omega
  · have hnone : ∀ v ∈ s.areas, ¬ v.Has addr.toNat := fun v hv hhas => hany ⟨v, hv, hhas⟩
    refine .inr ⟨hnone, ?_⟩
    cases hfind : findVma s.areas addr with
    | none => exact .inl rfl
    | some v =>
      refine .inr ⟨v, rfl, ?_⟩
      have hfound := List.find?_some hfind
      have hlt : addr.toNat < v.vmEnd.toNat := UInt64.lt_iff_toNat_lt.1 (of_decide_eq_true hfound)
      have hstart : ¬ v.vmStart.toNat ≤ addr.toNat := fun hle =>
        hnone v (List.mem_of_find?_eq_some hfind) ⟨hle, hlt⟩
      exact .inl (UInt64.lt_iff_toNat_lt.2 (by omega))

lemma has_unique (hv : v ∈ s.areas) (hw : w ∈ s.areas) (hva : v.Has a) (hwa : w.Has a) : v = w := by
  have hlt : a < 2 ^ 64 := hva.2.trans v.vmEnd.toNat_lt
  have ha : (UInt64.ofNat a).toNat = a := (UInt64.toNat_ofNat').trans (Nat.mod_eq_of_lt hlt)
  have hfind : findVma s.areas (UInt64.ofNat a) = some v := findVma_of_has hv (ha.symm ▸ hva)
  rw [findVma_of_has hw (ha.symm ▸ hwa)] at hfind
  exact (Option.some.inj hfind).symm

lemma Maps.unique {p q : Nat} (hp : s.Maps a p) (hq : s.Maps a q) : p = q := by
  obtain ⟨v, hv, hva, rfl⟩ := hp
  obtain ⟨w, hw, hwa, rfl⟩ := hq
  rw [has_unique hv hw hva hwa]

end

lemma maps_extend {s : AddressSpace} {v : VmArea} {a b p : Nat} (hv : v ∈ s.areas) (hhas : v.Has b)
    (hle : a ≤ b) (heq : v.phys b = p + (b - a)) (hmaps : ∀ x < b - a, s.Maps (a + x) (p + x)) :
    ∀ x < v.vmEnd.toNat - a, s.Maps (a + x) (p + x) := by
  intro x hx
  by_cases hbefore : x < b - a
  · exact hmaps x hbefore
  · have hge := hhas.1
    refine ⟨v, hv, ⟨by omega, by omega⟩, ?_⟩
    rw [VmArea.phys] at heq ⊢
    omega

/-! ## Pages and frames -/

lemma shiftRight_pageShift (a : UInt64) : (a >>> pageShift).toNat = a.toNat / 4096 := by
  exact Nat.shiftRight_eq_div_pow _ _

lemma shiftLeft_pageShift (a : UInt64) : (a <<< pageShift).toNat = a.toNat * 4096 % 2 ^ 64 := by
  rw [UInt64.toNat_shiftLeft, Nat.shiftLeft_eq]
  rfl

lemma and_not_pageMask (a : UInt64) : (a &&& ~~~pageMask).toNat = a.toNat % 4096 := by
  have hmask : (~~~pageMask).toNat = 2 ^ 12 - 1 := by decide
  rw [UInt64.toNat_and, hmask, Nat.and_two_pow_sub_one_eq_mod]

lemma and_pageMask (a : UInt64) : (a &&& pageMask).toNat = a.toNat / 4096 * 4096 :=
  toNat_and_not_low a.toBitVec 12

section
variable {s : AddressSpace} {v : VmArea} {addr start startPfn stop : UInt64}

lemma followIoPfn_toNat (hv : v.Valid) (hhas : v.Has addr.toNat) :
    (v.followIoPfn addr).toNat = v.pfn.toNat + (addr.toNat - v.vmStart.toNat) / 4096 := by
  obtain ⟨hstart, hend⟩ := hhas
  have hframes := hv.frames
  rw [VmArea.followIoPfn, UInt64.toNat_add, shiftRight_pageShift,
    toNat_sub64 hstart]
  exact Nat.mod_eq_of_lt (by omega)

lemma expectedPfn_toNat (hpfn : startPfn.toNat < 2 ^ 52) (hle : addr.toNat ≤ start.toNat) :
    (startPfn + ((start - addr) >>> pageShift)).toNat =
      startPfn.toNat + (start.toNat - addr.toNat) / 4096 := by
  have hlt := start.toNat_lt
  rw [UInt64.toNat_add, shiftRight_pageShift,
    toNat_sub64 hle]
  exact Nat.mod_eq_of_lt (by omega)

/-! ## The loop -/

lemma segmentLoop_done (h : stop.toNat ≤ start.toNat) :
    segmentLoop s.areas addr stop startPfn start = none := by
  rw [segmentLoop, if_neg]
  exact UInt64.not_lt.2 (UInt64.le_iff_toNat_le.2 h)

lemma segmentLoop_gap (hlt : start.toNat < stop.toNat) (hgap : ∀ v ∈ s.areas, ¬ v.Has start.toNat) :
    segmentLoop s.areas addr stop startPfn start = some start := by
  rw [segmentLoop, if_pos (UInt64.lt_iff_toNat_lt.2 hlt)]
  obtain ⟨v, hv, hhas, -⟩ | ⟨-, hfind | ⟨v, hfind, hout⟩⟩ := findVma_cases s start
  · exact absurd hhas (hgap v hv)
  · rw [hfind]
  · rw [hfind]
    exact dif_pos hout

lemma segmentLoop_area (hlt : start.toNat < stop.toNat) (hv : v ∈ s.areas)
    (hhas : v.Has start.toNat) :
    segmentLoop s.areas addr stop startPfn start =
      if v.followIoPfn start ≠ startPfn + ((start - addr) >>> pageShift) ∨ v.followIoPfn start = 0
      then some start else segmentLoop s.areas addr stop startPfn v.vmEnd := by
  rw [segmentLoop, if_pos (UInt64.lt_iff_toNat_lt.2 hlt)]
  obtain ⟨w, hw, hhas', hfind, hin⟩ | ⟨hgap, -⟩ := findVma_cases s start
  · rw [hfind, has_unique hv hw hhas hhas']
    exact dif_neg hin
  · exact absurd hhas (hgap v hv)

lemma followIoPfn_iff (hv : v.Valid) (hhas : v.Has start.toNat) (hstart : 4096 ∣ start.toNat)
    (hpos : 0 < startPfn.toNat) (hpfn : startPfn.toNat < 2 ^ 52) (hle : addr.toNat ≤ start.toNat) :
    (v.followIoPfn start ≠ startPfn + ((start - addr) >>> pageShift) ∨ v.followIoPfn start = 0) ↔
      v.phys start.toNat ≠ 4096 * (startPfn.toNat + (start.toNat - addr.toNat) / 4096) := by
  have hfollow := followIoPfn_toNat hv hhas
  have hexpected := expectedPfn_toNat hpfn hle
  have haligned := hv.start_aligned
  rw [Ne, ← UInt64.toNat_inj, ← UInt64.toNat_inj, hfollow, hexpected,
    UInt64.toNat_zero, VmArea.phys]
  omega

lemma segmentLoop_step (s : AddressSpace) {stop : UInt64} (hlt : start.toNat < stop.toNat)
    (hstart : 4096 ∣ start.toNat) (hpos : 0 < startPfn.toNat) (hpfn : startPfn.toNat < 2 ^ 52)
    (hle : addr.toNat ≤ start.toNat) :
    (¬ s.Maps start.toNat (4096 * (startPfn.toNat + (start.toNat - addr.toNat) / 4096)) ∧
        segmentLoop s.areas addr stop startPfn start = some start) ∨
      ∃ v ∈ s.areas, v.Has start.toNat ∧
        v.phys start.toNat = 4096 * (startPfn.toNat + (start.toNat - addr.toNat) / 4096) ∧
        segmentLoop s.areas addr stop startPfn start = segmentLoop s.areas addr
          stop startPfn v.vmEnd := by
  by_cases hany : ∃ v ∈ s.areas, v.Has start.toNat
  · obtain ⟨v, hv, hhas⟩ := hany
    have hiff := followIoPfn_iff (s.valid v hv) hhas hstart hpos hpfn hle
    have harea : segmentLoop s.areas addr stop startPfn start = _ := segmentLoop_area hlt hv hhas
    by_cases heq : v.phys start.toNat = 4096 * (startPfn.toNat + (start.toNat - addr.toNat) / 4096)
    · refine .inr ⟨v, hv, hhas, heq, ?_⟩
      rw [harea]
      exact if_neg fun h => hiff.1 h heq
    · refine .inl ⟨fun hmaps => heq (Maps.unique ⟨v, hv, hhas, rfl⟩ hmaps), ?_⟩
      rw [harea]
      exact if_pos (hiff.2 heq)
  · have hgap : ∀ v ∈ s.areas, ¬ v.Has start.toNat := fun v hv hhas => hany ⟨v, hv, hhas⟩
    refine .inl ⟨?_, segmentLoop_gap hlt hgap⟩
    rintro ⟨v, hv, hhas, -⟩
    exact hgap v hv hhas

lemma segmentLoop_bounds {areas : List VmArea} {st : UInt64}
    (h : segmentLoop areas addr stop startPfn start = some st) :
    start.toNat ≤ st.toNat ∧ st.toNat < stop.toNat := by
  fun_induction segmentLoop areas addr stop startPfn start with
  | case1 _ hlt =>
    cases h
    exact ⟨Nat.le_refl _, UInt64.lt_iff_toNat_lt.1 hlt⟩
  | case2 _ hlt =>
    cases h
    exact ⟨Nat.le_refl _, UInt64.lt_iff_toNat_lt.1 hlt⟩
  | case3 _ hlt =>
    cases h
    exact ⟨Nat.le_refl _, UInt64.lt_iff_toNat_lt.1 hlt⟩
  | case4 _ _ _ _ hin _ _ ih =>
    have hnext := segmentLoop_decreasing hin
    obtain ⟨hge, hstop⟩ := ih h
    exact ⟨by omega, hstop⟩
  | case5 => cases h

lemma segmentLoop_run (s : AddressSpace) (stop : UInt64) (haddr : 4096 ∣ addr.toNat)
    (hpos : 0 < startPfn.toNat) (hpfn : startPfn.toNat < 2 ^ 52) (hstart : 4096 ∣ start.toNat)
    (hle : addr.toNat ≤ start.toNat)
    (hmaps : ∀ x < start.toNat - addr.toNat, s.Maps (addr.toNat + x) (4096 * startPfn.toNat + x)) :
    match segmentLoop s.areas addr stop startPfn start with
    | none => ∀ x < stop.toNat - addr.toNat, s.Maps (addr.toNat + x) (4096 * startPfn.toNat + x)
    | some st => (∀ x < st.toNat - addr.toNat,
      s.Maps (addr.toNat + x) (4096 * startPfn.toNat + x)) ∧
        ¬ s.Maps st.toNat (4096 * startPfn.toNat + (st.toNat - addr.toNat)) := by
  -- the ends of the areas increase and are bounded
  induction hn : 2 ^ 64 - start.toNat using Nat.strong_induction_on generalizing start with
  | _ _ ih =>
    by_cases hlt : start.toNat < stop.toNat
    · have hexpected : 4096 * (startPfn.toNat + (start.toNat - addr.toNat) / 4096) =
          4096 * startPfn.toNat + (start.toNat - addr.toNat) := by omega
      obtain ⟨hnot, hloop⟩ | ⟨v, hv, hhas, heq, hloop⟩ :=
        segmentLoop_step s hlt hstart hpos hpfn hle
      · rw [hloop]
        rw [hexpected] at hnot
        exact ⟨hmaps, hnot⟩
      · rw [hloop]
        rw [hexpected] at heq
        have hend := hhas.2
        have hlt' := v.vmEnd.toNat_lt
        exact ih (2 ^ 64 - v.vmEnd.toNat) (by omega) (s.valid v hv).end_aligned (by omega)
          (maps_extend hv hhas hle heq hmaps) (Eq.refl _)
    · rw [segmentLoop_done (Nat.le_of_not_lt hlt)]
      exact fun x hx => hmaps x (by omega)

lemma firstPage (hv : v.Valid) (hhas : v.Has (addr &&& pageMask).toNat) :
    v.Has addr.toNat ∧ (v.followIoPfn (addr &&& pageMask)).toNat < 2 ^ 52 ∧
      4096 * (v.followIoPfn (addr &&& pageMask)).toNat + addr.toNat % 4096 = v.phys addr.toNat ∧
      ((v.followIoPfn (addr &&& pageMask) <<< pageShift) + (addr &&& ~~~pageMask)).toNat =
        v.phys addr.toNat := by
  have hfollow := followIoPfn_toNat hv hhas
  generalize v.followIoPfn (addr &&& pageMask) = startPfn at hfollow ⊢
  rw [and_pageMask] at hhas hfollow
  obtain ⟨hge, hlt⟩ := hhas
  obtain ⟨hstart, hend, -, hframes⟩ := hv
  have hphys : 4096 * startPfn.toNat + addr.toNat % 4096 = v.phys addr.toNat := by
    rw [VmArea.phys]
    omega
  refine ⟨⟨by omega, by omega⟩, by omega, hphys, ?_⟩
  rw [UInt64.toNat_add, shiftLeft_pageShift, and_not_pageMask, ← hphys]
  omega

lemma ntcGetIoPfnSegmentLocked_ok {len : UInt64} {seg : IoSegment}
    (h : ntcGetIoPfnSegmentLocked s.areas addr len = .ok seg) :
    (addr + len).toNat = addr.toNat + len.toNat ∧
    ∃ v ∈ s.areas, v.Has addr.toNat ∧ ∃ startPfn : UInt64,
      0 < startPfn.toNat ∧ startPfn.toNat < 2 ^ 52 ∧
      4096 * startPfn.toNat + addr.toNat % 4096 = v.phys addr.toNat ∧
        seg.dma.toNat = v.phys addr.toNat ∧
      (segmentLoop s.areas addr (addr + len) startPfn v.vmEnd = none ∧ seg.len = len ∨
        ∃ st, segmentLoop s.areas addr (addr + len) startPfn v.vmEnd = some st ∧
          seg.len = st - addr) := by
  rw [ntcGetIoPfnSegmentLocked] at h
  split at h
  · cases h
  rename_i hwrap
  have hsum : (addr + len).toNat = addr.toNat + len.toNat := by
    rw [UInt64.lt_iff_toNat_lt, UInt64.toNat_add] at hwrap
    rw [UInt64.toNat_add]
    have hlt' := len.toNat_lt
    omega
  refine ⟨hsum, ?_⟩
  obtain ⟨v, hv, hhas, hfind, hin⟩ | ⟨-, hfind | ⟨v, hfind, hout⟩⟩ :=
    findVma_cases s (addr &&& pageMask)
  · rw [hfind] at h
    dsimp only at h
    rw [if_neg hin] at h
    obtain ⟨haddr, hpfn, hphys, hdma⟩ := firstPage (s.valid v hv) hhas
    generalize v.followIoPfn (addr &&& pageMask) = startPfn at h hpfn hphys hdma
    split at h
    · cases h
    rename_i hzero
    have hpos : 0 < startPfn.toNat := Nat.pos_of_ne_zero fun h0 => hzero (UInt64.toNat_inj.1 h0)
    refine ⟨v, hv, haddr, startPfn, hpos, hpfn, hphys, ?_⟩
    split at h
    next hloop =>
      cases h
      exact ⟨hdma, .inl ⟨hloop, rfl⟩⟩
    next st hloop =>
      cases h
      exact ⟨hdma, .inr ⟨st, hloop, rfl⟩⟩
  · rw [hfind] at h
    cases h
  · rw [hfind] at h
    dsimp only at h
    rw [if_pos hout] at h
    cases h

/-! ## Segments -/

lemma Contiguous.maps {a n p x : Nat} (h : s.Contiguous a n) (hmaps : s.Maps a p) (hx : x < n) :
    s.Maps (a + x) (p + x) := by
  obtain ⟨q, hq⟩ := h
  rw [hmaps.unique (hq 0 (by omega))]
  exact hq x hx

section
variable {len : UInt64} {seg : IoSegment} (hseg :
    ntcGetIoPfnSegmentLocked s.areas addr len = .ok seg)

include hseg

lemma exact_of_aligned (haddr : 4096 ∣ addr.toNat) : s.Exact addr len seg := by
  obtain ⟨hsum, v, hv, hhas, startPfn, hpos, hpfn, hphys, hdma, hloop⟩ :=
    ntcGetIoPfnSegmentLocked_ok hseg
  have hend := hhas.2
  have hbase : 4096 * startPfn.toNat = seg.dma.toNat := by omega
  have hfirst := maps_extend hv hhas (p := seg.dma.toNat) (Nat.le_refl _) (by omega)
    (fun x hx => absurd hx (by omega))
  have hrun := segmentLoop_run s (addr + len) haddr hpos hpfn (s.valid v hv).end_aligned
    (by omega) (hbase ▸ hfirst)
  rw [hbase] at hrun
  obtain ⟨hnone, hlen⟩ | ⟨st, hsome, hlen⟩ := hloop
  · rw [hnone] at hrun
    refine ⟨fun x hx => hrun x ?_, fun _ => hlen⟩
    rw [hlen] at hx
    omega
  · rw [hsome] at hrun
    obtain ⟨hle, hlt⟩ := segmentLoop_bounds hsome
    have hsub : seg.len.toNat = st.toNat - addr.toNat := by
      rw [hlen, toNat_sub64 (by omega)]
    refine ⟨fun x hx => hrun.1 x (by omega), fun hcont => absurd ?_ hrun.2⟩
    have hmaps := hcont.maps ⟨v, hv, hhas, hdma⟩ (x := st.toNat - addr.toNat) (by omega)
    rwa [show addr.toNat + (st.toNat - addr.toNat) = st.toNat by omega] at hmaps

variable {v : VmArea}

lemma exact_of_inside (hv : v ∈ s.areas) (hhas : v.Has addr.toNat)
    (hinside : addr.toNat + len.toNat ≤ v.vmEnd.toNat) : s.Exact addr len seg := by
  obtain ⟨hsum, w, hw, hhas', startPfn, -, -, -, hdma, hloop⟩ := ntcGetIoPfnSegmentLocked_ok hseg
  cases has_unique hv hw hhas hhas'
  rw [segmentLoop_done (by omega)] at hloop
  obtain ⟨-, rfl⟩ | ⟨st, hsome, -⟩ := hloop
  · refine ⟨fun x hx => ?_, fun _ => rfl⟩
    exact maps_extend hv hhas (Nat.le_refl _) (by omega)
      (fun x hx => absurd hx (by omega)) x (by omega)
  · cases hsome

lemma exact_crossing_iff (haddr : ¬ 4096 ∣ addr.toNat) (hv : v ∈ s.areas) (hhas : v.Has addr.toNat)
    (hcross : v.vmEnd.toNat < addr.toNat + len.toNat) :
    s.Exact addr len seg ↔
      ¬ s.Maps v.vmEnd.toNat (v.phys v.vmEnd.toNat - 4096) ∧
        ¬ s.Contiguous addr.toNat len.toNat := by
  obtain ⟨hsum, w, hw, hhas', startPfn, hpos, hpfn, hphys, hdma, hloop⟩ :=
    ntcGetIoPfnSegmentLocked_ok hseg
  cases has_unique hv hw hhas hhas'
  obtain ⟨hstart, hend, -, -⟩ := s.valid v hv
  obtain ⟨hge, hlt⟩ := hhas
  have hlast : v.phys v.vmEnd.toNat = v.phys addr.toNat + (v.vmEnd.toNat - addr.toNat) := by
    rw [VmArea.phys, VmArea.phys]
    omega
  -- the quotient rounds down, since the address is inside of a page
  have hexpected : 4096 * (startPfn.toNat + (v.vmEnd.toNat - addr.toNat) / 4096) =
      v.phys v.vmEnd.toNat - 4096 := by
    omega
  have hstop : v.vmEnd.toNat < (addr + len).toNat := by omega
  have hstep := segmentLoop_step s hstop hend hpos hpfn hlt.le
  rw [hexpected] at hstep
  obtain ⟨hnot, hleave⟩ | ⟨w, hw, hhasw, heq, hgo⟩ := hstep
  · -- the loop leaves at the end of the first area
    rw [hleave] at hloop
    obtain ⟨hnone, -⟩ | ⟨st, hsome, hlen⟩ := hloop
    · cases hnone
    cases hsome
    have hsub : seg.len.toNat = v.vmEnd.toNat - addr.toNat := by
      rw [hlen, toNat_sub64 hlt.le]
    refine ⟨fun hexact => ⟨hnot, fun hcont => ?_⟩, fun h =>
      ⟨fun x hx => ?_, fun hcont => absurd hcont h.2⟩⟩
    · have hwhole := hexact.2 hcont
      rw [hwhole] at hsub
      omega
    · exact maps_extend hv ⟨hge, hlt⟩ (Nat.le_refl _) (by omega)
        (fun x hx => absurd hx (by omega)) x
        (by omega)
  · -- the loop goes on although the next area begins with the last frame again
    have hmaps : s.Maps v.vmEnd.toNat (v.phys v.vmEnd.toNat - 4096) := ⟨w, hw, hhasw, heq.symm⟩
    refine ⟨fun hexact => absurd ?_ (Nat.lt_irrefl 0), fun h => absurd hmaps h.1⟩
    rw [hgo] at hloop
    have hlong : v.vmEnd.toNat - addr.toNat < seg.len.toNat := by
      obtain ⟨-, hlen⟩ | ⟨st, hsome, hlen⟩ := hloop
      · rw [hlen]
        omega
      · obtain ⟨hle, -⟩ := segmentLoop_bounds hsome
        have hlt' := hhasw.2
        rw [hlen, toNat_sub64 (by omega)]
        omega
    have hsaid := hexact.1 _ hlong
    rw [show addr.toNat + (v.vmEnd.toNat - addr.toNat) = v.vmEnd.toNat by omega] at hsaid
    have hsame := hmaps.unique hsaid
    omega

/-- A segment is exact where the end of the first area is crossed as `CrossingFine` says, only
there. -/
theorem ioPfn_exact_iff : s.Exact addr len seg ↔ s.CrossingFine addr len := by
  obtain ⟨-, v, hv, hhas, -⟩ := ntcGetIoPfnSegmentLocked_ok hseg
  by_cases haddr : 4096 ∣ addr.toNat
  · exact iff_of_true (exact_of_aligned hseg haddr) (.inl haddr)
  by_cases hinside : addr.toNat + len.toNat ≤ v.vmEnd.toNat
  · refine iff_of_true (exact_of_inside hseg hv hhas hinside) (.inr fun w hw hhas' => .inl ?_)
    rwa [← has_unique hv hw hhas hhas']
  · rw [exact_crossing_iff hseg haddr hv hhas (Nat.lt_of_not_le hinside)]
    refine ⟨fun h => .inr fun w hw hhas' => .inr ?_, fun h => ?_⟩
    · rwa [← has_unique hv hw hhas hhas']
    · exact ((h.resolve_left haddr) v hv hhas).resolve_left hinside

end

end

end AddressSpace

def twoPages (pfn pfn' : UInt64) : List VmArea := [⟨0x1000, 0x2000, pfn⟩, ⟨0x2000, 0x3000, pfn'⟩]

lemma twoPages_sorted (pfn pfn' : UInt64) :
    (twoPages pfn pfn').Pairwise fun v w => v.vmEnd.toNat ≤ w.vmStart.toNat :=
  List.pairwise_pair.2 (Nat.le_refl _)

lemma repeated_valid : ∀ vma ∈ twoPages 5 5, vma.Valid :=
  List.forall_mem_cons.2 ⟨⟨by decide, by decide, by decide, by decide⟩,
    List.forall_mem_singleton.2 ⟨by decide, by decide, by decide, by decide⟩⟩

lemma consecutive_valid : ∀ vma ∈ twoPages 5 6, vma.Valid :=
  List.forall_mem_cons.2 ⟨⟨by decide, by decide, by decide, by decide⟩,
    List.forall_mem_singleton.2 ⟨by decide, by decide, by decide, by decide⟩⟩

def repeatedSpace : AddressSpace := ⟨twoPages 5 5, repeated_valid, twoPages_sorted 5 5⟩

def consecutiveSpace : AddressSpace := ⟨twoPages 5 6, consecutive_valid, twoPages_sorted 5 6⟩

theorem ioPfn_exact_page :
    ntcGetIoPfnSegmentLocked consecutiveSpace.areas 0x1000 0x2000 = .ok ⟨0x5000, 0x2000⟩ ∧
    consecutiveSpace.CrossingFine 0x1000 0x2000 ∧
      consecutiveSpace.Exact 0x1000 0x2000 ⟨0x5000, 0x2000⟩ := by
  have hseg : ntcGetIoPfnSegmentLocked consecutiveSpace.areas 0x1000 0x2000 =
      .ok ⟨0x5000, 0x2000⟩ := by
    decide +kernel
  have hfine : consecutiveSpace.CrossingFine 0x1000 0x2000 := .inl (by decide)
  exact ⟨hseg, hfine, (AddressSpace.ioPfn_exact_iff hseg).2 hfine⟩

/-- From the middle of a page, two pages with one frame are one segment, and a contiguous range is
cut in half. -/
theorem ioPfn_unaligned :
    (ntcGetIoPfnSegmentLocked repeatedSpace.areas 0x1800 0x1000 = .ok ⟨0x5800, 0x1000⟩ ∧
      repeatedSpace.Maps 0x2000 0x5000 ∧ ¬ repeatedSpace.Exact 0x1800 0x1000 ⟨0x5800, 0x1000⟩) ∧
    ntcGetIoPfnSegmentLocked consecutiveSpace.areas 0x1800 0x1000 = .ok ⟨0x5800, 0x800⟩ ∧
      consecutiveSpace.Contiguous 0x1800 0x1000 ∧
      ¬ consecutiveSpace.Exact 0x1800 0x1000 ⟨0x5800, 0x800⟩ := by
  have hrepeated : repeatedSpace.Maps 0x2000 0x5000 :=
    ⟨⟨0x2000, 0x3000, 5⟩, List.mem_cons_of_mem _ List.mem_cons_self,
      ⟨Nat.le_refl _, by decide⟩, rfl⟩
  have hcont : consecutiveSpace.Contiguous 0x1800 0x1000 := by
    refine ⟨0x5800, fun x hx => ?_⟩
    by_cases hfirst : x < 0x800
    · refine ⟨⟨0x1000, 0x2000, 5⟩, List.mem_cons_self, ⟨?_, ?_⟩, ?_⟩
      · exact show 0x1000 ≤ 0x1800 + x by omega
      · exact show 0x1800 + x < 0x2000 by omega
      · exact show 0x5800 + x = 4096 * 5 + (0x1800 + x - 0x1000) by omega
    · refine ⟨⟨0x2000, 0x3000, 6⟩, List.mem_cons_of_mem _ List.mem_cons_self, ⟨?_, ?_⟩, ?_⟩
      · exact show 0x2000 ≤ 0x1800 + x by omega
      · exact show 0x1800 + x < 0x3000 by omega
      · exact show 0x5800 + x = 4096 * 6 + (0x1800 + x - 0x2000) by omega
  refine ⟨⟨by decide +kernel, hrepeated, fun h => ?_⟩, by decide +kernel, hcont, fun h => ?_⟩
  · have hsaid := h.1 0x800 (by decide)
    exact absurd (hrepeated.unique hsaid) (by decide)
  · exact absurd (h.2 hcont) (by decide)

end Ntrdma
