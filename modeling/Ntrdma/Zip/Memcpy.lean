import Ntrdma.Zip.Basic

/-!
# Copying a shadow buffer into a memory region

`ntrdma_zip_memcpy` walks to the element of the target address and copies element by element. The
walk leaves an offset into the first element, which bounds the size of the first copy but not its
destination: every copy goes to the start of its element. So the bytes land in their place if and
only if the target is the first byte of an element (`zipMemcpy_iff`).
-/

namespace Ntrdma
open Lib

/-- Byte `i` of the source is stored to the memory of address `targetAddr + i` of the region, in
order, and nothing else. -/
def MemcpyExact (dev : Dev) (mr : Mr) (targetKey : UInt32) (targetAddr : UInt64)
    (src : List UInt8) : Prop :=
  (zipMemcpy dev targetKey targetAddr src).1 = .ok () ∧
    (zipMemcpy dev targetKey targetAddr src).2.map (Prod.map some id) =
      ((span targetAddr src.length).map mr.byte).zip src

/-- The address is that of the first byte of an element of the region, or of its end. -/
def Mr.ElemStart (mr : Mr) (a : UInt64) : Prop :=
  ∃ pre, pre <+: mr.sgList ∧ (a - mr.addr).toNat = (pre.map fun b => b.size.toNat).sum

def Mr.Holds (mr : Mr) (a : UInt64) (n : Nat) : Prop :=
  (a - mr.addr).toNat + n ≤ (mr.sgList.map fun b => b.size.toNat).sum

lemma bytes_cons_zip (b : MrBuf) (l : List MrBuf) (src : List UInt8) :
    (bytes MrBuf.size MrBuf.dmaAddr (b :: l)).zip src =
      (span b.dmaAddr (min src.length b.size.toNat)).zip (src.take (min src.length b.size.toNat)) ++
        (bytes MrBuf.size MrBuf.dmaAddr l).zip (src.drop (min src.length b.size.toNat)) := by
  have hbytes : bytes MrBuf.size MrBuf.dmaAddr (b :: l) =
    span b.dmaAddr b.size.toNat ++ bytes MrBuf.size MrBuf.dmaAddr l := rfl
  rw [hbytes]
  obtain h | h := Nat.le_total b.size.toNat src.length
  · rw [Nat.min_eq_right h]
    conv_lhs => rw [← List.take_append_drop b.size.toNat src]
    exact List.zip_append (by simp [h])
  · rw [Nat.min_eq_left h, List.take_length, List.drop_length, List.zip_nil_right, List.append_nil,
      List.zip_eq_zip_take_min, Nat.min_eq_right (by simp; omega), List.take_length,
      List.take_append_of_le_length (by simpa using h), span_take h]

variable {l : List MrBuf} {src : List UInt8}

lemma zipMemcpyLoop_zero (h : src.length ≤ (l.map fun b => b.size.toNat).sum)
    (hlt : src.length < 2 ^ 64) :
    zipMemcpyLoop l 0 src = ([], (bytes MrBuf.size MrBuf.dmaAddr l).zip src) := by
  induction l generalizing src with
  | nil =>
    obtain rfl := List.length_eq_zero_iff.1 (Nat.le_zero.1 h)
    rfl
  | cons b _ ih =>
    simp only [zipMemcpyLoop]
    split
    next hempty => rw [List.isEmpty_iff.1 hempty, List.zip_nil_right]
    · simp only [List.map_cons, List.sum_cons] at h
      have hsize : (min (UInt64.ofNat src.length) (b.size - 0)).toNat =
          min src.length b.size.toNat := by
        rw [UInt64.toNat_min, UInt64.toNat_ofNat_of_lt' hlt, UInt64.sub_zero]
      rw [hsize, bytes_cons_zip, ih (by rw [List.length_drop]; omega)
        (by rw [List.length_drop]; omega)]

lemma zipMemcpyLoop_head {b : MrBuf} {off : UInt64} {v : UInt8} (hoff : off < b.size)
    (hlt : (v :: src).length < 2 ^ 64) :
    (zipMemcpyLoop (b :: l) off (v :: src)).2.head? = some (b.dmaAddr, v) := by
  rw [UInt64.lt_iff_toNat_lt] at hoff
  have hsize : (min (UInt64.ofNat (v :: src).length) (b.size - off)).toNat =
      min (v :: src).length (b.size.toNat - off.toNat) := by
    rw [UInt64.toNat_min, UInt64.toNat_ofNat_of_lt' hlt, UInt64.toNat_sub_of_le]
    exact UInt64.le_iff_toNat_le.2 hoff.le
  obtain ⟨n, hn⟩ : ∃ n, min (v :: src).length (b.size.toNat - off.toNat) = n + 1 := by
    refine ⟨min src.length (b.size.toNat - off.toNat - 1), ?_⟩
    rw [List.length_cons]
    omega
  simp only [zipMemcpyLoop, List.isEmpty_cons, hsize, hn, span_succ]
  rfl

/-- A copy into a region stores each byte in its place if and only if there is nothing to copy or
the target is the first byte of an element. -/
theorem zipMemcpy_iff {dev : Dev} {mr : Mr} {targetKey : UInt32} {targetAddr : UInt64}
    {src : List UInt8} (hlook : dev.mrLook targetKey = some mr)
    (hin : mr.Holds targetAddr src.length) :
    MemcpyExact dev mr targetKey targetAddr src ↔ src = [] ∨ mr.ElemStart targetAddr := by
  cases src with
  | nil => simp [MemcpyExact, zipMemcpy]
  | cons v src =>
    have hfits := mr.fits
    have hlt : (v :: src).length < 2 ^ 64 := by
      simp only [Mr.Holds] at hin
      omega
    have hstart : mr.ElemStart targetAddr ↔
        (skip MrBuf.size (targetAddr - mr.addr) mr.sgList).1 = 0 :=
      (skip_eq_zero_iff mr.sgList (targetAddr - mr.addr)).symm
    -- the locations of the target, as seen from where the walk ended
    have hwin : (span targetAddr (v :: src).length).map mr.byte =
        window MrBuf.size MrBuf.dmaAddr (skip MrBuf.size (targetAddr - mr.addr) mr.sgList).2
          (skip MrBuf.size (targetAddr - mr.addr) mr.sgList).1.toNat (v :: src).length := by
      rw [window_skip]
      exact span_map_byteAt (by simp only [Mr.Holds] at hin; omega)
    have hholds : (skip MrBuf.size (targetAddr - mr.addr) mr.sgList).1.toNat + (v :: src).length ≤
        ((skip MrBuf.size (targetAddr - mr.addr) mr.sgList).2.map fun b => b.size.toNat).sum :=
      skip_holds hin
    have hinside := @skip_lt _ MrBuf.size mr.sgList (targetAddr - mr.addr)
    simp only [MemcpyExact, zipMemcpy, List.isEmpty_cons,
      Bool.false_eq_true, ↓reduceIte, hlook, hwin,
      hstart]
    generalize skip MrBuf.size (targetAddr - mr.addr) mr.sgList = r at hholds hinside ⊢
    obtain ⟨off, l⟩ := r
    constructor
    · rintro ⟨-, hstores⟩
      right
      cases l with
      | nil =>
        simp only [List.map_nil, List.sum_nil, List.length_cons] at hholds
        omega
      | cons =>
        have hoff := hinside rfl
        have hhead := congrArg List.head? hstores
        rw [UInt64.lt_iff_toNat_lt] at hoff
        rw [List.head?_map, zipMemcpyLoop_head (hinside rfl) hlt, window_split (n := 1) (by omega)
          (by rw [List.length_cons]; omega)] at hhead
        simpa [span_succ] using hhead
    · rintro (h | rfl)
      · cases h
      · simp only [UInt64.toNat_zero, Nat.zero_add] at hholds
        rw [zipMemcpyLoop_zero hholds hlt, UInt64.toNat_zero, window_zero_left hholds]
        have htake := @List.zip_eq_zip_take_min _ _ (bytes MrBuf.size MrBuf.dmaAddr l) (v :: src)
        rw [length_bytes, Nat.min_eq_right hholds, List.take_length] at htake
        exact ⟨rfl, by rw [List.zip_map_left, htake]⟩

def onePageMr : Mr := ⟨0x1000, 0, [⟨8, 0xA000⟩], by decide⟩

def onePageDev : Dev where
  ntc := ⟨fun _ => ⟨0, 0, 0, 0⟩, fun _ _ => none⟩
  mrLook key := if key = 1 then some onePageMr else none
  rmrLook _ := none

/-- A byte for the fifth byte of an element goes to its first byte. -/
theorem zipMemcpy_misplaced :
    onePageDev.mrLook 1 = some onePageMr ∧ onePageMr.Holds 0x1004 1 ∧
      (zipMemcpy onePageDev 1 0x1004 [7]).2 = [(0xA000, 7)] ∧ onePageMr.byte 0x1004 = some 0xA004 ∧
      ¬ MemcpyExact onePageDev onePageMr 1 0x1004 [7] := by
  refine ⟨rfl, by simp only [Mr.Holds]; decide, by decide, by decide, ?_⟩
  rintro ⟨-, h⟩
  exact absurd h (by decide)

def threePageDev : Dev :=
  { onePageDev with
    mrLook := fun _ => some ⟨0x1000, 0, [⟨4, 0xA000⟩, ⟨4, 0xB000⟩, ⟨4, 0xC000⟩], by decide⟩ }

/-- Six bytes for the second element and the start of the third. -/
theorem zipMemcpy_iff_across : ∃ mr, threePageDev.mrLook 1 = some mr ∧
    mr.Holds 0x1004 [1, 2, 3, 4, 5, 6].length ∧
      MemcpyExact threePageDev mr 1 0x1004 [1, 2, 3, 4, 5, 6] ∧
    (zipMemcpy threePageDev 1 0x1004 [1, 2, 3, 4, 5, 6]).2 =
      [(0xB000, 1), (0xB001, 2), (0xB002, 3), (0xB003, 4), (0xC000, 5), (0xC001, 6)] := by
  obtain ⟨mr, hlook, hholds, hstart⟩ : ∃ mr, threePageDev.mrLook 1 = some mr ∧
      mr.Holds 0x1004 [1, 2, 3, 4, 5, 6].length ∧ mr.ElemStart 0x1004 :=
    ⟨_, rfl, by simp only [Mr.Holds]; decide, [⟨4, 0xA000⟩], by decide, rfl⟩
  exact ⟨mr, hlook, hholds, (zipMemcpy_iff hlook hholds).2 (.inr hstart), by decide⟩

end Ntrdma
