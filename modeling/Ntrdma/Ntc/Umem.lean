import Ntrdma.Cmd.MrCreate
import Ntrdma.Lib.Segment

/-!
# The elements of a memory region

Model of `ntc_umem_sgl` (`ntc.c`), which makes the elements of a memory region from the scatter list
of its pages, or counts them. One loop joins the entries that are contiguous, skips what is before
the region, stops at its end and stores or counts.

The loop does what the passes of `Ntrdma.Cmd.MrCreate` do one after the other (`umemSglLoop_eq`):
the entries are joined (`joinFrom`), the region is cut out (`takeRanges`), and the ranges are stored
(`umemStoreAll`). The elements are the bytes of the region (`umemSgl_exact`).
-/

namespace Ntrdma
open Lib

structure SgEntry where
  dmaAddress : UInt64
  dmaLen : UInt32

/-- What the elements of a region are made of: how many there are (C `n`), and those that are
stored. -/
structure UmemSgl where
  n : Nat
  sgl : List MrElem
  deriving DecidableEq, Repr

/-- The inner loop of `ntc_umem_sgl`: the length of the contiguous range, and the entries after
it. -/
def joinNext (dmaAddr dmaLen : UInt64) : List SgEntry → UInt64 × List SgEntry
  | [] => (dmaLen, [])
  | next :: rest =>
    if next.dmaAddress ≠ dmaAddr + dmaLen then (dmaLen, next :: rest)
    else joinNext dmaAddr (dmaLen + next.dmaLen.toUInt64) rest

lemma joinNext_length (dmaAddr dmaLen : UInt64) (sgl : List SgEntry) :
    (joinNext dmaAddr dmaLen sgl).2.length ≤ sgl.length := by
  induction sgl generalizing dmaLen with
  | nil => exact Nat.le_refl _
  | cons _ _ ih =>
    rw [joinNext]
    split
    · exact Nat.le_refl _
    · exact (ih _).trans (Nat.le_succ _)

/-- A range is stored, where there is an array with room for it, and counted. The loop is left if it
cannot be mapped. -/
def umemStore (ownMws : Fin 2 → OwnMw) (accessFlags : UInt32) (count : Option Nat) (out : UmemSgl)
    (range : DmaRange) : Option UmemSgl :=
  match count with
  | none => some { out with n := out.n + 1 }
  | some count =>
    if out.n < count then
      match mrBufMapDma ownMws range accessFlags with
      | .error _ => none
      | .ok elem => some ⟨out.n + 1, out.sgl ++ [elem]⟩
    else some { out with n := out.n + 1 }

/-- The outer loop of `ntc_umem_sgl`. -/
def umemSglLoop (ownMws : Fin 2 → OwnMw) (accessFlags : UInt32) (count : Option Nat)
    (length : UInt64) (offset totalLen : UInt64) (out : UmemSgl) : List SgEntry → UmemSgl
  | [] => out
  | sg :: rest =>
    let joined := joinNext sg.dmaAddress sg.dmaLen.toUInt64 rest
    if joined.1 ≤ offset then
      umemSglLoop ownMws accessFlags count length (offset - joined.1) totalLen out joined.2
    else
      -- C tests for an offset of zero here, for which nothing changes
      let dmaLen := joined.1 - offset
      let taken := totalLen + dmaLen
      let dmaLen := if taken > length then dmaLen - (taken - length) else dmaLen
      let taken := if taken > length then length else taken
      match umemStore ownMws accessFlags count out ⟨sg.dmaAddress + offset, dmaLen⟩ with
      | none => out
      | some out =>
        if taken = length then out
        else umemSglLoop ownMws accessFlags count length 0 taken out joined.2
termination_by sgl => sgl.length
decreasing_by
  · exact Nat.lt_succ_of_le (joinNext_length _ _ _)
  · exact Nat.lt_succ_of_le (joinNext_length _ _ _)

/-- C `ntc_umem_sgl`, with an array of `count` elements or without one (C `ntc_umem_count`). -/
def ntcUmemSgl (ownMws : Fin 2 → OwnMw) (accessFlags : UInt32) (count : Option Nat)
    (length offset : UInt64) (sgl : List SgEntry) : UmemSgl :=
  umemSglLoop ownMws accessFlags count length offset 0 ⟨0, []⟩ sgl

/-! ## The passes of the loop -/

def SgEntry.range (sg : SgEntry) : DmaRange := ⟨sg.dmaAddress, sg.dmaLen.toUInt64⟩

def joinAll : List DmaRange → List DmaRange
  | [] => []
  | range :: rest => joinFrom range rest

def umemStoreAll (ownMws : Fin 2 → OwnMw) (accessFlags : UInt32) (count : Option Nat) :
    UmemSgl → List DmaRange → UmemSgl
  | out, [] => out
  | out, range :: rest =>
    match umemStore ownMws accessFlags count out range with
    | none => out
    | some out => umemStoreAll ownMws accessFlags count out rest

lemma umemRanges_eq (length offset : UInt64) (ranges : List DmaRange) :
    umemRanges length offset ranges = takeRanges length offset 0 (joinAll ranges) := by
  cases ranges with
  | nil => rfl
  | cons => rfl

section
variable {range next : DmaRange} {rest : List DmaRange}

lemma joinFrom_of_eq (h : next.addr = range.addr + range.len) :
    joinFrom range (next :: rest) = joinFrom ⟨range.addr, range.len + next.len⟩ rest := by
  rw [joinFrom, if_neg]
  rw [bne_iff_ne]
  exact not_not.2 h

lemma joinFrom_of_ne (h : next.addr ≠ range.addr + range.len) :
    joinFrom range (next :: rest) = range :: joinFrom next rest := by
  rw [joinFrom, if_pos]
  rwa [bne_iff_ne]

end

lemma joinFrom_eq (dmaAddr dmaLen : UInt64) (sgl : List SgEntry) :
    joinFrom ⟨dmaAddr, dmaLen⟩ (sgl.map SgEntry.range) =
      ⟨dmaAddr, (joinNext dmaAddr dmaLen sgl).1⟩ ::
        joinAll ((joinNext dmaAddr dmaLen sgl).2.map SgEntry.range) := by
  induction sgl generalizing dmaLen with
  | nil => rfl
  | cons next _ ih =>
    rw [List.map_cons, joinNext]
    by_cases hnext : next.dmaAddress = dmaAddr + dmaLen
    · rw [if_neg (not_not.2 hnext), joinFrom_of_eq hnext]
      exact ih _
    · rw [if_pos hnext, joinFrom_of_ne hnext]
      rfl

lemma umemSglLoop_eq (ownMws : Fin 2 → OwnMw) (accessFlags : UInt32) (count : Option Nat)
    (length offset totalLen : UInt64) (out : UmemSgl) (sgl : List SgEntry) :
    umemSglLoop ownMws accessFlags count length offset totalLen out sgl =
      umemStoreAll ownMws accessFlags count out
        (takeRanges length offset totalLen (joinAll (sgl.map SgEntry.range))) := by
  induction hn : sgl.length using Nat.strong_induction_on generalizing offset totalLen out sgl with
  | _ n ih =>
    cases sgl with
    | nil =>
      rw [umemSglLoop]
      rfl
    | cons sg rest =>
      have hlt : (joinNext sg.dmaAddress sg.dmaLen.toUInt64 rest).2.length < n :=
        hn ▸ Nat.lt_succ_of_le (joinNext_length _ _ _)
      rw [umemSglLoop, List.map_cons, joinAll, SgEntry.range, joinFrom_eq]
      -- only the length and the rest of the list matter from here on
      generalize joinNext sg.dmaAddress sg.dmaLen.toUInt64 rest = joined at hlt ⊢
      obtain ⟨dmaLen, rest⟩ := joined
      rw [takeRanges]
      dsimp only at hlt ⊢
      split
      · exact ih _ hlt _ _ _ _ rfl
      · -- the range that is stored, and whether it is the last one
        by_cases hgt : totalLen + (dmaLen - offset) > length
        · rw [if_pos hgt, if_pos hgt, if_pos hgt, umemStoreAll]
          split
          · rfl
          · exact if_pos rfl
        · rw [if_neg hgt, if_neg hgt, if_neg hgt]
          by_cases heq : totalLen + (dmaLen - offset) = length
          · rw [if_pos heq, umemStoreAll]
            split
            · rfl
            · exact if_pos heq
          · rw [if_neg heq, umemStoreAll]
            split
            · rfl
            · exact (if_neg heq).trans (ih _ hlt _ _ _ _ rfl)

lemma umemStoreAll_count (ownMws : Fin 2 → OwnMw) (accessFlags : UInt32) (out : UmemSgl)
    (ranges : List DmaRange) :
    umemStoreAll ownMws accessFlags none out ranges = { out with n := out.n + ranges.length } := by
  induction ranges generalizing out with
  | nil => rfl
  | cons _ _ ih =>
    rw [umemStoreAll, umemStore]
    dsimp only
    rw [ih, List.length_cons, Nat.add_right_comm, ← Nat.add_assoc]

variable {ownMws : Fin 2 → OwnMw} {accessFlags : UInt32}

lemma mrBufMapDma_buf {range : DmaRange} {elem : MrElem}
    (h : mrBufMapDma ownMws range accessFlags = .ok elem) : elem.buf = ⟨range.len, range.addr⟩ := by
  rw [mrBufMapDma] at h
  split at h
  · cases h
    rfl
  · split at h
    · cases h
    · cases h
      rfl

variable {ranges : List DmaRange}

lemma mapElems_bufs {elems : List MrElem} (h : mapElems ownMws accessFlags ranges = .ok elems) :
    elems.map (·.buf) = ranges.map fun range => ⟨range.len, range.addr⟩ := by
  induction ranges generalizing elems with
  | nil =>
    cases h
    rfl
  | cons range rest ih =>
    rw [mapElems] at h
    cases helem : mrBufMapDma ownMws range accessFlags with
    | error =>
      rw [helem] at h
      cases h
    | ok =>
      rw [helem] at h
      cases hrest : mapElems ownMws accessFlags rest with
      | error =>
        rw [hrest] at h
        cases h
      | ok =>
        rw [hrest] at h
        cases h
        rw [List.map_cons, List.map_cons, ih hrest, mrBufMapDma_buf helem]

lemma mapElems_ok
    (hmap : ∀ range ∈ ranges, ∃ elem, mrBufMapDma ownMws range accessFlags = .ok elem) :
    ∃ elems, mapElems ownMws accessFlags ranges = .ok elems := by
  induction ranges with
  | nil => exact ⟨[], rfl⟩
  | cons _ _ ih =>
    obtain ⟨⟨elem, helem⟩, hrest⟩ := List.forall_mem_cons.1 hmap
    obtain ⟨elems, helems⟩ := ih hrest
    rw [mapElems, helem, helems]
    exact ⟨elem :: elems, rfl⟩

lemma umemStoreAll_mapElems (ownMws : Fin 2 → OwnMw) (accessFlags : UInt32) {count : Nat}
    (out : UmemSgl) (hcount : out.n + ranges.length ≤ count) :
    match mapElems ownMws accessFlags ranges with
    | .ok elems => umemStoreAll ownMws accessFlags (some count) out ranges =
        ⟨out.n + ranges.length, out.sgl ++ elems⟩
    | .error _ => (umemStoreAll ownMws accessFlags (some count) out ranges).n <
      out.n + ranges.length := by
  induction ranges generalizing out with
  | nil =>
    exact (congrArg (UmemSgl.mk out.n) (List.append_nil out.sgl)).symm
  | cons range rest ih =>
    rw [List.length_cons] at hcount
    have hroom : out.n < count := by omega
    rw [mapElems, umemStoreAll, umemStore, if_pos hroom]
    cases helem : mrBufMapDma ownMws range accessFlags with
    | error => exact Nat.lt_add_of_pos_right (Nat.succ_pos _)
    | ok elem =>
      have hrest := ih ⟨out.n + 1, out.sgl ++ [elem]⟩ (by dsimp only; omega)
      rw [show out.n + 1 + rest.length = out.n +
        (range :: rest).length from Nat.add_right_comm ..] at hrest
      cases helems : mapElems ownMws accessFlags rest with
      | error =>
        rw [helems] at hrest
        exact hrest
      | ok =>
        rw [helems] at hrest
        exact hrest.trans (congrArg (UmemSgl.mk _) (List.append_assoc ..))

/-! ## Joined entries -/

def rangeBytes (ranges : List DmaRange) : List UInt64 := bytes DmaRange.len DmaRange.addr ranges

lemma rangeBytes_cons (range : DmaRange) (rest : List DmaRange) :
    rangeBytes (range :: rest) = span range.addr range.len.toNat ++ rangeBytes rest :=
  bytes_cons range rest

def rangeTotal (ranges : List DmaRange) : Nat := (ranges.map fun range => range.len.toNat).sum

lemma rangeTotal_cons (range : DmaRange) (rest : List DmaRange) :
    rangeTotal (range :: rest) = range.len.toNat + rangeTotal rest :=
  List.sum_cons

section
variable {range next : DmaRange} {rest : List DmaRange}

lemma add_len_toNat (h : rangeTotal (range :: next :: rest) < 2 ^ 64) :
    (range.len + next.len).toNat = range.len.toNat + next.len.toNat := by
  rw [rangeTotal_cons, rangeTotal_cons] at h
  rw [UInt64.toNat_add]
  exact Nat.mod_eq_of_lt (by omega)

lemma rangeTotal_joined (h : rangeTotal (range :: next :: rest) < 2 ^ 64) (a : UInt64)
    (post : List DmaRange) :
    rangeTotal (⟨a, range.len + next.len⟩ :: post) = rangeTotal (range :: next :: post) := by
  rw [rangeTotal_cons, rangeTotal_cons, rangeTotal_cons, add_len_toNat h, Nat.add_assoc]

lemma bytes_joinFrom (h : rangeTotal (range :: rest) < 2 ^ 64) :
    rangeBytes (joinFrom range rest) = rangeBytes (range :: rest) := by
  induction rest generalizing range with
  | nil => rfl
  | cons next _ ih =>
    by_cases hnext : next.addr = range.addr + range.len
    · rw [joinFrom_of_eq hnext, ih (by rwa [rangeTotal_joined h]),
        rangeBytes_cons, rangeBytes_cons range,
        rangeBytes_cons next, add_len_toNat h, span_add, List.append_assoc,
          UInt64.ofNat_toNat, hnext]
    · rw [rangeTotal_cons] at h
      rw [joinFrom_of_ne hnext, rangeBytes_cons, rangeBytes_cons range, ih (by omega)]

lemma rangeTotal_joinFrom (h : rangeTotal (range :: rest) < 2 ^ 64) :
    rangeTotal (joinFrom range rest) = rangeTotal (range :: rest) := by
  have hlen := congrArg List.length (bytes_joinFrom h)
  rwa [rangeBytes, rangeBytes, length_bytes, length_bytes] at hlen

variable {i j : Nat}

lemma together_joinFrom_head (h : rangeTotal (range :: rest) < 2 ^ 64) (hj : j < range.len.toNat) :
    Together DmaRange.len (joinFrom range rest) i j := by
  induction rest generalizing range with
  | nil => exact .inl hj
  | cons next _ ih =>
    by_cases hnext : next.addr = range.addr + range.len
    · rw [joinFrom_of_eq hnext]
      refine ih (by rwa [rangeTotal_joined h]) ?_
      rw [add_len_toNat h]
      omega
    · rw [joinFrom_of_ne hnext]
      exact .inl hj

lemma together_joinFrom (h : rangeTotal (range :: rest) < 2 ^ 64) (pre : List DmaRange)
    {post : List DmaRange} {e e' : DmaRange} (hsplit : range :: rest = pre ++ e :: e' :: post)
    (hnext : e'.addr = e.addr + e.len) (hij : i ≤ j) (hi : rangeTotal pre ≤ i)
    (hj : j < rangeTotal pre + e.len.toNat + e'.len.toNat) :
    Together DmaRange.len (joinFrom range rest) i j := by
  induction rest generalizing range pre e i j with
  | nil =>
    have hlen := congrArg List.length hsplit
    simp only [List.length_append, List.length_cons, List.length_nil] at hlen
    omega
  | cons next _ ih =>
    have hjoined := rangeTotal_joined h range.addr
    have hsum := add_len_toNat h
    by_cases hcont : next.addr = range.addr + range.len
    · rw [joinFrom_of_eq hcont]
      cases pre with
      | nil =>
        -- the two entries are the first ones, and are joined in this step
        cases hsplit
        refine together_joinFrom_head (by rwa [hjoined]) ?_
        rw [hsum]
        exact Nat.zero_add range.len.toNat ▸ hj
      | cons _ pre =>
        cases pre with
        | nil =>
          -- the second of the two entries goes on after what is joined already
          cases hsplit
          rw [rangeTotal_cons] at hj
          refine ih (by rwa [hjoined]) [] rfl ?_ hij (Nat.zero_le _) ?_
          · rw [hnext, hcont, UInt64.add_assoc]
          · rw [hsum]
            omega
        | cons _ pre =>
          rw [List.cons_append, List.cons_append, List.cons.injEq, List.cons.injEq] at hsplit
          obtain ⟨rfl, rfl, hrest⟩ := hsplit
          refine ih (by rwa [hjoined]) (⟨range.addr, range.len + next.len⟩ :: pre)
            ?_ hnext hij ?_ ?_
          · rw [hrest, List.cons_append]
          · rwa [hjoined]
          · rwa [hjoined]
    · rw [joinFrom_of_ne hcont]
      cases pre with
      | nil =>
        -- the first two entries are not contiguous
        cases hsplit
        exact absurd hnext hcont
      | cons _ pre =>
        rw [List.cons_append, List.cons.injEq] at hsplit
        obtain ⟨rfl, hrest⟩ := hsplit
        rw [rangeTotal_cons] at hi hj h
        exact .inr ⟨by omega, ih (by omega) pre hrest hnext (by omega) (by omega) (by omega)⟩

end

/-! ## The part of a region -/

/-- A range is before the region, the region ends in it, or all of it after the offset is taken. -/
inductive TakeStep (length offset total : UInt64) (range : DmaRange) (rest : List DmaRange) :
    List DmaRange → Prop
  | skip : range.len.toNat ≤ offset.toNat → (offset - range.len).toNat =
    offset.toNat - range.len.toNat →
    TakeStep length offset total range rest (takeRanges length (offset - range.len) total rest)
  | last {n : UInt64} : offset.toNat + n.toNat ≤ range.len.toNat → 0 < n.toNat →
    total.toNat + n.toNat = length.toNat →
    TakeStep length offset total range rest [⟨range.addr + offset, n⟩]
  | more {n : UInt64} : offset.toNat + n.toNat = range.len.toNat → 0 < n.toNat →
    (total + n).toNat = total.toNat + n.toNat → total.toNat + n.toNat < length.toNat →
    TakeStep length offset total range rest
      (⟨range.addr + offset, n⟩ :: takeRanges length 0 (total + n) rest)

section
variable {length : UInt64} (offset total : UInt64) {ranges : List DmaRange}

lemma takeRanges_step {range : DmaRange} {rest : List DmaRange}
    (htotal : total.toNat < length.toNat)
    (hsum : total.toNat + rangeTotal (range :: rest) < 2 ^ 64) :
    TakeStep length offset total range rest (takeRanges length offset total (range :: rest)) := by
  rw [rangeTotal_cons] at hsum
  rw [takeRanges]
  split
  next hle => exact .skip (UInt64.le_iff_toNat_le.1 hle) (UInt64.toNat_sub_of_le _ _ hle)
  rename_i hgt
  rw [UInt64.le_iff_toNat_le] at hgt
  have hlen : (range.len - offset).toNat = range.len.toNat - offset.toNat :=
    toNat_sub64 (by omega)
  have htaken : (total + (range.len - offset)).toNat = total.toNat +
      (range.len - offset).toNat := by
    rw [UInt64.toNat_add]
    exact Nat.mod_eq_of_lt (by omega)
  generalize range.len - offset = n at hlen htaken
  dsimp only
  split
  next hover =>
    rw [gt_iff_lt, UInt64.lt_iff_toNat_lt, htaken] at hover
    have hexcess : (total + n - length).toNat = total.toNat + n.toNat - length.toNat := by
      rw [toNat_sub64 (by omega), htaken]
    have hrest : (n - (total + n - length)).toNat = length.toNat - total.toNat := by
      rw [toNat_sub64 (by omega), hexcess]
      omega
    exact .last (by omega) (by omega) (by omega)
  next hover =>
    rw [gt_iff_lt, UInt64.lt_iff_toNat_lt, htaken] at hover
    split
    next heq =>
      exact .last (by omega) (by omega) (by rw [← heq, htaken])
    next hne =>
      have hne' : total.toNat + n.toNat ≠ length.toNat := fun h =>
        hne (UInt64.toNat_inj.1 (htaken.trans h))
      exact .more (by omega) (by omega) htaken (by omega)

lemma bytes_takeRanges (htotal : total.toNat < length.toNat)
    (hroom : offset.toNat + (length.toNat - total.toNat) ≤ rangeTotal ranges)
    (hsum : total.toNat + rangeTotal ranges < 2 ^ 64) :
    rangeBytes (takeRanges length offset total ranges) =
      ((rangeBytes ranges).drop offset.toNat).take (length.toNat - total.toNat) := by
  induction ranges generalizing offset total with
  | nil =>
    rw [show rangeTotal [] = 0 from rfl] at hroom
    omega
  | cons range rest ih =>
    have hstep := takeRanges_step offset total htotal hsum
    have hspan := length_span range.addr range.len.toNat
    rw [rangeTotal_cons] at hroom hsum
    rw [rangeBytes_cons range]
    generalize takeRanges length offset total (range :: rest) = taken at hstep
    cases hstep with
    | skip hle hsub =>
      -- the bytes of the range are among those that are dropped
      have hdrop := List.drop_eq_nil_of_le (hspan.trans_le hle)
      rw [ih (offset - range.len) total htotal (by omega) (by omega), hsub,
        List.drop_append, hdrop, hspan,
        List.nil_append]
    | @last n =>
      -- no byte of a later range is taken
      rw [List.drop_append_of_le_length (by omega), span_drop (by omega),
        List.take_append_of_le_length (by rw [length_span]; omega), span_take (by omega),
        UInt64.ofNat_toNat, rangeBytes_cons, show length.toNat - total.toNat = n.toNat by omega]
      exact List.append_nil _
    | @more n _ _ htaken =>
      have hrest := ih 0 (total + n) (by omega) (by rw [UInt64.toNat_zero]; omega) (by omega)
      rw [UInt64.toNat_zero, List.drop_zero, htaken] at hrest
      have hsize : range.len.toNat - offset.toNat = n.toNat := by omega
      have hall : (span (range.addr + offset) n.toNat).take (length.toNat - total.toNat) =
          span (range.addr + offset) n.toNat :=
        List.take_of_length_le (by rw [length_span]; omega)
      rw [rangeBytes_cons, hrest, List.drop_append_of_le_length (by omega),
        span_drop (by omega), hsize,
        UInt64.ofNat_toNat, List.take_append, length_span, hall, Nat.sub_sub]

lemma takeRanges_pos (htotal : total.toNat < length.toNat)
    (hsum : total.toNat + rangeTotal ranges < 2 ^ 64) :
    ∀ range ∈ takeRanges length offset total ranges, 0 < range.len.toNat := by
  induction ranges generalizing offset total with
  | nil => exact fun range hmem => absurd hmem List.not_mem_nil
  | cons range rest ih =>
    have hstep := takeRanges_step offset total htotal hsum
    rw [rangeTotal_cons] at hsum
    generalize takeRanges length offset total (range :: rest) = taken at hstep
    cases hstep with
    | skip => exact ih (offset - range.len) total htotal (by omega)
    | last _ hpos => exact List.forall_mem_singleton.2 hpos
    | more _ hpos =>
      exact List.forall_mem_cons.2 ⟨hpos, ih 0 _ (by omega) (by omega)⟩

lemma together_takeRanges (htotal : total.toNat < length.toNat)
    (hsum : total.toNat + rangeTotal ranges < 2 ^ 64) {i j : Nat} (hij : i ≤ j)
    (hi : offset.toNat ≤ i) (hj : j < offset.toNat + (length.toNat - total.toNat))
    (ht : Together DmaRange.len ranges i j) :
    Together DmaRange.len (takeRanges length offset total ranges)
      (i - offset.toNat) (j - offset.toNat) := by
  induction ranges generalizing offset total i j with
  | nil => exact ht.elim
  | cons range rest ih =>
    have hstep := takeRanges_step offset total htotal hsum
    rw [rangeTotal_cons] at hsum
    generalize takeRanges length offset total (range :: rest) = taken at hstep
    cases hstep with
    | skip hle hsub =>
      obtain hfirst | ⟨hlen, hrest⟩ := ht
      · -- the first range ends before the region
        omega
      · have hgo := ih (offset - range.len) total htotal (by omega) (Nat.sub_le_sub_right hij _)
          (by rw [hsub]; omega) (by rw [hsub]; omega) hrest
        rwa [hsub, Nat.sub_sub_sub_cancel_right hle, Nat.sub_sub_sub_cancel_right hle] at hgo
    | last => exact .inl (by dsimp only; omega)
    | @more n heq _ htaken =>
      obtain hfirst | ⟨hlen, hrest⟩ := ht
      · exact .inl (by dsimp only; omega)
      · have hgo := ih 0 (total + n) (by omega) (by omega)
          (Nat.sub_le_sub_right hij _) (Nat.zero_le _)
          (by rw [htaken, UInt64.toNat_zero]; omega) hrest
        refine .inr ⟨by dsimp only; omega, ?_⟩
        rwa [Nat.sub_sub, Nat.sub_sub, heq]

end

/-! ## The elements -/

def sgBytes (sgl : List SgEntry) : List UInt64 :=
  bytes (fun sg => sg.dmaLen.toUInt64) SgEntry.dmaAddress sgl

def sgTotal (sgl : List SgEntry) : Nat := (sgl.map fun sg => sg.dmaLen.toNat).sum

def elemBytes (elems : List MrElem) : List UInt64 :=
  bytes (fun elem => elem.buf.size) (fun elem => elem.buf.dmaAddr) elems

/-- The elements are the bytes of the region in order, none is empty, and contiguous bytes are in
one. -/
structure UmemExact (sgl : List SgEntry) (offset length : UInt64) (out : UmemSgl) : Prop where
  count : out.n = out.sgl.length
  bytes : elemBytes out.sgl = ((sgBytes sgl).drop offset.toNat).take length.toNat
  nonempty : ∀ elem ∈ out.sgl, 0 < elem.buf.size.toNat
  joined : ∀ pre sg next post, sgl = pre ++ sg :: next :: post →
    next.dmaAddress = sg.dmaAddress + sg.dmaLen.toUInt64 →
    ∀ i j, i ≤ j → sgTotal pre ≤ i → j < sgTotal pre + sg.dmaLen.toNat + next.dmaLen.toNat →
      offset.toNat ≤ i → j < offset.toNat + length.toNat →
      Together (fun elem : MrElem => elem.buf.size) out.sgl (i - offset.toNat) (j - offset.toNat)

lemma sgBytes_eq (sgl : List SgEntry) : sgBytes sgl = rangeBytes (sgl.map SgEntry.range) := by
  rw [rangeBytes, bytes, List.flatMap_map]
  rfl

lemma sgTotal_eq (sgl : List SgEntry) : sgTotal sgl = rangeTotal (sgl.map SgEntry.range) := by
  rw [sgTotal, rangeTotal, List.map_map]
  exact congrArg List.sum (List.map_congr_left fun sg _ => (UInt32.toNat_toUInt64 sg.dmaLen).symm)

lemma sgTotal_lt {sgl : List SgEntry} (hents : sgl.length < 2 ^ 32) : sgTotal sgl < 2 ^ 64 := by
  have hle : sgTotal sgl ≤ sgl.length * (2 ^ 32 - 1) := by
    refine (List.sum_le_card_nsmul _ (2 ^ 32 - 1) fun n hn => ?_).trans_eq ?_
    · obtain ⟨sg, -, rfl⟩ := List.mem_map.1 hn
      exact Nat.le_sub_one_of_lt sg.dmaLen.toNat_lt
    · rw [List.length_map, smul_eq_mul]
  omega

section
variable {elems : List MrElem} {ranges : List DmaRange}
  (hbufs : elems.map (·.buf) = ranges.map fun range => ⟨range.len, range.addr⟩)

include hbufs

lemma elemBytes_eq : elemBytes elems = rangeBytes ranges := by
  have hmap : elemBytes elems = bytes MrBuf.size MrBuf.dmaAddr (elems.map (·.buf)) := by
    rw [bytes, List.flatMap_map]
    rfl
  rw [hmap, hbufs, bytes, List.flatMap_map]
  rfl

lemma elems_sizes : elems.map (·.buf.size) = ranges.map DmaRange.len := by
  have hsizes := congrArg (List.map MrBuf.size) hbufs
  rwa [List.map_map, List.map_map] at hsizes

end

section
variable {length offset : UInt64} {ranges : List DmaRange} (htotal : rangeTotal ranges < 2 ^ 64)
  (hlength : 1 ≤ length.toNat) (hregion : offset.toNat + length.toNat ≤ rangeTotal ranges)

include htotal

lemma bytes_joinAll : rangeBytes (joinAll ranges) = rangeBytes ranges := by
  cases ranges with
  | nil => rfl
  | cons => exact bytes_joinFrom htotal

lemma rangeTotal_joinAll : rangeTotal (joinAll ranges) = rangeTotal ranges := by
  cases ranges with
  | nil => rfl
  | cons => exact rangeTotal_joinFrom htotal

lemma rangeTotal_joinAll_lt : (0 : UInt64).toNat + rangeTotal (joinAll ranges) < 2 ^ 64 := by
  rw [UInt64.toNat_zero, Nat.zero_add, rangeTotal_joinAll htotal]
  exact htotal

include hlength

lemma umemRanges_pos : ∀ range ∈ umemRanges length offset ranges, 0 < range.len.toNat := by
  rw [umemRanges_eq]
  exact takeRanges_pos offset 0 hlength (rangeTotal_joinAll_lt htotal)

lemma together_umemRanges {pre post : List DmaRange} {e e' : DmaRange}
    (hsplit : ranges = pre ++ e :: e' :: post) (hnext : e'.addr = e.addr + e.len) {i j : Nat}
    (hij : i ≤ j) (hi : rangeTotal pre ≤ i) (hj : j < rangeTotal pre + e.len.toNat + e'.len.toNat)
    (hi' : offset.toNat ≤ i) (hj' : j < offset.toNat + length.toNat) :
    Together DmaRange.len (umemRanges length offset ranges)
      (i - offset.toNat) (j - offset.toNat) := by
  have hlt := rangeTotal_joinAll_lt htotal
  rw [umemRanges_eq]
  refine together_takeRanges offset 0 hlength hlt hij hi' hj' ?_
  cases ranges with
  | nil =>
    have hlen := congrArg List.length hsplit
    simp only [List.length_append, List.length_cons, List.length_nil] at hlen
    omega
  | cons => exact together_joinFrom htotal pre hsplit hnext hij hi hj

include hregion

lemma bytes_umemRanges : rangeBytes (umemRanges length offset ranges) =
    ((rangeBytes ranges).drop offset.toNat).take length.toNat := by
  have hroom : offset.toNat + (length.toNat - (0 : UInt64).toNat) ≤
      rangeTotal (joinAll ranges) := by
    rw [rangeTotal_joinAll htotal]
    exact hregion
  rw [umemRanges_eq, bytes_takeRanges offset 0 hlength hroom (rangeTotal_joinAll_lt htotal),
    bytes_joinAll htotal]
  rfl

end

section
variable {ownMws : Fin 2 → OwnMw} {accessFlags : UInt32}
    {sgl : List SgEntry} {offset length : UInt64}
  {count : Nat}

lemma ntcUmemSgl_count : ntcUmemSgl ownMws accessFlags none length offset sgl =
    ⟨(umemRanges length offset (sgl.map SgEntry.range)).length, []⟩ := by
  rw [ntcUmemSgl, umemSglLoop_eq, umemStoreAll_count, umemRanges_eq, Nat.zero_add]

/-- `ntrdma_mr_init` finds the number that was counted exactly if all elements can be mapped. -/
theorem ntcUmemSgl_init :
    (ntcUmemSgl ownMws accessFlags
      (some (ntcUmemSgl ownMws accessFlags none length offset sgl).n) length
        offset sgl).n = (ntcUmemSgl ownMws accessFlags none length offset sgl).n ↔
      ∃ elems,
        mapElems ownMws accessFlags (umemRanges length offset
          (sgl.map SgEntry.range)) = .ok elems := by
  rw [ntcUmemSgl_count, ntcUmemSgl, umemSglLoop_eq, ← umemRanges_eq]
  generalize umemRanges length offset (sgl.map SgEntry.range) = ranges
  have hstore := umemStoreAll_mapElems ownMws accessFlags ⟨0, []⟩ (Nat.zero_add ranges.length).le
  rw [Nat.zero_add] at hstore
  cases hmap : mapElems ownMws accessFlags ranges with
  | error =>
    rw [hmap] at hstore
    refine iff_of_false (Nat.ne_of_lt hstore) ?_
    rintro ⟨elems, helems⟩
    cases helems
  | ok elems =>
    rw [hmap] at hstore
    exact iff_of_true (by rw [hstore]) ⟨elems, rfl⟩

lemma ntcUmemSgl_all (hcount : (umemRanges length offset (sgl.map SgEntry.range)).length ≤ count)
    (hmap : ∀ range ∈ umemRanges length offset (sgl.map SgEntry.range),
      ∃ elem, mrBufMapDma ownMws range accessFlags = .ok elem) :
    ∃ elems, ntcUmemSgl ownMws accessFlags (some count) length offset sgl =
        ⟨(umemRanges length offset (sgl.map SgEntry.range)).length, elems⟩ ∧
      elems.map (·.buf) =
        (umemRanges length offset (sgl.map SgEntry.range)).map fun range =>
          ⟨range.len, range.addr⟩ := by
  rw [ntcUmemSgl, umemSglLoop_eq, ← umemRanges_eq]
  obtain ⟨elems, helems⟩ := mapElems_ok hmap
  have hstore := umemStoreAll_mapElems ownMws accessFlags ⟨0, []⟩ ((Nat.zero_add _).trans_le hcount)
  rw [helems, Nat.zero_add] at hstore
  exact ⟨elems, hstore, mapElems_bufs helems⟩

/-- The elements of a region are its bytes in order, and both passes count the same. -/
theorem umemSgl_exact (hents : sgl.length < 2 ^ 32) (hlength : 1 ≤ length.toNat)
    (hregion : offset.toNat + length.toNat ≤ sgTotal sgl)
    (hcount : (ntcUmemSgl ownMws accessFlags none length offset sgl).n ≤ count)
    (hmap : ∀ range ∈ umemRanges length offset (sgl.map SgEntry.range),
      ∃ elem, mrBufMapDma ownMws range accessFlags = .ok elem) :
    UmemExact sgl offset length (ntcUmemSgl ownMws accessFlags (some count) length offset sgl) ∧
      (ntcUmemSgl ownMws accessFlags none length offset sgl).n =
        (ntcUmemSgl ownMws accessFlags (some count) length offset sgl).n := by
  have htotal := sgTotal_lt hents
  rw [sgTotal_eq] at hregion htotal
  rw [ntcUmemSgl_count] at hcount ⊢
  obtain ⟨elems, hall, hbufs⟩ := ntcUmemSgl_all hcount hmap
  rw [hall]
  refine ⟨⟨?_, ?_, ?_, ?_⟩, rfl⟩
  · have hlen := congrArg List.length hbufs
    rwa [List.length_map, List.length_map, eq_comm] at hlen
  · rw [sgBytes_eq, ← bytes_umemRanges htotal hlength hregion]
    exact elemBytes_eq hbufs
  · intro elem helem
    obtain ⟨range, hrange, hbuf⟩ := List.mem_map.1 (hbufs ▸ List.mem_map_of_mem helem)
    have hpos := umemRanges_pos htotal hlength range hrange
    rwa [← hbuf]
  · intro pre sg next post hsplit hnext i j hij hi hj hi' hj'
    have hsplit' : sgl.map SgEntry.range =
        pre.map SgEntry.range ++ sg.range :: next.range :: post.map SgEntry.range := by
      rw [hsplit, List.map_append, List.map_cons, List.map_cons]
    rw [sgTotal_eq] at hi hj
    refine Together.congr (elems_sizes hbufs).symm
      (together_umemRanges htotal hlength hsplit' hnext hij hi ?_ hi' hj')
    rwa [SgEntry.range, SgEntry.range, UInt32.toNat_toUInt64, UInt32.toNat_toUInt64]

end

def threePages : List SgEntry := [⟨0x1000, 0x1000⟩, ⟨0x2000, 0x1000⟩, ⟨0x8000, 0x1000⟩]

def noWindows : Fin 2 → OwnMw := fun _ => ⟨0, 0⟩

theorem umemSgl_threePages :
    ntcUmemSgl noWindows 0 (some 2) 0x2100 0x10 threePages =
      ⟨2, [⟨⟨0x1ff0, 0x1010⟩, 1, 0, 0⟩, ⟨⟨0x110, 0x8000⟩, 1, 0, 0⟩]⟩ ∧
    UmemExact threePages 0x10 0x2100 (ntcUmemSgl noWindows 0 (some 2) 0x2100 0x10 threePages) ∧
    (ntcUmemSgl noWindows 0 none 0x2100 0x10 threePages).n = 2 := by
  have hrun : ntcUmemSgl noWindows 0 (some 2) 0x2100 0x10 threePages =
      ⟨2, [⟨⟨0x1ff0, 0x1010⟩, 1, 0, 0⟩, ⟨⟨0x110, 0x8000⟩, 1, 0, 0⟩]⟩ := by decide +kernel
  have hn : (ntcUmemSgl noWindows 0 none 0x2100 0x10 threePages).n = 2 := by decide +kernel
  have hexact : UmemExact threePages 0x10 0x2100
    (ntcUmemSgl noWindows 0 (some 2) 0x2100 0x10 threePages) :=
    (umemSgl_exact (by decide) (by decide) (by decide) hn.le fun range _ => ⟨_, rfl⟩).1
  exact ⟨hrun, hexact, hn⟩

end Ntrdma
