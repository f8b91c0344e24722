import Ntrdma.Lib.Align
import Ntrdma.Lib.Buckets
import Ntrdma.Lib.Partition
import Ntrdma.Lib.Run
import Ntrdma.Ntc.Dma

/-!
# The allocator of a memory window

Model of `struct ntc_mm` (`ntc_mm.h`). Memory is taken from a window in chunks whose sizes are
powers of two: a chunk that was freed is kept on the list of its size, and is handed out again
before the break is moved.

The sizes are C `int`s, given here by their bit patterns; the leading zeros of zero are not defined,
so that a size can have no result. A free list is a list of addresses (in C it runs through the free
chunks themselves, which have room for an entry), and an error pointer is an `Except`: the addresses
of memory are neither `NULL` nor error pointers.
-/

namespace Ntrdma
open Lib

def builtinClz (x : UInt32) : Option Nat := if x = 0 then none else some (31 - x.toNat.log2)

/-- C `ALIGN` of an `int` to `sizeof(struct ntc_mm_free_entry)`, which is 16. -/
def mmAlign (size : UInt32) : UInt32 := (size + 15) &&& ~~~15

def mmChunkSize (size : UInt32) : Option UInt32 :=
  if size = 0 then some 0
  else
    let size := mmAlign size
    match builtinClz size with
    | none => none
    | some clz =>
      if clz < 2 then some 0
      else if size <<< UInt32.ofNat (clz + 1) ≠ 0 then some (1 <<< UInt32.ofNat (32 - clz))
      else some (1 <<< UInt32.ofNat (32 - clz - 1))

def mmRoundUpPtr (ptr : UInt64) : UInt64 := (ptr + 15) &&& ~~~15

/-- C `struct ntc_mm`. `fixed` has the free chunks by their size. -/
structure Mm where
  memory : UInt64
  memEnd : UInt64
  brk : UInt64
  fixed : Buckets UInt32 UInt64

def mmInit (memory size : UInt64) : Except Errno Mm :=
  let m := mmRoundUpPtr memory
  let size := if size ≠ 0 then size - (m - memory) else size
  let memEnd := m + size
  if memEnd < m then .error .einval else .ok ⟨m, memEnd, m, []⟩

def intNeg (x : UInt32) : Prop := x ≥ 0x80000000

instance : DecidablePred intNeg := fun x => inferInstanceAs (Decidable (x ≥ 0x80000000))

def mmSbrk (mm : Mm) (inc : UInt32) : Except Errno UInt64 × Mm :=
  if intNeg inc then (.error .einval, mm)
  else
    let result := mm.brk
    let brk := result + inc.toUInt64
    if brk < result then (.error .enomem, mm)
    else if brk > mm.memEnd then (.error .enomem, mm)
    else (.ok result, { mm with brk })

/-- What `kmalloc` and `idr_alloc` return for a new free list. -/
structure FixedEnv where
  kmalloc : Bool
  idr : Except Errno Unit

def mmGetFixed (env : FixedEnv) (mm : Mm) (size : UInt32) : Except Errno Mm :=
  match mm.fixed.find size with
  | some _ => .ok mm
  | none =>
    if size = 0 ∨ intNeg size then .error .einval
    else if !env.kmalloc then .error .enomem
    else
      match env.idr with
      | .error e => .error e
      | .ok () => .ok { mm with fixed := mm.fixed.add size }

def mmFixedAlloc (mm : Mm) (size : UInt32) : Except Errno UInt64 × Mm :=
  match mm.fixed.find size with
  | some (ptr :: rest) => (.ok ptr, { mm with fixed := mm.fixed.replace size rest })
  | _ => (.error .enomem, mm)

def mmAlloc (env : FixedEnv) (mm : Mm) (size : UInt32) : Option (Except Errno UInt64 × Mm) :=
  match mmChunkSize size with
  | none => none
  | some size =>
    match mmGetFixed env mm size with
    | .error e => some (.error e, mm)
    | .ok mm =>
      match mmFixedAlloc mm size with
      | (.ok ptr, mm) => some (.ok ptr, mm)
      | (.error _, mm) => some (mmSbrk mm size)

/-- C `ntc_mm_free`. A size without a list is warned about. -/
def mmFree (mm : Mm) (ptr : UInt64) (size : UInt32) : Option Mm :=
  match mmChunkSize size with
  | none => none
  | some size =>
    match mm.fixed.find size with
    | some rest => some { mm with fixed := mm.fixed.replace size (ptr :: rest) }
    | none => some mm

def mmPreinitLoop (size : UInt32) : Nat → Mm → Mm
  | 0, mm => mm
  | n + 1, mm =>
    match mmSbrk mm size with
    | (.error _, mm) => mm
    | (.ok ptr, mm) =>
      match mm.fixed.find size with
      | some rest => mmPreinitLoop size n { mm with fixed := mm.fixed.replace size (ptr :: rest) }
      | none => mm

def mmPreinit (env : FixedEnv) (mm : Mm) (size : UInt32) (numEls : Nat) : Option Mm :=
  match mmChunkSize size with
  | none => none
  | some size =>
    match mmGetFixed env mm size with
    | .error _ => some mm
    | .ok mm => some (mmPreinitLoop size numEls mm)

/-! ## The size of a chunk -/

lemma mmAlign_toNat (size : UInt32) : (mmAlign size).toNat =
    (size.toNat + 15) % 2 ^ 32 / 16 * 16 := by
  refine (toNat_and_not_low (size + 15).toBitVec 4).trans ?_
  rfl

lemma mmRoundUpPtr_toNat (ptr : UInt64) :
    (mmRoundUpPtr ptr).toNat = (ptr.toNat + 15) % 2 ^ 64 / 16 * 16 := by
  refine (toNat_and_not_low (ptr + 15).toBitVec 4).trans ?_
  rfl

variable {l : Nat}

lemma one_shiftLeft_toNat (h : l < 32) : ((1 : UInt32) <<< UInt32.ofNat l).toNat = 2 ^ l := by
  rw [UInt32.toNat_shiftLeft, UInt32.toNat_ofNat', Nat.mod_eq_of_lt (by omega : l < 2 ^ 32),
    Nat.mod_eq_of_lt h, UInt32.toNat_one, Nat.one_shiftLeft]
  exact Nat.mod_eq_of_lt (Nat.pow_lt_pow_right (by decide) h)

lemma shiftLeft_eq_zero_iff {x : UInt32} (hl : 0 < l) (hlt : l < 32) (hle : 2 ^ l ≤ x.toNat)
    (hx : x.toNat < 2 ^ (l + 1)) : x <<< UInt32.ofNat (32 - l) = 0 ↔ x.toNat = 2 ^ l := by
  have hsplit : 2 ^ 32 = 2 ^ l * 2 ^ (32 - l) := by
    rw [← Nat.pow_add]
    congr 1
    omega
  have hmod : x.toNat % 2 ^ l = x.toNat - 2 ^ l := by
    rw [Nat.mod_eq_sub_mod hle]
    exact Nat.mod_eq_of_lt (by rw [Nat.pow_succ] at hx; omega)
  have hshift : (x <<< UInt32.ofNat (32 - l)).toNat = (x.toNat - 2 ^ l) * 2 ^ (32 - l) := by
    rw [UInt32.toNat_shiftLeft, UInt32.toNat_ofNat', Nat.mod_eq_of_lt (by omega : 32 - l < 2 ^ 32),
      Nat.mod_eq_of_lt (by omega : 32 - l < 32), Nat.shiftLeft_eq, hsplit,
        Nat.mul_mod_mul_right, hmod]
  rw [← UInt32.toNat_inj, hshift, UInt32.toNat_zero, Nat.mul_eq_zero]
  have hpos : 2 ^ (32 - l) ≠ 0 := Nat.pos_iff_ne_zero.1 (Nat.two_pow_pos _)
  omega

/-- The size of a chunk: zero for none and for too large ones, not defined where the alignment
wraps, else a power of two with room. -/
inductive MmChunk (size : UInt32) : Option UInt32 → Prop
  | zero : size = 0 → MmChunk size (some 0)
  | wraps : 2 ^ 32 - 16 < size.toNat → MmChunk size none
  | large : 2 ^ 30 - 16 < size.toNat → size.toNat ≤ 2 ^ 32 - 16 → MmChunk size (some 0)
  | chunk {k : UInt32} : 0 < size.toNat → size.toNat ≤ 2 ^ 30 - 16 → size.toNat ≤ k.toNat →
    16 ∣ k.toNat → 0 < k.toNat → k.toNat ≤ 2 ^ 30 → MmChunk size (some k)

lemma mmChunkSize_chunk (size : UInt32) : MmChunk size (mmChunkSize size) := by
  rw [mmChunkSize]
  split
  next hzero => exact .zero hzero
  rename_i hzero
  have hpos : 0 < size.toNat := Nat.pos_of_ne_zero fun h0 => hzero (UInt32.toNat_inj.1 h0)
  have hsize := size.toNat_lt
  have halign := mmAlign_toNat size
  dsimp only
  generalize mmAlign size = n at halign
  rw [builtinClz]
  by_cases hn : n = 0
  · rw [if_pos hn]
    rw [hn, UInt32.toNat_zero] at halign
    exact .wraps (by omega)
  rw [if_neg hn]
  have hne : n.toNat ≠ 0 := fun h0 => hn (UInt32.toNat_inj.1 h0)
  have hnlt := n.toNat_lt
  -- the position of the leading one
  have hle := Nat.log2_self_le hne
  have hlt := Nat.lt_log2_self (n := n.toNat)
  have hlog : n.toNat.log2 < 32 := (Nat.log2_lt hne).2 hnlt
  have hfour : 4 ≤ n.toNat.log2 := (Nat.le_log2 hne).2 (by omega)
  generalize n.toNat.log2 = l at hle hlt hlog hfour
  dsimp only
  split
  · -- the leading one is one of the two highest bits
    have hbig : 2 ^ 30 ≤ 2 ^ l := Nat.pow_le_pow_right (by decide) (by omega)
    exact .large (by omega) (by omega)
  rename_i hclz
  have hsmall : 2 ^ (l + 1) ≤ 2 ^ 30 := Nat.pow_le_pow_right (by decide) (by omega)
  have hdvd : ∀ m, 4 ≤ m → 16 ∣ 2 ^ m := fun m hm => Nat.pow_dvd_pow 2 hm
  rw [show 31 - l + 1 = 32 - l by omega, show 32 - (31 - l) = l + 1 by omega]
  by_cases hpow : n.toNat = 2 ^ l
  · -- a power of two is its own chunk
    rw [if_neg (not_not.2 ((shiftLeft_eq_zero_iff (by omega) hlog hle hlt).2 hpow))]
    have hk := one_shiftLeft_toNat hlog
    rw [Nat.add_sub_cancel]
    refine .chunk hpos ?_ ?_ ?_ ?_ ?_ <;> rw [Nat.pow_succ] at hsmall
    · omega
    · omega
    · rw [hk]
      exact hdvd l hfour
    · omega
    · omega
  · rw [if_pos fun h0 => hpow ((shiftLeft_eq_zero_iff (by omega) hlog hle hlt).1 h0)]
    have hk := one_shiftLeft_toNat (by omega : l + 1 < 32)
    refine .chunk hpos ?_ ?_ ?_ ?_ ?_
    · omega
    · omega
    · rw [hk]
      exact hdvd (l + 1) (by omega)
    · omega
    · omega

/-! ## The allocator with what was handed out -/

/-- The allocator, and the chunks that are in use: their addresses and the sizes that were asked
for. -/
structure MmSys where
  mm : Mm
  live : List (UInt64 × UInt32)

inductive MmOp where
  | alloc (env : FixedEnv) (size : UInt32)
  | free (ptr : UInt64) (size : UInt32)
  | preinit (env : FixedEnv) (size : UInt32) (numEls : Nat)

/-- The allocator after an operation. A chunk is freed that is in use, with the size that was asked
for. -/
def MmSys.exec (s : MmSys) : MmOp → Option MmSys
  | .alloc env size =>
    match mmAlloc env s.mm size with
    | none => none
    | some (.error _, mm) => some { s with mm }
    | some (.ok ptr, mm) => some ⟨mm, (ptr, size) :: s.live⟩
  | .free ptr size =>
    if (ptr, size) ∈ s.live then
      match mmFree s.mm ptr size with
      | none => none
      | some mm => some ⟨mm, s.live.erase (ptr, size)⟩
    else some s
  | .preinit env size numEls =>
    match mmPreinit env s.mm size numEls with
    | none => none
    | some mm => some { s with mm }

def MmOp.InRange : MmOp → Prop
  | .alloc _ size => 0 < size ∧ size < 0x40000000
  | .free _ _ => True
  | .preinit _ size _ => 0 < size ∧ size < 0x40000000

def liveChunk (e : UInt64 × UInt32) : Nat × Nat := (e.1.toNat, ((mmChunkSize e.2).getD 0).toNat)

def freeChunk (e : UInt64 × UInt32) : Nat × Nat := (e.1.toNat, e.2.toNat)

def MmSys.chunks (s : MmSys) : List (Nat × Nat) :=
  s.live.map liveChunk ++ s.mm.fixed.contents.map freeChunk

/-- The chunks in use are disjoint, aligned, large enough and inside of the memory, and with the
free ones they partition it up to the break. -/
structure MmSys.Sound (memory memEnd : UInt64) (s : MmSys) : Prop where
  disjoint : (s.live.map liveChunk).Pairwise Apart
  aligned : ∀ e ∈ s.live, 16 ∣ e.1.toNat
  large : ∀ e ∈ s.live, e.2.toNat ≤ (liveChunk e).2
  inside : ∀ e ∈ s.live,
    memory.toNat ≤ (liveChunk e).1 ∧ (liveChunk e).1 + (liveChunk e).2 ≤ memEnd.toNat
  partition : Partition s.chunks memory.toNat s.mm.brk.toNat

def IsChunkSize (k : UInt32) : Prop := 16 ∣ k.toNat ∧ 0 < k.toNat ∧ k.toNat ≤ 2 ^ 30

lemma IsChunkSize.not_intNeg {k : UInt32} (hk : IsChunkSize k) : ¬ intNeg k := by
  obtain ⟨-, -, hmax⟩ := hk
  rw [intNeg, ge_iff_le, UInt32.le_iff_toNat_le, show (0x80000000 : UInt32).toNat = 2 ^ 31 from rfl]
  omega

/-- The invariant of the allocator itself, with the chunks in use as they lie in memory. -/
structure Mm.Inv (memory memEnd : UInt64) (mm : Mm) (live : List (Nat × Nat)) : Prop where
  memEnd_eq : mm.memEnd = memEnd
  le : memory.toNat ≤ mm.brk.toNat
  le_end : mm.brk.toNat ≤ memEnd.toNat
  brk_aligned : 16 ∣ mm.brk.toNat
  aligned : ∀ c ∈ live ++ mm.fixed.contents.map freeChunk, 16 ∣ c.1
  partition : Partition (live ++ mm.fixed.contents.map freeChunk) memory.toNat mm.brk.toNat
  zero : (mm.fixed.find 0).isSome = false

/-- The invariant: that of the allocator, and each chunk in use has a size with a free list. -/
structure MmSys.Inv (memory memEnd : UInt64) (s : MmSys) : Prop where
  mm : s.mm.Inv memory memEnd (s.live.map liveChunk)
  sizes : ∀ e ∈ s.live, ∃ k, mmChunkSize e.2 = some k ∧ IsChunkSize k ∧ e.2.toNat ≤ k.toNat ∧
    (s.mm.fixed.find k).isSome

lemma MmSys.Inv.sound {memory memEnd : UInt64} {s : MmSys} (h : s.Inv memory memEnd) :
    s.Sound memory memEnd := by
  have hchunk : ∀ e ∈ s.live, e.2.toNat ≤ (liveChunk e).2 ∧ 0 < (liveChunk e).2 := by
    intro e he
    obtain ⟨k, hk, hsize, hle, -⟩ := h.sizes e he
    rw [liveChunk, hk]
    exact ⟨hle, hsize.2.1⟩
  have hmem : ∀ e ∈ s.live, liveChunk e ∈ s.chunks := fun e he =>
    List.mem_append_left _ (List.mem_map_of_mem he)
  refine ⟨h.mm.partition.sublist (List.sublist_append_left _ _), fun e he =>
    h.mm.aligned _ (hmem e he),
    fun e he => (hchunk e he).1, fun e he => ?_, h.mm.partition⟩
  have hbounds := h.mm.partition.bounds (hmem e he) (hchunk e he).2
  exact ⟨hbounds.1, hbounds.2.trans h.mm.le_end⟩

/-! ## What the operations keep -/

section
variable {memory memEnd : UInt64} {mm : Mm} {live : List (Nat × Nat)} {k : UInt32}

variable {mm' : Mm}

lemma Mm.Inv.of_perm {live' : List (Nat × Nat)} (h : mm.Inv memory memEnd live)
    (hend : mm'.memEnd = mm.memEnd) (hbrk : mm'.brk = mm.brk)
    (hzero : (mm'.fixed.find 0).isSome = (mm.fixed.find 0).isSome)
    (hperm : (live ++ mm.fixed.contents.map freeChunk).Perm
      (live' ++ mm'.fixed.contents.map freeChunk)) : mm'.Inv memory memEnd live' := by
  refine ⟨hend.trans h.memEnd_eq, ?_, ?_, ?_, fun c hc => h.aligned c (hperm.mem_iff.2 hc), ?_,
    hzero.trans h.zero⟩ <;> rw [hbrk]
  · exact h.le
  · exact h.le_end
  · exact h.brk_aligned
  · exact h.partition.perm hperm

variable {env : FixedEnv}

lemma mmGetFixed_ok (hget : mmGetFixed env mm k = .ok mm') :
    (∃ l, mm'.fixed.find k = some l) ∧ mm'.memEnd = mm.memEnd ∧ mm'.brk = mm.brk ∧
      mm'.fixed.contents = mm.fixed.contents ∧ mm'.fixed.find 0 = mm.fixed.find 0 ∧
      ∀ k', (mm.fixed.find k').isSome → (mm'.fixed.find k').isSome := by
  rw [mmGetFixed] at hget
  cases hfind : mm.fixed.find k with
  | some l =>
    rw [hfind] at hget
    cases hget
    exact ⟨⟨l, hfind⟩, rfl, rfl, rfl, rfl, fun _ hk => hk⟩
  | none =>
    rw [hfind] at hget
    dsimp only at hget
    split at hget
    · cases hget
    rename_i hpos
    split at hget
    · cases hget
    split at hget
    · cases hget
    · cases hget
      have hne : 0 ≠ k := fun h0 => hpos (.inl h0.symm)
      exact ⟨⟨[], Buckets.find_add hfind⟩, rfl, rfl, Buckets.contents_add _ _,
        Buckets.find_add_of_ne hne,
        fun _ hk => Buckets.isSome_find_add hk⟩

lemma Mm.Inv.sbrk (h : mm.Inv memory memEnd live) (hk : IsChunkSize k) :
    (∃ e, mmSbrk mm k = (.error e, mm)) ∨
      mmSbrk mm k = (.ok mm.brk, { mm with brk := mm.brk + k.toUInt64 }) ∧
        ({ mm with brk := mm.brk + k.toUInt64 } : Mm).Inv memory memEnd
          ((mm.brk.toNat, k.toNat) :: live) := by
  have hsign := hk.not_intNeg
  obtain ⟨hdvd, -, -⟩ := hk
  rw [mmSbrk, if_neg hsign]
  dsimp only
  split
  · exact .inl ⟨_, rfl⟩
  rename_i hwrap
  split
  · exact .inl ⟨_, rfl⟩
  rename_i hroom
  have hbrk : (mm.brk + k.toUInt64).toNat = mm.brk.toNat + k.toNat := by
    rw [UInt64.lt_iff_toNat_lt, UInt64.toNat_add, UInt32.toNat_toUInt64] at hwrap
    rw [UInt64.toNat_add, UInt32.toNat_toUInt64]
    have hlt' := k.toNat_lt
    omega
  rw [gt_iff_lt, UInt64.lt_iff_toNat_lt, hbrk, h.memEnd_eq] at hroom
  refine .inr ⟨rfl, ?_⟩
  have hle := h.le
  refine ⟨h.memEnd_eq, ?_, ?_, ?_, List.forall_mem_cons.2
    ⟨h.brk_aligned, h.aligned⟩, ?_, h.zero⟩ <;>
    dsimp only <;> rw [hbrk]
  · omega
  · omega
  · exact (Nat.dvd_add_right h.brk_aligned).2 hdvd
  · exact h.partition.grow hle k.toNat

variable {ptr : UInt64} {l : List UInt64}

lemma Mm.Inv.fixedFree (h : mm.Inv memory memEnd ((ptr.toNat, k.toNat) :: live))
    (hfind : mm.fixed.find k = some l) :
    ({ mm with fixed := mm.fixed.replace k (ptr :: l) } : Mm).Inv memory memEnd live := by
  refine h.of_perm rfl rfl (Buckets.isSome_find_replace _ _) ?_
  refine List.Perm.trans ?_
    (((Buckets.contents_push hfind ptr).map freeChunk).symm.append_left live)
  exact List.perm_middle.symm

lemma Mm.Inv.fixedAlloc (h : mm.Inv memory memEnd live)
    (hfind : mm.fixed.find k = some (ptr :: l)) :
    ({ mm with fixed := mm.fixed.replace k l } : Mm).Inv memory memEnd
      ((ptr.toNat, k.toNat) :: live) := by
  refine h.of_perm rfl rfl (Buckets.isSome_find_replace _ _) ?_
  refine (((Buckets.contents_pop hfind).map freeChunk).append_left live).trans ?_
  exact List.perm_middle

lemma Mm.Inv.getFixed (h : mm.Inv memory memEnd live) (hget : mmGetFixed env mm k = .ok mm') :
    mm'.Inv memory memEnd live := by
  obtain ⟨-, hend, hbrk, hcontents, hzero, -⟩ := mmGetFixed_ok hget
  exact h.of_perm hend hbrk (congrArg Option.isSome hzero) (by rw [hcontents])

lemma Mm.Inv.alloc {size : UInt32} (h : mm.Inv memory memEnd live)
    (hchunk : mmChunkSize size = some k) (hk : IsChunkSize k) (env : FixedEnv) :
    ∃ rc mm', mmAlloc env mm size = some (rc, mm') ∧
      (∀ k', (mm.fixed.find k').isSome → (mm'.fixed.find k').isSome) ∧
      ((∃ e, rc = .error e) ∧ mm'.Inv memory memEnd live ∨
        ∃ ptr, rc = .ok ptr ∧ mm'.Inv memory memEnd ((ptr.toNat, k.toNat) :: live) ∧
          (mm'.fixed.find k).isSome) := by
  rw [mmAlloc, hchunk]
  dsimp only
  cases hget : mmGetFixed env mm k with
  | error e => exact ⟨_, _, rfl, fun _ hk' => hk', .inl ⟨⟨e, rfl⟩, h⟩⟩
  | ok mm' =>
    obtain ⟨⟨l, hfind⟩, -, -, -, -, hkept⟩ := mmGetFixed_ok hget
    have h' := h.getFixed hget
    dsimp only
    rw [mmFixedAlloc, hfind]
    cases l with
    | cons ptr =>
      -- the break is moved only if the list of the size is empty
      refine ⟨_, _, rfl, fun k' hk' => ?_, .inr ⟨ptr, rfl, h'.fixedAlloc hfind, ?_⟩⟩
      · rw [Buckets.isSome_find_replace]
        exact hkept k' hk'
      · rw [Buckets.isSome_find_replace, hfind]
        rfl
    | nil =>
      dsimp only
      obtain ⟨e, hsbrk⟩ | ⟨hsbrk, hinv⟩ := h'.sbrk hk
      · rw [hsbrk]
        exact ⟨_, _, rfl, hkept, .inl ⟨⟨e, rfl⟩, h'⟩⟩
      · rw [hsbrk]
        exact ⟨_, _, rfl, hkept, .inr ⟨mm'.brk, rfl, hinv, by rw [hfind]; rfl⟩⟩

lemma Mm.Inv.preinitLoop (h : mm.Inv memory memEnd live) (hk : IsChunkSize k)
    (hfind : mm.fixed.find k = some l) (n : Nat) :
    (mmPreinitLoop k n mm).Inv memory memEnd live ∧
      ∀ k', (mm.fixed.find k').isSome → ((mmPreinitLoop k n mm).fixed.find k').isSome := by
  induction n generalizing mm l with
  | zero => exact ⟨h, fun _ hk' => hk'⟩
  | succ _ ih =>
    rw [mmPreinitLoop]
    obtain ⟨e, hsbrk⟩ | ⟨hsbrk, hinv⟩ := h.sbrk hk
    · rw [hsbrk]
      exact ⟨h, fun _ hk' => hk'⟩
    · rw [hsbrk]
      dsimp only
      rw [hfind]
      have hsome : ((mm.fixed.replace k (mm.brk :: l)).find k).isSome := by
        rw [Buckets.isSome_find_replace, hfind]
        rfl
      obtain ⟨l', hl'⟩ := Option.isSome_iff_exists.1 hsome
      obtain ⟨hloop, hkept⟩ := ih (hinv.fixedFree hfind) hl'
      refine ⟨hloop, fun k' hk' => hkept k' ?_⟩
      rw [Buckets.isSome_find_replace]
      exact hk'

end

variable {size : UInt32}

lemma mmChunkSize_inRange (h : 0 < size ∧ size < 0x40000000) : mmChunkSize size = some 0 ∨
      ∃ k, mmChunkSize size = some k ∧ IsChunkSize k ∧ size.toNat ≤ k.toNat := by
  obtain ⟨hpos, hlt⟩ := h
  have hlt' : size.toNat < 2 ^ 30 := hlt
  have hchunk := mmChunkSize_chunk size
  generalize mmChunkSize size = res at hchunk
  cases hchunk with
  | zero => exact .inl rfl
  | wraps => omega
  | large => exact .inl rfl
  | chunk _ _ hle hdvd hpos hmax => exact .inr ⟨_, rfl, ⟨hdvd, hpos, hmax⟩, hle⟩

variable {mm : Mm}

lemma mmGetFixed_zero (h : (mm.fixed.find 0).isSome = false) (env : FixedEnv) :
    mmGetFixed env mm 0 = .error .einval := by
  rw [mmGetFixed, Option.isSome_eq_false_iff.1 h |> Option.isNone_iff_eq_none.1]
  exact if_pos (.inl rfl)

lemma mmAlloc_refused (hzero : (mm.fixed.find 0).isSome = false)
    (hchunk : mmChunkSize size = some 0) (env : FixedEnv) :
    mmAlloc env mm size = some (.error .einval, mm) := by
  rw [mmAlloc, hchunk]
  dsimp only
  rw [mmGetFixed_zero hzero]

lemma mmAlloc_room {size k : UInt32} (hchunk : mmChunkSize size = some k) (hk : IsChunkSize k)
    (hnew : mm.fixed.find k = none) (hroom : mm.brk.toNat + k.toNat ≤ mm.memEnd.toNat) :
    ∃ mm', mmAlloc ⟨true, .ok ()⟩ mm size = some (.ok mm.brk, mm') := by
  have hsign := hk.not_intNeg
  have hsize : ¬ (k = 0 ∨ intNeg k) := by
    rintro (rfl | hneg)
    · cases hk.2.1
    · exact hsign hneg
  have hbrk : (mm.brk + k.toUInt64).toNat = mm.brk.toNat + k.toNat := by
    have hlt := mm.memEnd.toNat_lt
    rw [UInt64.toNat_add, UInt32.toNat_toUInt64]
    omega
  have hwrap : ¬ mm.brk + k.toUInt64 < mm.brk := by
    rw [UInt64.lt_iff_toNat_lt, hbrk]
    omega
  have hend : ¬ mm.brk + k.toUInt64 > mm.memEnd := by
    rw [gt_iff_lt, UInt64.lt_iff_toNat_lt, hbrk]
    omega
  have hget : mmGetFixed ⟨true, .ok ()⟩ mm k = .ok { mm with fixed := mm.fixed.add k } := by
    rw [mmGetFixed, hnew]
    exact if_neg hsize
  rw [mmAlloc, hchunk]
  dsimp only
  rw [hget]
  dsimp only
  rw [mmFixedAlloc, Buckets.find_add hnew]
  dsimp only
  rw [mmSbrk, if_neg hsign]
  rw [if_neg hwrap, if_neg hend]
  exact ⟨_, rfl⟩

lemma mmAlloc_isSome (mm : Mm) {size k : UInt32} (hchunk : mmChunkSize size = some k)
    (env : FixedEnv) : ∃ rc mm', mmAlloc env mm size = some (rc, mm') := by
  rw [mmAlloc, hchunk]
  dsimp only
  split
  · exact ⟨_, _, rfl⟩
  · split
    · exact ⟨_, _, rfl⟩
    · exact ⟨_, _, rfl⟩

/-! ## No operation makes a free list of size zero -/

lemma mmSbrk_fixed (mm : Mm) (k : UInt32) : (mmSbrk mm k).2.fixed = mm.fixed := by
  rw [mmSbrk]
  split
  · rfl
  · dsimp only
    split
    · rfl
    · split
      · rfl
      · rfl

variable {env : FixedEnv}

variable {mm mm' : Mm}

lemma mmAlloc_zero {rc : Except Errno UInt64} (h : mmAlloc env mm size = some (rc, mm')) :
    (mm'.fixed.find 0).isSome = (mm.fixed.find 0).isSome := by
  rw [mmAlloc] at h
  cases hchunk : mmChunkSize size with
  | none =>
    rw [hchunk] at h
    cases h
  | some k =>
    rw [hchunk] at h
    dsimp only at h
    cases hget : mmGetFixed env mm k with
    | error =>
      rw [hget] at h
      cases h
      rfl
    | ok mm₁ =>
      obtain ⟨⟨l, hfind⟩, -, -, -, hzero, -⟩ := mmGetFixed_ok hget
      rw [hget] at h
      dsimp only at h
      rw [mmFixedAlloc, hfind] at h
      rw [← hzero]
      cases l with
      | cons =>
        cases h
        exact Buckets.isSome_find_replace _ _
      | nil =>
        have hsbrk : mm' = (mmSbrk mm₁ k).2 := (congrArg Prod.snd (Option.some.inj h)).symm
        rw [hsbrk, mmSbrk_fixed]

lemma mmFree_zero {ptr : UInt64} (h : mmFree mm ptr size = some mm') :
    (mm'.fixed.find 0).isSome = (mm.fixed.find 0).isSome := by
  rw [mmFree] at h
  split at h
  · cases h
  · split at h
    · cases h
      exact Buckets.isSome_find_replace _ _
    · cases h
      rfl

lemma mmPreinitLoop_zero (k : UInt32) (n : Nat) (mm : Mm) :
    ((mmPreinitLoop k n mm).fixed.find 0).isSome = (mm.fixed.find 0).isSome := by
  induction n generalizing mm with
  | zero => rfl
  | succ _ ih =>
    have hfixed := mmSbrk_fixed mm k
    rw [mmPreinitLoop]
    cases hsbrk : mmSbrk mm k with
    | mk rc mm₁ =>
      rw [hsbrk] at hfixed
      cases rc with
      | error => exact congrArg (fun b => (b.find 0).isSome) hfixed
      | ok =>
        dsimp only
        rw [← hfixed]
        cases hfind : mm₁.fixed.find k with
        | none => rfl
        | some => exact (ih _).trans (Buckets.isSome_find_replace _ _)

lemma mmPreinit_zero {numEls : Nat} (h : mmPreinit env mm size numEls = some mm') :
    (mm'.fixed.find 0).isSome = (mm.fixed.find 0).isSome := by
  rw [mmPreinit] at h
  split at h
  · cases h
  · split at h
    · cases h
      rfl
    next hget =>
      obtain ⟨-, -, -, -, hzero, -⟩ := mmGetFixed_ok hget
      cases h
      rw [mmPreinitLoop_zero, hzero]

lemma MmSys.exec_zero {s t : MmSys} {op : MmOp} (h : s.exec op = some t) :
    (t.mm.fixed.find 0).isSome = (s.mm.fixed.find 0).isSome := by
  cases op with
  | alloc =>
    rw [exec] at h
    split at h
    · cases h
    next halloc =>
      cases h
      exact mmAlloc_zero halloc
    next halloc =>
      cases h
      exact mmAlloc_zero halloc
  | free =>
    rw [exec] at h
    split at h
    · split at h
      · cases h
      next hfree =>
        cases h
        exact mmFree_zero hfree
    · cases h
      rfl
  | preinit =>
    rw [exec] at h
    split at h
    · cases h
    next hpre =>
      cases h
      exact mmPreinit_zero hpre

namespace MmSys
variable {memory memEnd : UInt64} {s : MmSys}

variable {size : UInt32}

lemma Inv.alloc (h : s.Inv memory memEnd) (hsize : 0 < size ∧ size < 0x40000000) (env : FixedEnv) :
    ∃ t, s.exec (.alloc env size) = some t ∧ t.Inv memory memEnd := by
  rw [exec]
  obtain hzero | ⟨k, hchunk, hk, hle⟩ := mmChunkSize_inRange hsize
  · rw [mmAlloc_refused h.mm.zero hzero]
    exact ⟨s, rfl, h⟩
  · obtain ⟨rc, mm', halloc, hkept, hres⟩ := h.mm.alloc hchunk hk env
    have hsizes : ∀ e ∈ s.live, ∃ k, mmChunkSize e.2 = some k ∧
      IsChunkSize k ∧ e.2.toNat ≤ k.toNat ∧
        (mm'.fixed.find k).isSome := by
      intro e he
      obtain ⟨k', hchunk', hk', hle', hfind'⟩ := h.sizes e he
      exact ⟨k', hchunk', hk', hle', hkept k' hfind'⟩
    rw [halloc]
    obtain ⟨⟨e, rfl⟩, hinv⟩ | ⟨ptr, rfl, hinv, hfind⟩ := hres
    · exact ⟨_, rfl, hinv, hsizes⟩
    · refine ⟨_, rfl, ?_, List.forall_mem_cons.2 ⟨⟨k, hchunk, hk, hle, hfind⟩, hsizes⟩⟩
      have hchunk' : liveChunk (ptr, size) = (ptr.toNat, k.toNat) := by
        rw [liveChunk, hchunk]
        rfl
      rw [List.map_cons, hchunk']
      exact hinv

lemma Inv.free (h : s.Inv memory memEnd) {ptr : UInt64} (hin : (ptr, size) ∈ s.live) :
    ∃ t, s.exec (.free ptr size) = some t ∧ t.Inv memory memEnd := by
  obtain ⟨k, hchunk, hk, -, hsome⟩ := h.sizes _ hin
  obtain ⟨l, hfind⟩ := Option.isSome_iff_exists.1 hsome
  rw [exec, if_pos hin, mmFree, hchunk]
  dsimp only
  rw [hfind]
  refine ⟨_, rfl, ?_, fun e he => ?_⟩ <;> dsimp only
  · -- the chunk comes first among those in use, and goes from there to its list
    refine Mm.Inv.fixedFree (h.mm.of_perm rfl rfl rfl ?_) hfind
    have hperm := (List.perm_cons_erase hin).map liveChunk
    rw [List.map_cons, liveChunk, hchunk] at hperm
    exact hperm.append_right _
  · obtain ⟨k', hchunk', hk', hle', hfind'⟩ := h.sizes e (List.mem_of_mem_erase he)
    refine ⟨k', hchunk', hk', hle', ?_⟩
    rw [Buckets.isSome_find_replace]
    exact hfind'

lemma Inv.preinit (h : s.Inv memory memEnd) (hsize : 0 < size ∧ size < 0x40000000) (env : FixedEnv)
    (numEls : Nat) : ∃ t, s.exec (.preinit env size numEls) = some t ∧ t.Inv memory memEnd := by
  rw [exec, mmPreinit]
  obtain hzero | ⟨k, hchunk, hk, -⟩ := mmChunkSize_inRange hsize
  · rw [hzero]
    dsimp only
    rw [mmGetFixed_zero h.mm.zero]
    exact ⟨s, rfl, h⟩
  · rw [hchunk]
    dsimp only
    cases hget : mmGetFixed env s.mm k with
    | error => exact ⟨s, rfl, h⟩
    | ok =>
      obtain ⟨⟨l, hfind⟩, -, -, -, -, hkept⟩ := mmGetFixed_ok hget
      obtain ⟨hloop, hkept'⟩ := (h.mm.getFixed hget).preinitLoop hk hfind numEls
      refine ⟨_, rfl, hloop, fun e he => ?_⟩
      obtain ⟨k', hchunk', hk', hle', hfind'⟩ := h.sizes e he
      exact ⟨k', hchunk', hk', hle', hkept' k' (hkept k' hfind')⟩

lemma Inv.exec (h : s.Inv memory memEnd) {op : MmOp} (hop : op.InRange) :
    ∃ t, s.exec op = some t ∧ t.Inv memory memEnd := by
  cases op with
  | alloc env => exact h.alloc hop env
  | free ptr size =>
    by_cases hin : (ptr, size) ∈ s.live
    · exact h.free hin
    · exact ⟨s, if_neg hin, h⟩
  | preinit env _ numEls => exact h.preinit hop env numEls

end MmSys

/-! ## The memory of an allocator -/

variable {memory size : UInt64}

lemma mmInit_ok (h : mmInit memory size = .ok mm) :
    mm = ⟨mmRoundUpPtr memory, mm.memEnd, mmRoundUpPtr memory, []⟩ ∧
      (mmRoundUpPtr memory).toNat ≤ mm.memEnd.toNat := by
  rw [mmInit] at h
  generalize (if size ≠ 0 then size - (mmRoundUpPtr memory - memory) else size) = n at h
  split at h
  · cases h
  next hle =>
    cases h
    exact ⟨rfl, UInt64.le_iff_toNat_le.1 (UInt64.not_lt.1 hle)⟩

lemma mmInit_inv (h : mmInit memory size = .ok mm) :
    (⟨mm, []⟩ : MmSys).Inv mm.memory mm.memEnd := by
  obtain ⟨hmm, hle⟩ := mmInit_ok h
  have haligned : 16 ∣ (mmRoundUpPtr memory).toNat := by
    rw [mmRoundUpPtr_toNat]
    exact Nat.dvd_mul_left _ _
  refine ⟨?_, fun e he => absurd he List.not_mem_nil⟩
  rw [hmm]
  exact ⟨rfl, Nat.le_refl _, hle, haligned, fun c hc =>
    absurd hc List.not_mem_nil, Partition.nil _, rfl⟩

lemma mmInit_memory (h : mmInit memory size = .ok mm) (hmemory : memory.toNat + 15 < 2 ^ 64)
    (hsize : size ≠ 0) :
    memory.toNat ≤ mm.memory.toNat ∧ mm.memEnd.toNat = memory.toNat + size.toNat := by
  have hround := mmRoundUpPtr_toNat memory
  have hlt := size.toNat_lt
  rw [mmInit] at h
  generalize mmRoundUpPtr memory = m at h hround
  rw [if_pos hsize] at h
  split at h
  · cases h
  rename_i hle
  cases h
  have hend : (m + (size - (m - memory))).toNat =
      (m.toNat + (size.toNat + 2 ^ 64 - (m.toNat - memory.toNat))) % 2 ^ 64 := by
    have hsub : (m - memory).toNat = m.toNat - memory.toNat := by
      rw [UInt64.toNat_sub_of_le]
      exact UInt64.le_iff_toNat_le.2 (by omega)
    rw [UInt64.toNat_add, UInt64.toNat_sub, hsub]
    omega
  rw [UInt64.lt_iff_toNat_lt, hend] at hle
  dsimp only
  omega

/-- After every sequence of allocations, frees and preallocations, the chunks in use are disjoint,
aligned, large enough and inside of the memory, and partition it up to the break with those on the
free lists. -/
theorem mm_partition {memory size : UInt64} {mm : Mm} (hinit : mmInit memory size = .ok mm)
    {ops : List MmOp} (hops : ∀ op ∈ ops, op.InRange) :
    (memory.toNat + 15 < 2 ^ 64 → size ≠ 0 →
      memory.toNat ≤ mm.memory.toNat ∧ mm.memEnd.toNat = memory.toNat + size.toNat) ∧
    Always MmSys.exec (MmSys.Sound mm.memory mm.memEnd) ⟨mm, []⟩ ops :=
  ⟨mmInit_memory hinit, (Each.of_forall hops).always (fun _ h => h.sound)
    (fun _ _ h hop => h.exec hop)
    (mmInit_inv hinit)⟩

def smallMm : Mm := ⟨0x1010, 0x1048, 0x1010, []⟩

theorem mm_partition_small :
    mmInit 0x1008 64 = .ok smallMm ∧
    (([.alloc ⟨true, .ok ()⟩ 20, .alloc ⟨true, .ok ()⟩ 3, .free 0x1010 20,
      .alloc ⟨true, .ok ()⟩ 32].foldlM
        MmSys.exec ⟨smallMm, []⟩).map fun s => (s.live, s.mm.brk)) =
      some ([(0x1010, 32), (0x1030, 3)], 0x1040) ∧
    Always MmSys.exec (MmSys.Sound 0x1010 0x1048) ⟨smallMm, []⟩
      [.alloc ⟨true, .ok ()⟩ 20, .alloc ⟨true, .ok ()⟩ 3, .free 0x1010 20,
        .alloc ⟨true, .ok ()⟩ 32] := by
  have hinit : mmInit 0x1008 64 = .ok smallMm := rfl
  refine ⟨hinit, by decide +kernel, (mm_partition hinit ?_).2⟩
  simp only [List.forall_mem_cons, MmOp.InRange, List.not_mem_nil,
    false_implies, implies_true, and_true]
  decide

end Ntrdma
