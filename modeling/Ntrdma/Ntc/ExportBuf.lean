import Ntrdma.Ntc.Mm
import Ntrdma.Ntc.Window

/-!
# Exported buffers and their memory

Model of where the memory of an exported buffer comes from and where it goes
(`_ntc_export_buf_alloc`, `ntc_export_buf_free`). In the flat configuration, in which the memory
window starts at its dead zone, it is the kernel's and mapped for the device; otherwise it is a
chunk of the information window.

The size of a buffer has 64 bits and the allocator of the window takes an `int`
(`exportBuf_fits_iff`). The configuration is looked at again when a buffer is freed, and the
negotiation of the link can change it in between (`exportBufs_return_iff`).
-/

namespace Ntrdma
open Lib

/-- The configuration is flat (C `is_flat` in `_ntc_export_buf_alloc` and `ntc_export_buf_free`). -/
def OwnFlat (own : Fin 2 → OwnWindow) : Prop := (own dramMwIdx).base = (own dramMwIdx).deadZoneSize

instance (own : Fin 2 → OwnWindow) : Decidable (OwnFlat own) :=
  inferInstanceAs (Decidable ((own dramMwIdx).base = (own dramMwIdx).deadZoneSize))

/-! ## The size of a buffer -/

/-- C `_ntc_export_buf_alloc`. The size is passed on as an `int`, which keeps its lowest 32 bits. -/
def exportBufAlloc (own : Fin 2 → OwnWindow) (basePtr : UInt64) (env : FixedEnv)
    (dmaMapSingle : Except Errno UInt64) (mm : Mm) (size : UInt64) :
    Option (Except Errno ExportedBuf × Mm) :=
  if OwnFlat own then
    -- the allocator of the window is not asked
    some (ntcExportBufAlloc own ⟨.error .enomem, dmaMapSingle⟩ size, mm)
  else
    match mmAlloc env mm size.toUInt32 with
    | none => none
    | some (ptr, mm) => some (ntcExportBufAlloc own ⟨ptr.map (· - basePtr), dmaMapSingle⟩ size, mm)

def ExportFits (own : Fin 2 → OwnWindow) (basePtr : UInt64) (env : FixedEnv)
    (dmaMapSingle : Except Errno UInt64) (mm : Mm) (size : UInt64) : Prop :=
  ∃ rc mm', exportBufAlloc own basePtr env dmaMapSingle mm size = some (rc, mm') ∧
    ∀ buf, rc = .ok buf → ∃ k, mmChunkSize size.toUInt32 = some k ∧ buf.size.toNat ≤ k.toNat

def MmSys.Reached (s : MmSys) : Prop :=
  ∃ memory size mm ops, mmInit memory size = .ok mm ∧ List.foldlM exec ⟨mm, []⟩ ops = some s

/-- The lowest 32 bits of a size do not wrap around when they are aligned, and they are all of it or
not served. -/
def ExportSize (size : UInt64) : Prop :=
  size.toNat % 2 ^ 32 ≤ 2 ^ 32 - 16 ∧
    (size.toNat < 2 ^ 32 ∨ size.toNat % 2 ^ 32 = 0 ∨ 2 ^ 30 - 16 < size.toNat % 2 ^ 32)

lemma MmSys.Reached.zero {s : MmSys} (h : s.Reached) : (s.mm.fixed.find 0).isSome = false := by
  obtain ⟨memory, size, mm, ops, hinit, hrun⟩ := h
  refine (Reaches.of_foldlM hrun).invariant (I := fun s => (s.mm.fixed.find 0).isSome = false) ?_ ?_
  · exact (mmInit_inv hinit).mm.zero
  · intro s op t hs ht
    exact (MmSys.exec_zero ht).trans hs

section
variable {own : Fin 2 → OwnWindow} {size : UInt64} {mm : Mm} (basePtr : UInt64) (env : FixedEnv)
  (dmaMapSingle : Except Errno UInt64)

lemma exportBufAlloc_window (hown : ¬ OwnFlat own) {rc : Except Errno UInt64} {mm' : Mm}
    (halloc : mmAlloc env mm size.toUInt32 = some (rc, mm')) :
    ∃ res, exportBufAlloc own basePtr env dmaMapSingle mm size = some (res, mm') ∧
      ((∃ e, rc = .error e ∧ res = .error e) ∨
        ∃ ptr buf, rc = .ok ptr ∧ res = .ok buf ∧ buf.size = size) := by
  have hbase : (own dramMwIdx).base ≠ (own dramMwIdx).deadZoneSize := hown
  rw [exportBufAlloc, if_neg hown, halloc]
  refine ⟨_, rfl, ?_⟩
  rw [ntcExportBufAlloc, if_neg hbase]
  cases rc with
  | error e => exact .inl ⟨e, rfl, rfl⟩
  | ok ptr => exact .inr ⟨ptr, _, rfl, rfl, rfl⟩

lemma ExportFits.of_refused (hown : ¬ OwnFlat own) (hzero : (mm.fixed.find 0).isSome = false)
    (hchunk : mmChunkSize size.toUInt32 = some 0) :
    ExportFits own basePtr env dmaMapSingle mm size := by
  obtain ⟨res, halloc, hres⟩ :=
    exportBufAlloc_window basePtr env dmaMapSingle hown (mmAlloc_refused hzero hchunk env)
  obtain ⟨e, -, rfl⟩ | ⟨ptr, buf, hrc, -⟩ := hres
  · exact ⟨_, _, halloc, fun buf hbuf => nomatch hbuf⟩
  · cases hrc

lemma ExportFits.of_size (hown : ¬ OwnFlat own) (hzero : (mm.fixed.find 0).isSome = false)
    (hsize : ExportSize size) : ExportFits own basePtr env dmaMapSingle mm size := by
  obtain ⟨hwrap, hlow⟩ := hsize
  have hnat : size.toUInt32.toNat = size.toNat % 2 ^ 32 := UInt64.toNat_toUInt32 size
  have hchunk := mmChunkSize_chunk size.toUInt32
  generalize hres : mmChunkSize size.toUInt32 = res at hchunk
  cases hchunk with
  | zero => exact .of_refused basePtr env dmaMapSingle hown hzero hres
  | wraps => omega
  | large => exact .of_refused basePtr env dmaMapSingle hown hzero hres
  | @chunk k =>
    obtain ⟨rc, mm', halloc⟩ := mmAlloc_isSome mm hres env
    obtain ⟨res, halloc', hres'⟩ := exportBufAlloc_window basePtr env dmaMapSingle hown halloc
    refine ⟨_, _, halloc', fun buf hbuf => ⟨k, hres, ?_⟩⟩
    obtain ⟨e, -, rfl⟩ | ⟨ptr, buf', -, rfl, hsize⟩ := hres'
    · cases hbuf
    · cases hbuf
      rw [hsize]
      omega

end

def wideMm : Mm := ⟨0x1000, 0x80001000, 0x1000, []⟩

lemma wideMm_reached : (⟨wideMm, []⟩ : MmSys).Reached := ⟨0x1000, 0x80000000, wideMm, [], rfl, rfl⟩

lemma ExportFits.size {own : Fin 2 → OwnWindow} {basePtr size : UInt64} (hown : ¬ OwnFlat own)
    (h : ExportFits own basePtr ⟨true, .ok ()⟩ (.error .eio) wideMm size) : ExportSize size := by
  have hnat : size.toUInt32.toNat = size.toNat % 2 ^ 32 := UInt64.toNat_toUInt32 size
  obtain ⟨rc, mm', halloc, hroom⟩ := h
  have hchunk := mmChunkSize_chunk size.toUInt32
  generalize hres : mmChunkSize size.toUInt32 = res at hchunk
  cases hchunk with
  | zero hzero =>
    rw [hzero, UInt32.toNat_zero] at hnat
    exact ⟨by omega, by omega⟩
  | wraps =>
    -- the call has no result at all
    rw [exportBufAlloc, if_neg hown, mmAlloc, hres] at halloc
    cases halloc
  | large => exact ⟨by omega, by omega⟩
  | @chunk k _ _ _ hdvd hk hkmax =>
    -- the call succeeds here, so that the chunk has to be as large as the size
    have hfree : wideMm.brk.toNat + k.toNat ≤ wideMm.memEnd.toNat := by
      rw [show wideMm.brk.toNat = 0x1000 from rfl, show wideMm.memEnd.toNat = 0x80001000 from rfl]
      omega
    obtain ⟨mm'', hmm⟩ := mmAlloc_room hres ⟨hdvd, hk, hkmax⟩ rfl hfree
    obtain ⟨res, halloc', hres'⟩ := exportBufAlloc_window basePtr
      ⟨true, .ok ()⟩ (.error .eio) hown hmm
    rw [halloc'] at halloc
    cases halloc
    obtain ⟨e, hrc, -⟩ | ⟨ptr, buf, -, rfl, hsize⟩ := hres'
    · cases hrc
    · -- a chunk has at most 2 ^ 30 bytes
      obtain ⟨k', hk', hle'⟩ := hroom buf rfl
      rw [hres] at hk'
      cases hk'
      rw [hsize] at hle'
      exact ⟨by omega, by omega⟩

/-- Outside of the flat configuration, an allocation fails or has room for the buffer, and the
leading zeros of zero are not asked for, exactly for the sizes that are described. -/
theorem exportBuf_fits_iff {own : Fin 2 → OwnWindow} (hown : ¬ OwnFlat own)
    (basePtr size : UInt64) :
    (∀ s : MmSys, s.Reached → ∀ env dmaMapSingle,
      ExportFits own basePtr env dmaMapSingle s.mm size) ↔
      ExportSize size :=
  ⟨fun h => (h _ wideMm_reached _ _).size hown,
    fun hsize _ hs env dmaMapSingle => .of_size basePtr env dmaMapSingle hown hs.zero hsize⟩

def splitOwn : Fin 2 → OwnWindow := fun i =>
  if i = infoMwIdx then ⟨⟨0x40000000, 0x80001000⟩, 0, 0x80001000⟩ else
    ⟨⟨0x100000, 0x1000000⟩, 0, 0x1000000⟩

theorem exportBuf_fits_page : ¬ OwnFlat splitOwn ∧ ExportSize 4096 ∧
    ∀ s : MmSys, s.Reached → ∀ env dmaMapSingle,
      ExportFits splitOwn 0x1000 env dmaMapSingle s.mm 4096 := by
  have hown : ¬ OwnFlat splitOwn := by decide
  have hsize : ExportSize 4096 := ⟨by decide, .inl (by decide)⟩
  exact ⟨hown, hsize, (exportBuf_fits_iff hown 0x1000 4096).2 hsize⟩

/-- A buffer of four gigabytes and 16 bytes has a chunk of 16 bytes; for the greatest length of 32
bits the leading zeros of zero are asked for. -/
theorem exportBuf_too_small :
    ¬ OwnFlat splitOwn ∧ (⟨wideMm, []⟩ : MmSys).Reached ∧
    ((exportBufAlloc splitOwn 0x1000 ⟨true, .ok ()⟩ (.error .eio) wideMm
      0x100000010).map fun (rc, mm) =>
      (rc.toOption.map (·.size), mm.brk)) = some (some 0x100000010, 0x1010) ∧
    ¬ ExportFits splitOwn 0x1000 ⟨true, .ok ()⟩ (.error .eio) wideMm 0x100000010 ∧
    exportBufAlloc splitOwn 0x1000 ⟨true, .ok ()⟩ (.error .eio) wideMm 0xFFFFFFFF = none ∧
    ¬ ExportFits splitOwn 0x1000 ⟨true, .ok ()⟩ (.error .eio) wideMm 0xFFFFFFFF := by
  have hown : ¬ OwnFlat splitOwn := by decide
  have hlong : ¬ ExportSize 0x100000010 := by
    unfold ExportSize
    decide
  have hwrap : ¬ ExportSize 0xFFFFFFFF := by
    unfold ExportSize
    decide
  exact ⟨hown, wideMm_reached, by decide +kernel, fun h => hlong (h.size hown), by rfl,
    fun h => hwrap (h.size hown)⟩

/-! ## Where the memory goes -/

/-- Where memory comes from or goes to: the allocator of a window, or the kernel (C `kmalloc_node`,
`kfree`). -/
inductive MemSource where
  | window (i : Fin 2)
  | kmalloc
  deriving DecidableEq, Repr

/-- A buffer in use, where its memory is from, and the address at which it was mapped. -/
structure LiveBuf where
  buf : ExportedBuf
  source : MemSource
  mapped : Option UInt64

def liveBufAlloc (own : Fin 2 → OwnWindow) (mem : ExportMem) (size : UInt64) :
    Except Errno LiveBuf :=
  (ntcExportBufAlloc own mem size).map fun buf =>
    if OwnFlat own then ⟨buf, .kmalloc, mem.dmaMapSingle.toOption⟩ else
      ⟨buf, .window infoMwIdx, none⟩

structure BufFree where
  unmapped : Option UInt64
  freedTo : MemSource
  deriving DecidableEq, Repr

/-- C `ntc_export_buf_free` of a buffer with memory. -/
def ntcExportBufFree (own : Fin 2 → OwnWindow) (buf : ExportedBuf) : BufFree :=
  { unmapped := if buf.dmaAddr ≠ 0 ∧ OwnFlat own then some buf.dmaAddr else none
    freedTo := if ¬ OwnFlat own then .window buf.mwIdx else .kmalloc }

/-- The windows of a host with the buffers in use, and the frees so far. -/
structure ExportSys where
  mws : Fin 2 → MwState
  bufs : List LiveBuf
  frees : List (LiveBuf × BufFree)

namespace ExportSys

def own (s : ExportSys) (i : Fin 2) : OwnWindow := (s.mws i).own

end ExportSys

/-- What happens: a buffer is allocated, a window is set up again, a buffer is freed. -/
inductive ExportOp where
  | alloc (mem : ExportMem) (size : UInt64)
  | setWindow (i : Fin 2) (hw : MwHw)
  | free (j : Nat)

namespace ExportSys

/-- The system after an operation. A buffer that was freed is cleared, and freeing it again does
nothing. -/
def exec (s : ExportSys) : ExportOp → Option ExportSys
  | .alloc mem size =>
    match liveBufAlloc s.own mem size with
    | .error _ => some s
    | .ok b => some { s with bufs := b :: s.bufs }
  | .setWindow i hw =>
    some { s with mws := Function.update s.mws i (setMemoryWindowsOnDevice hw (s.mws i)).2 }
  | .free j =>
    match s.bufs[j]? with
    | none => some s
    | some b =>
      some
        { s with bufs := s.bufs.eraseIdx j, frees := (b, ntcExportBufFree s.own b.buf) :: s.frees }

/-- The memory of each buffer went where it was from, and what was mapped was unmapped. -/
def Returned (s : ExportSys) : Prop :=
  ∀ f ∈ s.frees, f.2.freedTo = f.1.source ∧ f.2.unmapped = f.1.mapped

/-- A buffer is freed in the configuration of its allocation, and its address is not zero and fits
the field. -/
def FreeFine (s : ExportSys) : ExportOp → Prop
  | .free j => ∀ b, s.bufs[j]? = some b →
    (OwnFlat s.own ↔ b.source = .kmalloc) ∧ ∀ a, b.mapped = some a → a ≠ 0 ∧ a < 0x8000000000000000
  | _ => True

end ExportSys

inductive LiveBuf.Made : LiveBuf → Prop
  | window {buf : ExportedBuf} : buf.mwIdx = infoMwIdx → Made ⟨buf, .window infoMwIdx, none⟩
  | kmalloc {buf : ExportedBuf} {a : UInt64} : buf.dmaAddr = a &&& 0x7FFFFFFFFFFFFFFF →
    Made ⟨buf, .kmalloc, some a⟩

lemma liveBufAlloc_made {own : Fin 2 → OwnWindow} {mem : ExportMem} {size : UInt64} {b : LiveBuf}
    (h : liveBufAlloc own mem size = .ok b) : b.Made := by
  rw [liveBufAlloc, ntcExportBufAlloc] at h
  by_cases hown : OwnFlat own
  · have hbase : (own dramMwIdx).base = (own dramMwIdx).deadZoneSize := hown
    rw [if_pos hbase] at h
    simp only [if_pos hown] at h
    cases hmap : mem.dmaMapSingle with
    | error =>
      rw [hmap] at h
      cases h
    | ok =>
      rw [hmap] at h
      cases h
      exact .kmalloc rfl
  · have hbase : (own dramMwIdx).base ≠ (own dramMwIdx).deadZoneSize := hown
    rw [if_neg hbase] at h
    simp only [if_neg hown] at h
    cases halloc : mem.mmAlloc with
    | error =>
      rw [halloc] at h
      cases h
    | ok =>
      rw [halloc] at h
      cases h
      exact .window rfl

lemma and_dmaAddr_mask (a : UInt64) : a &&& 0x7FFFFFFFFFFFFFFF = a ↔ a < 0x8000000000000000 := by
  have hmask : (0x7FFFFFFFFFFFFFFF : UInt64).toNat = 2 ^ 63 - 1 := by decide
  have hbound : (0x8000000000000000 : UInt64).toNat = 2 ^ 63 := by decide
  rw [← UInt64.toNat_inj, UInt64.toNat_and, hmask,
    Nat.and_two_pow_sub_one_eq_mod, UInt64.lt_iff_toNat_lt,
    hbound]
  exact Nat.mod_eq_iff_lt (by decide)

lemma ntcExportBufFree_iff {own : Fin 2 → OwnWindow} {b : LiveBuf} (hb : b.Made) :
    (ntcExportBufFree own b.buf).freedTo = b.source ∧
      (ntcExportBufFree own b.buf).unmapped = b.mapped ↔
      (OwnFlat own ↔ b.source = .kmalloc) ∧ ∀ a, b.mapped = some a → a ≠ 0 ∧
        a < 0x8000000000000000 := by
  -- the memory is freed by the configuration of now, whatever that of the allocation was
  by_cases hown : OwnFlat own
  · cases hb with
    | window => simp [ntcExportBufFree, hown]
    | @kmalloc _ a haddr =>
      have hfield := and_dmaAddr_mask a
      simp only [ntcExportBufFree, hown, not_true_eq_false, if_false, and_true, true_and, haddr,
        Option.some.injEq, forall_eq']
      constructor
      · intro hunmapped
        split at hunmapped
        next hne =>
          have heq := Option.some.inj hunmapped
          exact ⟨heq ▸ hne, hfield.1 heq⟩
        · cases hunmapped
      · rintro ⟨hne, hlt⟩
        rw [hfield.2 hlt, if_pos hne]
  · cases hb with
    | window hidx => simp [ntcExportBufFree, hown, hidx]
    | kmalloc => simp [ntcExportBufFree, hown]

namespace ExportSys

structure Inv (s : ExportSys) : Prop where
  returned : s.Returned
  made : ∀ b ∈ s.bufs, b.Made

lemma Inv.exec {s : ExportSys} {op : ExportOp} (h : s.Inv) (hop : s.FreeFine op) :
    ∃ t, s.exec op = some t ∧ t.Inv := by
  cases op with
  | alloc mem size =>
    rw [ExportSys.exec]
    cases halloc : liveBufAlloc s.own mem size with
    | error => exact ⟨s, rfl, h⟩
    | ok => exact ⟨_, rfl, h.returned, List.forall_mem_cons.2 ⟨liveBufAlloc_made halloc, h.made⟩⟩
  | setWindow => exact ⟨_, rfl, h.returned, h.made⟩
  | free j =>
    rw [ExportSys.exec]
    cases hj : s.bufs[j]? with
    | none => exact ⟨s, rfl, h⟩
    | some b =>
      have hmade := h.made b (List.mem_of_getElem? hj)
      refine ⟨_, rfl, List.forall_mem_cons.2 ⟨?_, h.returned⟩, fun b' hb' => ?_⟩
      · exact (ntcExportBufFree_iff hmade).2 (hop b hj)
      · exact h.made b' (List.mem_of_mem_eraseIdx hb')

lemma Inv.not_returned {s t : ExportSys} {op : ExportOp} (h : s.Inv) (hop : ¬ s.FreeFine op)
    (hexec : s.exec op = some t) : ¬ t.Returned := by
  cases op with
  | alloc => exact absurd trivial hop
  | setWindow => exact absurd trivial hop
  | free =>
    rw [ExportSys.exec] at hexec
    intro hret
    refine hop fun b hj => ?_
    rw [hj] at hexec
    cases hexec
    have hmade := h.made b (List.mem_of_getElem? hj)
    exact (ntcExportBufFree_iff hmade).1 (hret _ List.mem_cons_self)

/-- Each buffer goes back where it came from and is unmapped if it was mapped, exactly if each free
finds the configuration of the allocation and an address that the buffer can hold. -/
theorem exportBufs_return_iff (mws : Fin 2 → MwState) (ops : List ExportOp) :
    Always exec Returned ⟨mws, [], []⟩ ops ↔ Each exec FreeFine ⟨mws, [], []⟩ ops :=
  always_iff_each (I := Inv) (fun _ h => h.returned) (fun _ _ h hop => h.exec hop)
    (fun _ _ _ h hop hexec => h.not_returned hop hexec)
    ⟨fun _ hf => absurd hf List.not_mem_nil, fun _ hb => absurd hb List.not_mem_nil⟩ ops

end ExportSys

def splitMws (i : Fin 2) : MwState :=
  ⟨⟨(splitOwn i).base, (splitOwn i).size, 0, 0, 0, 0⟩, splitOwn i, none⟩

def coarseHw : MwHw := ⟨.ok (0x200000, 0x1000, 0x100000000), fun _ => .ok ()⟩

/-- A buffer of the information window is given to the kernel: the dead zone is as large as its
base. -/
theorem exportBuf_freed_elsewhere :
    (([.alloc ⟨.ok 0x40, .error .eio⟩ 64, .setWindow dramMwIdx coarseHw,
      .free 0].foldlM ExportSys.exec
        ⟨splitMws, [], []⟩).map fun s => s.frees.map fun f => (f.1.source, f.1.mapped, f.2)) =
      some [(.window infoMwIdx, none, ⟨some 0x40000040, .kmalloc⟩)] ∧
    ¬ Always ExportSys.exec ExportSys.Returned ⟨splitMws, [], []⟩
      [.alloc ⟨.ok 0x40, .error .eio⟩ 64, .setWindow dramMwIdx coarseHw, .free 0] := by
  have hrun : (([.alloc ⟨.ok 0x40, .error .eio⟩ 64, .setWindow dramMwIdx coarseHw, .free 0].foldlM
      ExportSys.exec ⟨splitMws, [], []⟩).map fun s =>
        s.frees.map fun f => (f.1.source, f.1.mapped, f.2)) =
      some [(.window infoMwIdx, none, ⟨some 0x40000040, .kmalloc⟩)] := by decide +kernel
  refine ⟨hrun, fun halways => ?_⟩
  obtain ⟨t, ht, hret⟩ := halways.foldlM
  rw [ht] at hrun
  have hfrees : (t.frees.map fun f => (f.1.source, f.1.mapped, f.2)) =
    [(.window infoMwIdx, none, ⟨some 0x40000040, .kmalloc⟩)] := Option.some.inj hrun
  obtain ⟨f, hf, hacts⟩ := List.mem_map.1 (hfrees ▸ List.mem_singleton.2 rfl)
  have hunmapped := (hret f hf).2
  simp only [Prod.mk.injEq] at hacts
  rw [hacts.2.1, hacts.2.2] at hunmapped
  cases hunmapped

end Ntrdma
