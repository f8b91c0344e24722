import Ntrdma.Qp.Ioctl

/-!
# What the send ioctl reads of the shared page

`ntrdma_qp_process_send_ioctl_locked` copies the header and then the entries of the page one after
another, each with the size that the entry before it gives. A size is compared with the size of a
slot only, and the sum of the sizes with nothing.

A read is an offset and a number of bytes. `processSendIoctlLocked_congr` says that the list of
reads is complete: the call does the same with any other page that has the same bytes there.
-/

namespace Ntrdma
open Lib Ntrdma.Ring

def pageSize : Nat := 4096

def sizeofSndHdr : Nat := 8

def sizeofUlpHandle : Nat := 8

/-- The read of one round: the entry, or the handle that is printed if the entry is too large. -/
def IoctlState.read (s : IoctlState) : Nat × Nat :=
  if s.qp.sendWqeMaxSize < s.wqeSize.toNat then (s.uptr, sizeofUlpHandle)
    else (s.uptr, s.wqeSize.toNat)

def sendIoctlReads (dev : Dev) (page : Nat → UInt8) : Nat → IoctlState → List (Nat × Nat)
  | 0, _ => []
  | n + 1, s =>
    s.read ::
      match sendIoctlStep dev page s with
      | (false, _) => []
      | (true, s) => sendIoctlReads dev page n s

def processSendIoctlReads (dev : Dev) (qp : Qp) (chan : Chan) (page : Nat → UInt8) :
    List (Nat × Nat) :=
  let wqeCounter := pageU32 page 0
  (0, sizeofSndHdr) ::
    if wqeCounter = 0 then []
    else
      match qp.sendPostGet with
      | (false, _) => []
      | (true, r) =>
        sendIoctlReads dev page wqeCounter.toNat
          { rc := .ok (), i := 0, uptr := 8, wqeSize := pageU32 page 4, pos := r.pos, qp, chan
            hadImmediateWork := false, hasDeferredWork := false, stores := [] }

/-! ## The reads are complete -/

def SameAt (page page' : Nat → UInt8) (read : Nat × Nat) : Prop :=
  ∀ k < read.2, page (read.1 + k) = page' (read.1 + k)

variable {page page' : Nat → UInt8}

lemma SameAt.pageBytes {off n m k : Nat} (h : SameAt page page' (off, n)) (hk : k + m ≤ n) :
    pageBytes page (off + k) m = pageBytes page' (off + k) m := by
  refine List.map_congr_left fun j hj => ?_
  rw [List.mem_range] at hj
  rw [Nat.add_assoc]
  exact h (k + j) (by omega)

variable {s : IoctlState}

lemma sendIoctlStep_congr (dev : Dev) (h : SameAt page page' s.read) :
    sendIoctlStep dev page s = sendIoctlStep dev page' s := by
  by_cases hsize : s.qp.sendWqeMaxSize < s.wqeSize.toNat
  · rw [sendIoctlStep, sendIoctlStep, if_pos hsize, if_pos hsize]
  · rw [IoctlState.read, if_neg hsize] at h
    have hbytes : Ntrdma.pageBytes page s.uptr s.wqeSize.toNat =
        Ntrdma.pageBytes page' s.uptr s.wqeSize.toNat := h.pageBytes (k := 0) (Nat.zero_add _).le
    simp only [sendIoctlStep, hbytes]

lemma sendIoctlLoop_congr (dev : Dev) {n : Nat}
    (h : ∀ read ∈ sendIoctlReads dev page n s, SameAt page page' read) :
    sendIoctlLoop dev page n s = sendIoctlLoop dev page' n s := by
  induction n generalizing s with
  | zero => rfl
  | succ _ ih =>
    rw [sendIoctlReads, List.forall_mem_cons] at h
    obtain ⟨hread, hrest⟩ := h
    rw [sendIoctlLoop, sendIoctlLoop, ← sendIoctlStep_congr dev hread]
    rcases hstep : sendIoctlStep dev page s with ⟨_ | _, s'⟩
    · rfl
    · rw [hstep] at hrest
      exact ih hrest

variable {dev : Dev} {chan : Chan}

/-- The ioctl depends on the page through its reads only. -/
theorem processSendIoctlLocked_congr {qp : Qp}
    (h : ∀ read ∈ processSendIoctlReads dev qp chan page, SameAt page page' read) :
    processSendIoctlLocked dev qp chan page = processSendIoctlLocked dev qp chan page' := by
  rw [processSendIoctlReads, List.forall_mem_cons] at h
  obtain ⟨hhdr, hrest⟩ := h
  have hcounter : pageU32 page 0 = pageU32 page' 0 :=
    congrArg (UInt32.ofNat ∘ leNat) (hhdr.pageBytes (m := 4) (k := 0) (by decide))
  have hfirst : pageU32 page 4 = pageU32 page' 4 :=
    congrArg (UInt32.ofNat ∘ leNat) (hhdr.pageBytes (m := 4) (k := 4) (by decide))
  simp only [processSendIoctlLocked, ← hcounter, ← hfirst]
  split
  · rfl
  next hne =>
    rw [if_neg hne] at hrest
    split
    · rfl
    next r hget =>
      rw [hget] at hrest
      rw [sendIoctlLoop_congr dev hrest]

theorem processSendIoctlLocked_congr_one :
    let page : Nat → UInt8 := fun k => if k = 0 then 1 else if k = 4 then 48 else 0
    processSendIoctlLocked smallDev (.fresh 4) freshChan page =
      processSendIoctlLocked smallDev (.fresh 4) freshChan fun k =>
        if k < 56 then page k else 7 := by
  intro page
  have hreads : processSendIoctlReads smallDev (.fresh 4) freshChan page = [(0, 8), (8, 48)] := by
    decide +kernel
  refine processSendIoctlLocked_congr fun read hread k hk => ?_
  have hin : read.1 + k < 56 := by
    rw [hreads] at hread
    grind
  exact (if_pos hin).symm

/-! ## The reads follow one another -/

def consecutive (off : Nat) : List Nat → List (Nat × Nat)
  | [] => []
  | n :: sizes => (off, n) :: consecutive (off + n) sizes

lemma consecutive_le_iff {off bound : Nat} {sizes : List Nat} (hoff : off ≤ bound) :
    (∀ piece ∈ consecutive off sizes, piece.1 + piece.2 ≤ bound) ↔ off + sizes.sum ≤ bound := by
  induction sizes generalizing off with
  | nil => exact iff_of_true (fun _ h => absurd h List.not_mem_nil) hoff
  | cons n _ ih =>
    rw [consecutive, List.forall_mem_cons, List.sum_cons, ← Nat.add_assoc]
    constructor
    · rintro ⟨hn, hrest⟩
      exact (ih hn).1 hrest
    · intro hsum
      have hn : off + n ≤ bound := by omega
      exact ⟨hn, (ih hn).2 hsum⟩

/-- The sizes of the entries that are read: up to the first that is too large, of which only the
handle counts, invalid, or a write that fails. -/
def pageSizes (dev : Dev) (maxSize : Nat) (page : Nat → UInt8) :
    Nat → Nat → UInt32 → Chan → List Nat
  | 0, _, _, _ => []
  | n + 1, off, size, chan =>
    if maxSize < size.toNat then [sizeofUlpHandle]
    else
      size.toNat ::
        match validatePostSendWqe (pageWqe page off size) size with
        | (.error _, _) => []
        | (.ok _, wqe) =>
          let rest := pageSizes dev maxSize page n (off + size.toNat)
            (pageWqe page off size).recvKey
          if sendIsNonSignaledWrite wqe then
            match qpRdmaWrite dev chan wqe with
            | (.ok _, _, chan) => rest chan
            | (.error e, _, chan) => if e = .eagain then rest chan else []
          else rest chan

lemma sendIoctlReads_eq (dev : Dev) (page : Nat → UInt8) (n : Nat) (s : IoctlState) :
    sendIoctlReads dev page n s =
      consecutive s.uptr (pageSizes dev s.qp.sendWqeMaxSize page n s.uptr s.wqeSize s.chan) := by
  induction n generalizing s with
  | zero => rfl
  | succ _ ih =>
    have hstep := sendIoctlStep_spec dev page s
    rw [sendIoctlReads, pageSizes]
    generalize sendIoctlStep dev page s = res at hstep
    cases hstep with
    | large hsize =>
      rw [IoctlState.read, if_pos hsize, if_pos hsize]
      rfl
    | invalid hsize hvalid =>
      rw [IoctlState.read, if_neg (Nat.not_lt.2 hsize), if_neg (Nat.not_lt.2 hsize)]
      generalize validatePostSendWqe (pageWqe page s.uptr s.wqeSize) s.wqeSize = v at hvalid
      obtain ⟨_ | _, w⟩ := v
      · rfl
      · exact absurd rfl hvalid
    | failed hsize hvalid hnow hwrite he =>
      rw [IoctlState.read, if_neg (Nat.not_lt.2 hsize), if_neg (Nat.not_lt.2 hsize), hvalid]
      simp only [hnow, hwrite, if_neg he]
      rfl
    | now hsize hvalid hnow hwrite hrc =>
      rw [IoctlState.read, if_neg (Nat.not_lt.2 hsize), if_neg (Nat.not_lt.2 hsize), hvalid]
      simp only [hnow, hwrite]
      obtain rfl | rfl := hrc <;> exact congrArg _ (ih _)
    | later hsize hvalid hlater =>
      rw [IoctlState.read, if_neg (Nat.not_lt.2 hsize), if_neg (Nat.not_lt.2 hsize), hvalid]
      simp only [hlater]
      exact congrArg _ (ih _)

lemma processSendIoctlReads_eq (dev : Dev) (qp : Qp) (chan : Chan) (page : Nat → UInt8) :
    processSendIoctlReads dev qp chan page = (0, sizeofSndHdr) ::
      if qp.sendPostGet.1 = true then
        consecutive 8 (pageSizes dev qp.sendWqeMaxSize page
          (pageU32 page 0).toNat 8 (pageU32 page 4) chan)
      else [] := by
  rw [processSendIoctlReads]
  congr 1
  split
  next hzero =>
    rw [hzero]
    exact (ite_self []).symm
  · split
    next r hget => rw [hget, if_neg Bool.false_ne_true]
    next r hget => rw [hget, if_pos rfl, sendIoctlReads_eq]

def PageHasRoom (dev : Dev) (qp : Qp) (chan : Chan) (page : Nat → UInt8) : Prop :=
  qp.sendPostGet.1 = true →
    sizeofSndHdr + (pageSizes dev qp.sendWqeMaxSize page (pageU32 page 0).toNat 8 (pageU32 page 4)
      chan).sum ≤ pageSize

/-- The reads stay in the page exactly if the header and the entries fit, or no range is opened. -/
theorem ioctl_reads_page_iff (dev : Dev) (qp : Qp) (chan : Chan) (page : Nat → UInt8) :
    (∀ read ∈ processSendIoctlReads dev qp chan page, read.1 + read.2 ≤ pageSize) ↔
      PageHasRoom dev qp chan page := by
  have hhdr : 0 + sizeofSndHdr ≤ pageSize := by decide
  rw [processSendIoctlReads_eq, List.forall_mem_cons, and_iff_right hhdr, PageHasRoom]
  split
  next hroom =>
    rw [forall_prop_of_true hroom]
    exact consecutive_le_iff hhdr
  next hroom => exact iff_of_true (fun _ h => absurd h List.not_mem_nil) fun h => absurd h hroom

def chainedWqe : SendWqe := { emptyWqe with recvKey := 48 }

def chainedPage (wqeCounter : Nat) : Nat → UInt8 :=
  fun k =>
    if k < sizeofSndHdr then (leBytes 4 wqeCounter ++ leBytes 4 48).getD k 0
    else chainedWqe.encodeHdr.getD ((k - sizeofSndHdr) % 48) 0

lemma pageBytes_chainedPage (wqeCounter m : Nat) :
    pageBytes (chainedPage wqeCounter) (8 + 48 * m) 48 = chainedWqe.encodeHdr := by
  refine List.ext_getElem (by simp) fun k hk hk' => ?_
  rw [length_pageBytes] at hk
  have hmod : (8 + 48 * m + k - sizeofSndHdr) % 48 = k := by
    rw [sizeofSndHdr]
    omega
  have hge : ¬ 8 + 48 * m + k < sizeofSndHdr := by
    rw [sizeofSndHdr]
    omega
  simp only [pageBytes, List.getElem_map, List.getElem_range, chainedPage, if_neg hge, hmod]
  exact List.getD_eq_getElem?_getD.trans (by rw [List.getElem?_eq_getElem hk', Option.getD_some])

lemma pageWqe_chainedPage (wqeCounter m : Nat) :
    pageWqe (chainedPage wqeCounter) (8 + 48 * m) 48 = chainedWqe := by
  rw [pageWqe, sizeofSendWqe, show (48 : UInt32).toNat = 48 from rfl, pageBytes_chainedPage]
  decide

lemma pageSizes_chainedPage {maxSize : Nat} (wqeCounter n m : Nat)
    (hmax : sizeofSendWqe ≤ maxSize) :
    pageSizes dev maxSize (chainedPage wqeCounter) n
      (8 + 48 * m) 48 chan = List.replicate n 48 := by
  have hvalid : validatePostSendWqe chainedWqe 48 =
      (.ok (), { emptyWqe with recvKey := 0xFFFFFFFF }) := by
    decide
  induction n generalizing m with
  | zero => rfl
  | succ _ ih =>
    have hrest := ih (m + 1)
    rw [pageSizes, if_neg (show ¬ maxSize < (48 : UInt32).toNat from Nat.not_lt.2 hmax),
      pageWqe_chainedPage, hvalid, List.replicate_succ]
    exact congrArg _ hrest

/-- Empty writes that are all valid, and for which the ring has room: the last one is copied from
behind the page. -/
theorem ioctl_reads_behind_page :
    let qp := Qp.fresh 128
    let reads := processSendIoctlReads smallDev qp freshChan (chainedPage 86)
    (4088, 48) ∈ reads ∧ ¬ ∀ read ∈ reads, read.1 + read.2 ≤ pageSize := by
  intro qp reads
  have hcounter : (pageU32 (chainedPage 86) 0).toNat = 86 := by decide
  have hfirst : pageU32 (chainedPage 86) 4 = 48 := by decide
  have hsizes : pageSizes smallDev qp.sendWqeMaxSize (chainedPage 86) 86 8 48 freshChan =
      List.replicate 86 48 := pageSizes_chainedPage 86 86 0 (by decide)
  have hroom : qp.sendPostGet.1 = true := rfl
  have hreads : reads = (0, 8) :: consecutive 8 (List.replicate 86 48) := by
    have h := processSendIoctlReads_eq smallDev qp freshChan (chainedPage 86)
    rwa [if_pos hroom, hcounter, hfirst, hsizes] at h
  have hmem : (4088, 48) ∈ reads := by
    rw [hreads]
    decide
  exact ⟨hmem, fun h => absurd (h _ hmem) (by decide)⟩

end Ntrdma
