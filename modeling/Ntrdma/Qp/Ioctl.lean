import Ntrdma.Qp.Post

/-!
# The send ioctl

Model of `ntrdma_qp_process_send_ioctl_locked`, which posts the entries user space wrote to a shared
page: a header with their number and the size of the first, and the entries one after another, each
with the size of the next in its `recv_key`. The page is a function from offsets to bytes, since the
walk over it has no bound.

The loop opens one range of the send ring and takes a slot for every entry that is deferred, without
a look at the end of the range.
-/

namespace Ntrdma
open Lib Ntrdma.Ring

def pageBytes (page : Nat → UInt8) (off n : Nat) : List UInt8 :=
    (List.range n).map fun k => page (off + k)

@[simp] lemma length_pageBytes (page : Nat → UInt8) (off n : Nat) :
    (pageBytes page off n).length = n := by
  simp [pageBytes]

def pageU32 (page : Nat → UInt8) (off : Nat) : UInt32 := .ofNat (leNat (pageBytes page off 4))

def SendWqe.encodeHdr (wqe : SendWqe) : List UInt8 :=
  leBytes 8 wqe.ulpHandle.toNat ++ leBytes 2 wqe.opCode.toNat ++ leBytes 2 wqe.opStatus.toNat ++
    leBytes 4 wqe.recvKey.toNat ++ wqe.rdmaSge.encode ++ leBytes 4 wqe.immData.toNat ++
    leBytes 4 wqe.flags.toNat ++ leBytes 4 wqe.count.toNat ++ leBytes 4 0

def SendWqe.decodeHdr (l : List UInt8) : SendWqe where
  ulpHandle := .ofNat (leNat (l.take 8))
  opCode := .ofNat (leNat ((l.drop 8).take 2))
  opStatus := .ofNat (leNat ((l.drop 10).take 2))
  recvKey := .ofNat (leNat ((l.drop 12).take 4))
  rdmaSge := .decode (l.drop 16)
  immData := .ofNat (leNat ((l.drop 32).take 4))
  flags := .ofNat (leNat ((l.drop 36).take 4))
  count := .ofNat (leNat ((l.drop 40).take 4))
  tail := []

def SendWqe.load (slot : SendWqe) (bs : List UInt8) : SendWqe :=
  { SendWqe.decodeHdr (bs.take sizeofSendWqe ++ slot.encodeHdr.drop bs.length) with
    tail := if bs.length < sizeofSendWqe then slot.tail else bs.drop sizeofSendWqe }

def validatePostSendWqe (wqe : SendWqe) (wqeSize : UInt32) : Except Errno Unit × SendWqe :=
  let wqe :=
    { wqe with opStatus := 0, recvKey := 0xFFFFFFFF, rdmaSge := { wqe.rdmaSge with length := 0 } }
  let tailSize := wqeSize.toUInt64 - .ofNat sizeofSendWqe
  if ibSgeReserved wqe.rdmaSge then (.error .einval, wqe)
  else if wrRdmaRead < wqe.opCode then (.error .einval, wqe)
  else if wqe.isInline then
    if wqe.count.toUInt64 ≠ tailSize then (.error .einval, wqe) else (.ok (), wqe)
  else if wqe.count.toUInt64 * .ofNat sizeofIbSge ≠ tailSize then (.error .einval, wqe)
  else if wqe.sndSgList.any ibSgeReserved then (.error .einval, wqe)
  else (.ok (), wqe)

def Qp.sendWqeMaxSize (qp : Qp) : Nat :=
  sizeofSendWqe + max qp.sendWqeInlineCap.toNat (qp.sendWqeSgCap.toNat * sizeofIbSge)

/-- The variables of `ntrdma_qp_process_send_ioctl_locked`, with the stores into the ring. -/
structure IoctlState where
  rc : Except Errno Unit
  i : Nat
  uptr : Nat
  wqeSize : UInt32
  pos : UInt32
  qp : Qp
  chan : Chan
  hadImmediateWork : Bool
  hasDeferredWork : Bool
  stores : List (UInt32 × SendWqe)

def IoctlState.store (s : IoctlState) (wqe : SendWqe) : IoctlState :=
  { s with
    qp := s.qp.setSendWqe s.pos wqe
    uptr := s.uptr + s.wqeSize.toNat
    stores := s.stores ++ [(s.pos, wqe)] }

/-- One round of the inner loop of `ntrdma_qp_process_send_ioctl_locked`; the result says if the
loop goes on. -/
def sendIoctlStep (dev : Dev) (page : Nat → UInt8) (s : IoctlState) : Bool × IoctlState :=
  if s.qp.sendWqeMaxSize < s.wqeSize.toNat then (false, { s with rc := .error .einval })
  else
    let raw := (s.qp.sendWqe s.pos.toNat).load (pageBytes page s.uptr s.wqeSize.toNat)
    match validatePostSendWqe raw s.wqeSize with
    | (.error e, wqe) => (false, { s.store wqe with rc := .error e })
    | (.ok _, wqe) =>
      let s := { s.store wqe with rc := .ok (), wqeSize := raw.recvKey }
      if sendIsNonSignaledWrite wqe then
        match qpRdmaWrite dev s.chan wqe with
        | (.error e, wqe, chan) =>
          let s := { s with rc := .error e, qp := s.qp.setSendWqe s.pos wqe, chan }
          -- an entry that could not be written for lack of room is passed over
          if e = .eagain then (true, { s with i := s.i + 1, hadImmediateWork := true }) else
            (false, s)
        | (.ok _, wqe, chan) =>
          (true, { s with
            i := s.i + 1, qp := s.qp.setSendWqe s.pos wqe, chan, hadImmediateWork := true })
      else (true, { s with i := s.i + 1, pos := s.pos + 1, hasDeferredWork := true })

def sendIoctlLoop (dev : Dev) (page : Nat → UInt8) : Nat → IoctlState → IoctlState
  | 0, s => s
  | n + 1, s =>
    match sendIoctlStep dev page s with
    | (false, s) => s
    | (true, s) => sendIoctlLoop dev page n s

/-- C `ntrdma_qp_process_send_ioctl_locked`. The outer loop has one round: its inner loop ends with
an error or with all entries taken. -/
def processSendIoctlLocked (dev : Dev) (qp : Qp) (chan : Chan) (page : Nat → UInt8) : IoctlState :=
  let wqeCounter := pageU32 page 0
  let start : IoctlState :=
    { rc := .ok (), i := 0, uptr := 8, wqeSize := pageU32 page 4, pos := 0, qp, chan
      hadImmediateWork := false, hasDeferredWork := false, stores := [] }
  if wqeCounter = 0 then start
  else
    match qp.sendPostGet with
    | (false, _) => { start with rc := .error .eagain }
    | (true, r) =>
      let s := sendIoctlLoop dev page wqeCounter.toNat { start with pos := r.pos }
      { s with qp := s.qp.sendPostPut s.pos r.base }

/-! ## One round -/

def pageWqe (page : Nat → UInt8) (off : Nat) (size : UInt32) : SendWqe :=
  { SendWqe.decodeHdr (pageBytes page off sizeofSendWqe) with
    tail := (pageBytes page off size.toNat).drop sizeofSendWqe }

@[simp] lemma SendWqe.length_encodeHdr (wqe : SendWqe) : wqe.encodeHdr.length = 48 := by
  simp [encodeHdr]

lemma take_pageBytes {page : Nat → UInt8} {off m n : Nat} (h : m ≤ n) :
    (pageBytes page off n).take m = pageBytes page off m := by
  rw [pageBytes, ← List.map_take, List.take_range, Nat.min_eq_left h, pageBytes]

lemma load_pageBytes (slot : SendWqe) {page : Nat → UInt8} {off : Nat} {size : UInt32}
    (h : sizeofSendWqe ≤ size.toNat) :
    slot.load (pageBytes page off size.toNat) = pageWqe page off size := by
  have hdrop : slot.encodeHdr.drop size.toNat = [] := by
    rw [List.drop_eq_nil_iff, SendWqe.length_encodeHdr]
    exact h
  rw [SendWqe.load, pageWqe, length_pageBytes, take_pageBytes h, hdrop, List.append_nil,
    if_neg (Nat.not_lt.2 h)]

lemma tailSize_short {size : UInt32} (h : size.toNat < sizeofSendWqe) :
    2 ^ 40 < (size.toUInt64 - .ofNat sizeofSendWqe).toNat := by
  rw [sizeofSendWqe] at h ⊢
  rw [UInt64.toNat_sub, UInt32.toNat_toUInt64, show (UInt64.ofNat 48).toNat = 48 from rfl]
  omega

lemma validatePostSendWqe_short {wqe : SendWqe} {size : UInt32} (h : size.toNat < sizeofSendWqe) :
    (validatePostSendWqe wqe size).1 = .error .einval := by
  have hshort := tailSize_short h
  have hcount := wqe.count.toNat_lt
  have hinline : wqe.count.toUInt64 ≠ size.toUInt64 - .ofNat sizeofSendWqe := by
    rw [ne_eq, ← UInt64.toNat_inj, UInt32.toNat_toUInt64]
    omega
  have hlist : wqe.count.toUInt64 * .ofNat sizeofIbSge ≠ size.toUInt64 - .ofNat sizeofSendWqe := by
    rw [ne_eq, ← UInt64.toNat_inj, UInt64.toNat_mul, UInt32.toNat_toUInt64, sizeofIbSge,
      show (UInt64.ofNat 16).toNat = 16 from rfl]
    omega
  simp only [validatePostSendWqe]
  split
  · rfl
  · split
    · rfl
    · split
      · rfl
      · rfl

inductive IoctlStep (dev : Dev) (page : Nat → UInt8) (s : IoctlState) :
    Bool × IoctlState → Prop where
  /-- The entry does not fit into a slot. -/
  | large (hsize : s.qp.sendWqeMaxSize < s.wqeSize.toNat) :
    IoctlStep dev page s (false, { s with rc := .error .einval })
  /-- The entry is copied and found to be invalid. -/
  | invalid {e wqe} (hsize : s.wqeSize.toNat ≤ s.qp.sendWqeMaxSize)
      (hvalid : (validatePostSendWqe (pageWqe page s.uptr s.wqeSize) s.wqeSize).1 ≠ .ok ()) :
    IoctlStep dev page s (false, { s.store wqe with rc := .error e })
  /-- The entry is a write that fails. -/
  | failed {e wqe wqe' chan} (hsize : s.wqeSize.toNat ≤ s.qp.sendWqeMaxSize)
      (hvalid : validatePostSendWqe (pageWqe page s.uptr s.wqeSize) s.wqeSize = (.ok (), wqe))
      (hnow : sendIsNonSignaledWrite wqe = true)
      (hwrite : qpRdmaWrite dev s.chan wqe = (.error e, wqe', chan)) (he : e ≠ .eagain) :
    IoctlStep dev page s (false, { s.store wqe with
      rc := .error e, wqeSize := (pageWqe page s.uptr s.wqeSize).recvKey
      qp := (s.qp.setSendWqe s.pos wqe).setSendWqe s.pos wqe', chan })
  /-- The entry is a write that is executed, or passed over for lack of room. -/
  | now {rc wqe wqe' chan} (hsize : s.wqeSize.toNat ≤ s.qp.sendWqeMaxSize)
      (hvalid : validatePostSendWqe (pageWqe page s.uptr s.wqeSize) s.wqeSize = (.ok (), wqe))
      (hnow : sendIsNonSignaledWrite wqe = true)
      (hwrite : qpRdmaWrite dev s.chan wqe = (rc, wqe', chan))
      (hrc : rc = .ok () ∨ rc = .error .eagain) :
    IoctlStep dev page s (true, { s.store wqe with
      rc, wqeSize := (pageWqe page s.uptr s.wqeSize).recvKey, i := s.i + 1
      qp := (s.qp.setSendWqe s.pos wqe).setSendWqe s.pos wqe', chan, hadImmediateWork := true })
  /-- The entry is left in the ring. -/
  | later {wqe} (hsize : s.wqeSize.toNat ≤ s.qp.sendWqeMaxSize)
      (hvalid : validatePostSendWqe (pageWqe page s.uptr s.wqeSize) s.wqeSize = (.ok (), wqe))
      (hlater : sendIsNonSignaledWrite wqe = false) :
    IoctlStep dev page s (true, { s.store wqe with
      rc := .ok (), wqeSize := (pageWqe page s.uptr s.wqeSize).recvKey, i := s.i + 1
      pos := s.pos + 1, hasDeferredWork := true })

lemma sendIoctlStep_spec (dev : Dev) (page : Nat → UInt8) (s : IoctlState) :
    IoctlStep dev page s (sendIoctlStep dev page s) := by
  simp only [sendIoctlStep]
  split
  next hsize => exact .large hsize
  next hsize =>
    rw [Nat.not_lt] at hsize
    rcases Nat.lt_or_ge s.wqeSize.toNat sizeofSendWqe with hshort | hlong
    · split
      · exact .invalid hsize (by rw [validatePostSendWqe_short hshort]; nofun)
      next u wqe hvalid =>
        have herr : (validatePostSendWqe ((s.qp.sendWqe s.pos.toNat).load
            (pageBytes page s.uptr s.wqeSize.toNat)) s.wqeSize).1 = .error .einval :=
          validatePostSendWqe_short hshort
        rw [hvalid] at herr
        cases herr
    · rw [load_pageBytes _ hlong]
      split
      next e wqe hvalid => exact .invalid hsize (by rw [hvalid]; nofun)
      next u wqe hvalid =>
        split
        next hnow =>
          split
          next e wqe' chan hwrite =>
            split
            · rename_i he
              exact .now hsize hvalid hnow hwrite (.inr (by rw [he]))
            · rename_i he
              exact .failed hsize hvalid hnow hwrite he
          next wqe' chan hwrite => exact .now hsize hvalid hnow hwrite (.inl rfl)
        next hlater => exact .later hsize hvalid (by simpa using hlater)

/-! ## The whole page -/

/-- The entries that are copied to the ring: up to the first that is invalid or a write that fails,
which is copied too. -/
def pageRecords (dev : Dev) (maxSize : Nat) (page : Nat → UInt8) :
    Nat → Nat → UInt32 → Chan → List SendWqe
  | 0, _, _, _ => []
  | n + 1, off, size, chan =>
    if maxSize < size.toNat then []
    else
      match validatePostSendWqe (pageWqe page off size) size with
      | (.error _, wqe) => [wqe]
      | (.ok _, wqe) =>
        let rest := pageRecords dev maxSize page n (off + size.toNat)
          (pageWqe page off size).recvKey
        if sendIsNonSignaledWrite wqe then
          match qpRdmaWrite dev chan wqe with
          | (.ok _, _, chan) => wqe :: rest chan
          | (.error e, _, chan) => if e = .eagain then wqe :: rest chan else [wqe]
        else wqe :: rest chan

def nextPos (pos : UInt32) (wqe : SendWqe) : UInt32 :=
  if sendIsNonSignaledWrite wqe then pos else pos + 1

def storePositions (pos : UInt32) : List SendWqe → List UInt32
  | [] => []
  | wqe :: rest => pos :: storePositions (nextPos pos wqe) rest

/-- The loop stored the entries one after another; the last one may have failed. -/
structure Stored (s s' : IoctlState) (recs : List SendWqe) : Prop where
  stores : s'.stores.map Prod.fst = s.stores.map Prod.fst ++ storePositions s.pos recs
  pos : s'.pos = recs.foldl nextPos s.pos ∨ s'.pos = recs.dropLast.foldl nextPos s.pos
  frame : s.qp.PostFrame s'.qp

lemma Stored.cons {s s1 s' : IoctlState} {wqe : SendWqe} {recs : List SendWqe}
    (h : Stored s1 s' recs) (hstores : s1.stores = s.stores ++ [(s.pos, wqe)])
    (hpos : s1.pos = nextPos s.pos wqe) (hframe : s.qp.PostFrame s1.qp) :
    Stored s s' (wqe :: recs) := by
  refine ⟨?_, ?_, hframe.trans h.frame⟩
  · rw [h.stores, hstores, hpos]
    simp [storePositions]
  · rw [List.foldl_cons, ← hpos]
    cases recs with
    | nil => exact .inl (h.pos.elim id id)
    | cons =>
      have := h.pos
      rw [hpos] at this ⊢
      exact this

lemma sendIoctlLoop_stored (dev : Dev) (page : Nat → UInt8) (n : Nat) (s : IoctlState) :
    Stored s (sendIoctlLoop dev page n s)
      (pageRecords dev s.qp.sendWqeMaxSize page n s.uptr s.wqeSize s.chan) := by
  induction n generalizing s with
  | zero => exact ⟨(List.append_nil _).symm, .inl rfl, rfl⟩
  | succ n ih =>
    have hstep := sendIoctlStep_spec dev page s
    simp only [sendIoctlLoop]
    generalize sendIoctlStep dev page s = res at hstep
    cases hstep with
    | large hsize =>
      rw [pageRecords, if_pos hsize]
      exact ⟨(List.append_nil _).symm, .inl rfl, rfl⟩
    | invalid hsize hvalid =>
      rw [pageRecords, if_neg (Nat.not_lt.2 hsize)]
      generalize validatePostSendWqe (pageWqe page s.uptr s.wqeSize) s.wqeSize = v at hvalid
      obtain ⟨_ | _, w⟩ := v
      · exact ⟨by simp [IoctlState.store, storePositions], .inr rfl, rfl⟩
      · exact absurd rfl hvalid
    | failed hsize hvalid hnow hwrite he =>
      rw [pageRecords, if_neg (Nat.not_lt.2 hsize), hvalid]
      simp only [hnow, hwrite, if_neg he]
      exact ⟨by simp [IoctlState.store, storePositions], .inr rfl, rfl⟩
    | now hsize hvalid hnow hwrite hrc =>
      rename_i rc wqe wqe' chan
      have hrecs : pageRecords dev s.qp.sendWqeMaxSize page (n + 1) s.uptr s.wqeSize s.chan =
          wqe :: pageRecords dev s.qp.sendWqeMaxSize page n (s.uptr + s.wqeSize.toNat)
            (pageWqe page s.uptr s.wqeSize).recvKey chan := by
        rw [pageRecords, if_neg (Nat.not_lt.2 hsize), hvalid]
        obtain rfl | rfl := hrc <;> simp [hnow, hwrite]
      rw [hrecs]
      exact (ih _).cons rfl (by rw [nextPos, hnow]; rfl) rfl
    | later hsize hvalid hlater =>
      rename_i wqe
      have hrecs : pageRecords dev s.qp.sendWqeMaxSize page (n + 1) s.uptr s.wqeSize s.chan =
          wqe :: pageRecords dev s.qp.sendWqeMaxSize page n (s.uptr + s.wqeSize.toNat)
            (pageWqe page s.uptr s.wqeSize).recvKey s.chan := by
        rw [pageRecords, if_neg (Nat.not_lt.2 hsize), hvalid]
        simp [hlater]
      rw [hrecs]
      exact (ih _).cons rfl (by rw [nextPos, hlater]; rfl) rfl

lemma storePositions_iff {lo stop pos : UInt32} {recs : List SendWqe} {room : Nat} (hlo : lo ≤ pos)
    (hroom : stop.toNat = pos.toNat + room) :
    (∀ p ∈ storePositions pos recs, lo ≤ p ∧ p < stop) ↔
      (recs ≠ [] → (deferred recs.dropLast).length < room) := by
  induction recs generalizing pos room with
  | nil => exact ⟨fun _ h => absurd rfl h, fun _ _ => nofun⟩
  | cons wqe recs ih =>
    simp only [storePositions, List.forall_mem_cons]
    cases room with
    | zero =>
      simp only [UInt32.lt_iff_toNat_lt, hroom]
      simp
    | succ room =>
      have hlt : lo ≤ pos ∧ pos < stop := ⟨hlo, by rw [UInt32.lt_iff_toNat_lt]; omega⟩
      have hstop := stop.toNat_lt
      rw [and_iff_right hlt]
      cases hwqe : sendIsNonSignaledWrite wqe with
      | true =>
        rw [nextPos, hwqe, if_pos rfl, ih hlo hroom]
        cases recs with
        | nil => simp [deferred]
        | cons => simp [List.dropLast_cons_cons, deferred_cons_true hwqe]
      | false =>
        have hnat : (pos + 1).toNat = pos.toNat + 1 := toNat_succ (by omega)
        have hlo' : lo ≤ pos + 1 := by
          rw [UInt32.le_iff_toNat_le] at hlo ⊢
          omega
        rw [nextPos, hwqe, if_neg Bool.false_ne_true,
          ih hlo' (show stop.toNat = (pos + 1).toNat + room by omega)]
        cases recs with
        | nil => simp [deferred]
        | cons => simp [List.dropLast_cons_cons, deferred_cons_false hwqe]

lemma foldl_nextPos {recs : List SendWqe} {pos : UInt32}
    (h : pos.toNat + (deferred recs).length < 2 ^ 32) :
    (recs.foldl nextPos pos).toNat = pos.toNat + (deferred recs).length := by
  induction recs generalizing pos with
  | nil => rfl
  | cons wqe _ ih =>
    rw [List.foldl_cons]
    cases hwqe : sendIsNonSignaledWrite wqe with
    | true =>
      rw [deferred_cons_true hwqe] at h ⊢
      rw [nextPos, hwqe, if_pos rfl, ih h]
    | false =>
      rw [deferred_cons_false hwqe, List.length_cons] at h ⊢
      have hnat : (pos + 1).toNat = pos.toNat + 1 := toNat_succ (by omega)
      rw [nextPos, hwqe, if_neg Bool.false_ne_true, ih (by omega)]
      omega

lemma length_deferred_dropLast (recs : List SendWqe) :
    (deferred recs.dropLast).length ≤ (deferred recs).length ∧
      (deferred recs).length ≤ (deferred recs.dropLast).length + 1 := by
  rcases List.eq_nil_or_concat recs with rfl | ⟨l, a, rfl⟩
  · exact ⟨Nat.le_refl _, Nat.zero_le _⟩
  · rw [List.concat_eq_append, List.dropLast_concat]
    have := List.length_filter_le (fun w => !sendIsNonSignaledWrite w) [a]
    simp only [deferred, List.filter_append, List.length_append]
    simp only [List.length_singleton] at this
    omega

/-- The ioctl stores only to free slots of the range it opened, and leaves a valid ring. -/
structure IoctlSafe (qp : Qp) (s : IoctlState) : Prop where
  inRange : ∀ p ∈ s.stores.map Prod.fst, qp.sendPostGet.2.pos ≤ p ∧ p < qp.sendPostGet.2.stop
  free : ∀ p ∈ s.stores.map Prod.fst, p < qp.sendCap ∧
    ∀ m < (count qp.sendPost qp.sendCmpl qp.sendCap).toNat,
      p.toNat ≠ (qp.sendCmpl.toNat + m) % qp.sendCap.toNat
  valid : Ring.valid s.qp.sendPost s.qp.sendCmpl s.qp.sendCap = true

def IoctlFits (dev : Dev) (qp : Qp) (chan : Chan) (page : Nat → UInt8) : Prop :=
  let r := qp.sendPostGet.2
  let recs := pageRecords dev qp.sendWqeMaxSize page (pageU32 page 0).toNat 8 (pageU32 page 4) chan
  r.pos = r.stop ∨ (recs ≠ [] → (deferred recs.dropLast).length < r.stop.toNat - r.pos.toNat)

lemma Qp.Open.free_slot {qp : Qp} {r : Range} {P C n} {p : UInt32} (h : qp.Open r P C n)
    (hlo : r.pos ≤ p) (hhi : p < r.stop) :
    p < qp.sendCap ∧ ∀ m, C ≤ m → m < P → p.toNat ≠ m % qp.sendCap.toNat := by
  have hstop := h.stop
  have hfits := h.fits
  have hfree := h.free
  rw [UInt32.le_iff_toNat_le] at hlo
  rw [UInt32.lt_iff_toNat_lt] at hhi
  refine ⟨by rw [UInt32.lt_iff_toNat_lt]; omega, fun m hm hmP => ?_⟩
  have hst : Stands qp.sendCap r.base p (P + (p.toNat - r.pos.toNat)) :=
    h.stands.add (by omega) (by omega)
  rw [hst.slot h.cap (by omega)]
  exact (slot_ne (by omega) (by omega)).symm

lemma Stored.valid {s s' : IoctlState} {recs : List SendWqe} {r : Range} {P C k}
    (h : Stored s s' recs) (hpos : s.pos = r.pos) (hopen : s.qp.Open r P C k)
    (hroom : recs ≠ [] → (deferred recs.dropLast).length < k) :
    Ring.valid (s'.qp.sendPostPut s'.pos r.base).sendPost s'.qp.sendCmpl s'.qp.sendCap = true := by
  have hstop := hopen.stop
  have hfits := hopen.fits
  have h32 := hopen.cap.lt
  obtain ⟨hd1, hd2⟩ := length_deferred_dropLast recs
  have hdk : (deferred recs).length ≤ k := by
    rcases recs with _ | ⟨w, recs⟩
    · exact Nat.zero_le k
    · have := hroom nofun
      omega
  obtain ⟨d, hd, hdle⟩ : ∃ d, s'.pos.toNat = r.pos.toNat + d ∧ d ≤ k := by
    obtain heq | heq := h.pos
    · exact ⟨_, by rw [heq, hpos]; exact foldl_nextPos (by omega), hdk⟩
    · exact ⟨_, by rw [heq, hpos]; exact foldl_nextPos (by omega), by omega⟩
  exact (hopen.close h.frame hd hdle).valid

lemma IoctlSafe.of_nothing {qp : Qp} {s : IoctlState}
    (hvalid : Ring.valid qp.sendPost qp.sendCmpl qp.sendCap = true) (hstores : s.stores = [])
    (hqp : s.qp = qp) : IoctlSafe qp s := by
  refine ⟨?_, ?_, by rw [hqp]; exact hvalid⟩ <;> rw [hstores] <;> exact nofun

/-- The ioctl stays inside of the range it opened exactly if the deferred entries fit in it. -/
theorem sendIoctl_safe_iff (dev : Dev) (qp : Qp) (chan : Chan) (page : Nat → UInt8)
    (hcap : Cap qp.sendCap) (hvalid : Ring.valid qp.sendPost qp.sendCmpl qp.sendCap = true) :
    IoctlSafe qp (processSendIoctlLocked dev qp chan page) ↔ IoctlFits dev qp chan page := by
  have hring := Qp.sendRing_of_valid hcap hvalid
  obtain ⟨hopen, -⟩ := hring.open
  simp only [processSendIoctlLocked, IoctlFits]
  split
  next hzero =>
    refine iff_of_true (.of_nothing hvalid rfl rfl) (.inr fun hne => absurd ?_ hne)
    rw [hzero]
    rfl
  · split
    next r hget =>
      have hempty := produce_fst.not.1 (Bool.eq_false_iff.1 (congrArg Prod.fst hget))
      rw [not_not] at hempty
      exact iff_of_true (.of_nothing hvalid rfl rfl) (.inl hempty)
    next r hget =>
      have hne := produce_fst.1 (congrArg Prod.fst hget)
      have hstored := sendIoctlLoop_stored dev page (pageU32 page 0).toNat
        { rc := .ok (), i := 0, uptr := 8, wqeSize := pageU32 page 4, pos := r.pos, qp, chan
          hadImmediateWork := false, hasDeferredWork := false, stores := [] }
      dsimp only at hstored
      generalize pageRecords dev qp.sendWqeMaxSize page _ 8
        (pageU32 page 4) chan = recs at hstored ⊢
      generalize sendIoctlLoop dev page _ _ = s' at hstored ⊢
      rw [← Qp.sendPostGet, hget] at hne
      rw [hget] at hopen ⊢
      have hstop := hopen.stop
      have hpositions : s'.stores.map Prod.fst = storePositions r.pos recs := hstored.stores
      have hiff := @storePositions_iff r.pos r.stop r.pos recs _ (UInt32.le_refl _) hopen.stop
      rw [or_iff_right hne, show r.stop.toNat - r.pos.toNat =
        _ from by rw [hstop, Nat.add_sub_cancel_left],
        ← hiff]
      constructor
      · intro hsafe
        have := hsafe.inRange
        rw [hget] at this
        rwa [hpositions] at this
      · intro hin
        refine ⟨?_, ?_, hstored.valid rfl hopen (hiff.1 hin)⟩
        · rw [hget]
          rwa [hpositions]
        · intro p hp
          rw [hpositions] at hp
          obtain ⟨hlt, hfree⟩ := hopen.free_slot (hin p hp).1 (hin p hp).2
          exact ⟨hlt, fun m hm => hfree _ (Nat.le_add_right _ _) (Nat.add_lt_add_left hm _)⟩

def SendWqe.size (wqe : SendWqe) : Nat := sizeofSendWqe + wqe.tail.length

def pageEntries : List SendWqe → List UInt8
  | [] => []
  | wqe :: rest =>
    let next : UInt32 := .ofNat ((rest.head?.map SendWqe.size).getD 0)
    { wqe with recvKey := next }.encodeHdr ++ wqe.tail ++ pageEntries rest

def pageOf (wqes : List SendWqe) : Nat → UInt8 :=
  let first := (wqes.head?.map SendWqe.size).getD 0
  let l := leBytes 4 wqes.length ++ leBytes 4 first ++ pageEntries wqes
  fun k => l.getD k 0

def emptyWqe : SendWqe := ⟨7, wrRdmaWrite, 0, 0, ⟨0, 0, 0⟩, 0, sendSignaled, 0, []⟩

/-- Two signaled writes for an empty ring of one entry: the second is stored behind the buffer. -/
theorem sendIoctl_overrun :
    let s := processSendIoctlLocked smallDev (.fresh 1) freshChan (pageOf [emptyWqe, emptyWqe])
    (Qp.fresh 1).sendPostGet = (true, ⟨0, 1, 0⟩) ∧ s.stores.map Prod.fst = [0, 1] ∧
      s.qp.sendPost = 2 ∧ Ring.valid s.qp.sendPost s.qp.sendCmpl s.qp.sendCap = false ∧
      ¬ IoctlSafe (.fresh 1) s := by
  refine ⟨rfl, by decide, by decide, by decide, fun h => ?_⟩
  exact absurd h.valid (by decide)

theorem sendIoctl_safe_iff_one :
    IoctlSafe (.fresh 1)
      (processSendIoctlLocked smallDev (.fresh 1) freshChan (pageOf [emptyWqe])) :=
  (sendIoctl_safe_iff _ _ _ _ ⟨by decide, by decide⟩ (by decide)).2 (.inr fun _ => by decide)

end Ntrdma
