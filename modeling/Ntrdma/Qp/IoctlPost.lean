import Ntrdma.Qp.Ioctl

/-!
# The send ioctl against posting

`ntrdma_qp_process_send_ioctl_locked` and `ntrdma_post_send_locked` are two loops for one task. This
module compares them on a page of valid entries and the requests that build the same entries, for
every pattern of writes that are accepted or find no room. `sendIoctl_keeps_iff` says for which
batches the ioctl keeps every entry it reports as taken, and takes what posting takes.
-/

namespace Ntrdma
open Lib Ntrdma.Ring

/-- The page holds valid entries from an offset on; `size` is the size of the first. -/
def PageHolds (maxSize : Nat) (page : Nat → UInt8) : Nat → UInt32 → List SendWqe → Prop
  | _, _, [] => True
  | off, size, wqe :: rest =>
    size.toNat ≤ maxSize ∧ validatePostSendWqe (pageWqe page off size) size = (.ok (), wqe) ∧
      PageHolds maxSize page (off + size.toNat) (pageWqe page off size).recvKey rest

instance PageHolds.decidable (maxSize : Nat) (page : Nat → UInt8) :
    ∀ off size wqes, Decidable (PageHolds maxSize page off size wqes)
  | _, _, [] => .isTrue trivial
  | off, size, _ :: rest =>
    have := decidable maxSize page (off + size.toNat) (pageWqe page off size).recvKey rest
    inferInstanceAs (Decidable (_ ∧ _ ∧ _))

def writeResults (dev : Dev) : Chan → List SendWqe → List (Except Errno Unit)
  | _, [] => []
  | chan, wqe :: rest =>
    (qpRdmaWrite dev chan wqe).1 :: writeResults dev (qpRdmaWrite dev chan wqe).2.2 rest

def NoHardError (dev : Dev) (chan : Chan) (wqes : List SendWqe) : Prop :=
  ∀ rc ∈ writeResults dev chan wqes, rc = .ok () ∨ rc = .error .eagain

def AllAccepted (dev : Dev) (chan : Chan) (wqes : List SendWqe) : Prop :=
  ∀ rc ∈ writeResults dev chan wqes, rc = .ok ()

/-- The number of entries reported as taken: `i` on error and all of them on success. -/
def IoctlState.accepted (s : IoctlState) (wqeCounter : UInt32) : Nat :=
  match s.rc with
  | .ok _ => wqeCounter.toNat
  | .error _ => s.i

def IoctlState.enqueued (s : IoctlState) : List (UInt32 × SendWqe) :=
  s.stores.filter fun x => !sendIsNonSignaledWrite x.2

/-! ## The ioctl on valid entries -/

lemma filter_storePositions (pos : UInt32) (wqes : List SendWqe) :
    ((storePositions pos wqes).zip wqes).filter (fun x => !sendIsNonSignaledWrite x.2) =
      (deferred wqes).mapIdx fun k wqe => (pos + .ofNat k, wqe) := by
  induction wqes generalizing pos with
  | nil => rfl
  | cons wqe _ ih =>
    rw [storePositions, List.zip_cons_cons]
    cases hwqe : sendIsNonSignaledWrite wqe with
    | true =>
      rw [List.filter_cons_of_neg (by simp [hwqe]), deferred_cons_true hwqe, nextPos, hwqe,
        if_pos rfl]
      exact ih pos
    | false =>
      rw [List.filter_cons_of_pos (by simp [hwqe]), deferred_cons_false hwqe, nextPos, hwqe,
        if_neg Bool.false_ne_true, ih, List.mapIdx_cons]
      congr 1
      · simp
      · congr 1
        funext k w
        rw [Nat.add_comm k 1, UInt32.ofNat_add, ← UInt32.add_assoc]
        rfl

structure IoctlTook (s s' : IoctlState) (wqes : List SendWqe) : Prop where
  i : s'.i = s.i + wqes.length
  pos : s'.pos = wqes.foldl nextPos s.pos
  stores : s'.stores = s.stores ++ (storePositions s.pos wqes).zip wqes
  frame : s.qp.PostFrame s'.qp
  slots : s.pos.toNat + (deferred wqes).length < 2 ^ 32 →
    (∀ p < s.pos.toNat, s'.qp.sendWqe p = s.qp.sendWqe p) ∧
      ∀ k wqe, (deferred wqes)[k]? = some wqe → s'.qp.sendWqe (s.pos.toNat + k) = wqe

lemma IoctlTook.cons {s s1 s' : IoctlState} {wqe : SendWqe} {rest : List SendWqe}
    (h : IoctlTook s1 s' rest) (hi : s1.i = s.i + 1) (hpos : s1.pos = nextPos s.pos wqe)
    (hstores : s1.stores = s.stores ++ [(s.pos, wqe)]) (hframe : s.qp.PostFrame s1.qp)
    (hother : ∀ p ≠ s.pos.toNat, s1.qp.sendWqe p = s.qp.sendWqe p)
    (hslot : sendIsNonSignaledWrite wqe = false → s1.qp.sendWqe s.pos.toNat = wqe) :
    IoctlTook s s' (wqe :: rest) := by
  refine ⟨?_, ?_, ?_, hframe.trans h.frame, fun hlt => ?_⟩
  · rw [h.i, hi, List.length_cons]
    omega
  · rw [h.pos, hpos, List.foldl_cons]
  · rw [h.stores, hstores, hpos]
    simp [storePositions]
  · have hslots := h.slots
    -- the position moves on only behind an entry that is left in the ring
    cases hwqe : sendIsNonSignaledWrite wqe with
    | true =>
      rw [deferred_cons_true hwqe] at hlt ⊢
      rw [hpos, nextPos, hwqe, if_pos rfl] at hslots
      obtain ⟨hbelow, hdeferred⟩ := hslots hlt
      exact ⟨fun p hp => (hbelow p hp).trans (hother p hp.ne), hdeferred⟩
    | false =>
      rw [deferred_cons_false hwqe, List.length_cons] at hlt
      have hnat : (s.pos + 1).toNat = s.pos.toNat + 1 := toNat_succ (by omega)
      rw [hpos, nextPos, hwqe, if_neg Bool.false_ne_true, hnat] at hslots
      obtain ⟨hbelow, hdeferred⟩ := hslots (by omega)
      refine ⟨fun p hp => (hbelow p (by omega)).trans (hother p hp.ne), fun k w hk => ?_⟩
      rw [deferred_cons_false hwqe] at hk
      cases k with
      | zero =>
        cases hk
        exact (hbelow _ (Nat.lt_succ_self _)).trans (hslot hwqe)
      | succ k =>
        rw [show s.pos.toNat + (k + 1) = s.pos.toNat + 1 + k by omega]
        exact hdeferred k w hk

lemma sendIoctlLoop_took {dev : Dev} {page : Nat → UInt8} {wqes : List SendWqe} {s : IoctlState}
    (hpage : PageHolds s.qp.sendWqeMaxSize page s.uptr s.wqeSize wqes)
    (hout : NoHardError dev s.chan (immediate wqes)) :
    IoctlTook s (sendIoctlLoop dev page wqes.length s) wqes := by
  induction wqes generalizing s with
  | nil => exact ⟨rfl, rfl, (List.append_nil _).symm, rfl, fun _ => ⟨fun _ _ => rfl, nofun⟩⟩
  | cons _ _ ih =>
    obtain ⟨hsize, hvalid, hrest⟩ := hpage
    have hstep := sendIoctlStep_spec dev page s
    simp only [List.length_cons, sendIoctlLoop]
    generalize sendIoctlStep dev page s = res at hstep
    cases hstep with
    | large hlarge => exact absurd hsize (Nat.not_le.2 hlarge)
    | invalid _ hinvalid => exact absurd (by rw [hvalid]) hinvalid
    | failed _ hvalid' hnow hwrite he =>
      cases hvalid.symm.trans hvalid'
      rw [immediate_cons_true hnow] at hout
      have := hout _ (List.mem_cons_self)
      rw [hwrite] at this
      obtain h | h := this
      · cases h
      · exact absurd (Except.error.inj h) he
    | now _ hvalid' hnow hwrite =>
      cases hvalid.symm.trans hvalid'
      rw [immediate_cons_true hnow] at hout
      refine .cons (ih hrest fun rc hmem => hout rc (List.mem_cons_of_mem _ ?_))
        rfl ?_ rfl rfl ?_ ?_
      · rw [hwrite]
        exact hmem
      · rw [nextPos, hnow]
        rfl
      · intro p hp
        exact (Function.update_of_ne hp _ _).trans (Function.update_of_ne hp _ _)
      · intro hf
        cases hnow.symm.trans hf
    | later _ hvalid' hlater =>
      cases hvalid.symm.trans hvalid'
      rw [immediate_cons_false hlater] at hout
      refine .cons (ih hrest hout) rfl ?_ rfl rfl ?_ ?_
      · rw [nextPos, hlater]
        rfl
      · intro p hp
        exact Function.update_of_ne hp _ _
      · intro _
        exact Function.update_self _ _ _

/-! ## Posting the same entries -/

lemma postSendOne_of_builds {dev : Dev} {umem} {qp : Qp} {chan : Chan} {wr wqe} (pos : UInt32)
    (hbuild : Builds qp umem wr wqe)
    (hwrite : sendIsNonSignaledWrite wqe = true → (qpRdmaWrite dev chan wqe).1 = .ok ()) :
    ∃ wqe', postSendOne dev umem qp chan pos wr = (.ok (sendIsNonSignaledWrite wqe),
      qp.setSendWqe pos wqe',
      if sendIsNonSignaledWrite wqe then (qpRdmaWrite dev chan wqe).2.2 else chan) := by
  obtain ⟨hcheck, hbuild⟩ := hbuild
  simp only [postSendBuild] at hbuild
  simp only [postSendOne, hcheck]
  generalize ibSendToWqe qp wr = built at hbuild ⊢
  obtain ⟨rc, hdr⟩ := built
  cases rc with
  | error => cases hbuild
  | ok =>
    dsimp only at hbuild
    simp only [postSendWqe, hbuild]
    cases hnow : sendIsNonSignaledWrite wqe with
    | false =>
      rw [sendIsNonSignaledWrite_eq, Bool.not_eq_false'] at hnow
      exact ⟨wqe, by simp [hnow]⟩
    | true =>
      have hok := hwrite hnow
      rw [sendIsNonSignaledWrite_eq, Bool.not_eq_true'] at hnow
      generalize qpRdmaWrite dev chan wqe = res at hok ⊢
      obtain ⟨rc, wqe', chan'⟩ := res
      cases hok
      exact ⟨wqe', by simp [hnow]⟩

lemma room_cons_iff {wqe : SendWqe} {wqes : List SendWqe} {P F : Nat} (h : P < F) :
    (wqe :: wqes ≠ [] → (deferred (wqe :: wqes).dropLast).length < F - P) ↔
      (wqes ≠ [] →
        (deferred wqes.dropLast).length < F - if sendIsNonSignaledWrite wqe then P else P + 1) := by
  cases wqes with
  | nil => exact iff_of_true (fun _ => Nat.sub_pos_of_lt h) fun hne => absurd rfl hne
  | cons =>
    rw [List.dropLast_cons_cons]
    cases hnow : sendIsNonSignaledWrite wqe with
    | true => simp [deferred_cons_true hnow]
    | false =>
      simp only [deferred_cons_false hnow, List.length_cons]
      simp
      omega

lemma postSendLoop_all_iff {dev : Dev} {umem} {wrs : List SendWr} {wqes : List SendWqe} {r : Range}
    {qp : Qp} {chan : Chan} {P C k} (imm more : Bool) (h : qp.Open r P C k) (hk : wrs ≠ [] → 0 < k)
    (hbuilds : List.Forall₂ (Builds qp umem) wrs wqes)
    (hacc : AllAccepted dev chan (immediate wqes)) :
    (postSendLoop dev umem wrs r qp chan imm more).bad = [] ↔
      (wqes ≠ [] → (deferred wqes.dropLast).length < C + qp.sendCap.toNat - P) := by
  induction wrs generalizing wqes r qp P k chan imm more with
  | nil =>
    cases hbuilds
    exact iff_of_true rfl fun hne => absurd rfl hne
  | cons wr wrs ih =>
    cases hbuilds with
    | cons hbuild hrest =>
    rename_i wqe wqes
    have hk := hk nofun
    have hfree := h.free
    have hwrite : sendIsNonSignaledWrite wqe = true → (qpRdmaWrite dev chan wqe).1 = .ok () := by
      intro hnow
      rw [immediate_cons_true hnow] at hacc
      exact hacc _ List.mem_cons_self
    obtain ⟨wqe', hone⟩ := postSendOne_of_builds r.pos hbuild hwrite
    obtain ⟨k, rfl⟩ := Nat.exists_eq_succ_of_ne_zero (Nat.pos_iff_ne_zero.1 hk)
    simp only [postSendLoop, hone]
    have hacc' : AllAccepted dev (if sendIsNonSignaledWrite wqe then (qpRdmaWrite dev chan wqe).2.2
        else chan) (immediate wqes) := by
      cases hnow : sendIsNonSignaledWrite wqe with
      | true =>
        rw [immediate_cons_true hnow] at hacc
        exact fun rc hrc => hacc rc (List.mem_cons_of_mem _ hrc)
      | false =>
        rw [immediate_cons_false hnow] at hacc
        exact hacc
    obtain ⟨k', hopen⟩ := h.after wqe' (sendIsNonSignaledWrite wqe)
    rw [room_cons_iff (show P < C + qp.sendCap.toNat by omega)]
    have hlen := hrest.length_eq
    generalize (if sendIsNonSignaledWrite wqe = true then P else P + 1) = P' at hopen ⊢
    generalize (if sendIsNonSignaledWrite wqe = true then r.pos else r.pos + 1) = pos' at hopen ⊢
    generalize (if sendIsNonSignaledWrite wqe = true then _ else chan) = chan' at hacc' ⊢
    split
    next hnext =>
      rw [Bool.and_eq_true, Bool.not_eq_true', List.isEmpty_eq_false_iff] at hnext
      split
      next r' hr' =>
        refine iff_of_false hnext.1 fun hroom => ?_
        have hfull := hopen.put.open.2.not.1 (Bool.eq_false_iff.1 (congrArg Prod.fst hr'))
        have := hroom (List.length_pos_iff.1 (hlen ▸ List.length_pos_iff.2 hnext.1))
        exact hfull (show P' < C + qp.sendCap.toNat by omega)
      next r' hr' =>
        have hpos := hopen.put.open_pos (congrArg Prod.fst hr')
        have hopen' := hopen.put.open.1
        rw [hr'] at hopen'
        exact ih _ _ hopen' (fun _ => hpos) hrest hacc'
    next hcont =>
      refine ih _ _ hopen (fun hne => ?_) hrest hacc'
      rw [Bool.and_eq_true, not_and, beq_iff_eq] at hcont
      exact hopen.pos (hcont (by simpa using hne))

/-! ## The comparison -/

/-- The ioctl keeps the first `i` entries, in the ring or as an issued write, and takes as many as
posting does. -/
structure IoctlKeeps (dev : Dev) (umem : UInt64 → Option UInt8) (qp : Qp) (chan : Chan) (P C : Nat)
    (wrs : List SendWr) (wqes : List SendWqe) (s : IoctlState) (i : Nat) : Prop where
  enqueued : s.enqueued = (deferred (wqes.take i)).mapIdx fun k wqe =>
    (.ofNat ((P + k) % qp.sendCap.toNat), wqe)
  ring : s.qp.SendRing (P + (deferred (wqes.take i)).length) C
  holds : Holds qp.sendCap.toNat s.qp.sendWqe P (deferred (wqes.take i))
  issued : AllAccepted dev chan (immediate (wqes.take i))
  same : (postSendLocked dev umem qp chan wrs).bad = wrs.drop i

/-- There is nothing to do, or the ring is full, or no write finds the channel full and all but the
last entry leave a free slot. -/
def BatchFits (dev : Dev) (qp : Qp) (chan : Chan) (P C : Nat) (wqes : List SendWqe) : Prop :=
  wqes = [] ∨ P = C + qp.sendCap.toNat ∨
    (AllAccepted dev chan (immediate wqes) ∧
      (deferred wqes).length ≤
        min (C + qp.sendCap.toNat - P) (qp.sendCap.toNat - P % qp.sendCap.toNat) ∧
      (deferred wqes.dropLast).length < C + qp.sendCap.toNat - P)

section
variable {dev : Dev} {umem : UInt64 → Option UInt8} {qp : Qp} {chan : Chan} {P C : Nat}
variable {wrs : List SendWr} {wqes : List SendWqe} {s s' : IoctlState} {r : Range} {n : Nat}

lemma IoctlKeeps.of_nothing (hring : qp.SendRing P C) (hstores : s.stores = []) (hqp : s.qp = qp)
    (hbad : (postSendLocked dev umem qp chan wrs).bad = wrs) :
    IoctlKeeps dev umem qp chan P C wrs wqes s 0 := by
  refine ⟨?_, ?_, Holds.nil, nofun, hbad⟩
  · rw [IoctlState.enqueued, hstores]
    rfl
  · rw [hqp]
    exact hring

lemma IoctlTook.enqueued_eq (h : IoctlTook s s' wqes) (hstores : s.stores = []) :
    s'.enqueued = (deferred wqes).mapIdx fun k wqe => (s.pos + .ofNat k, wqe) := by
  rw [IoctlState.enqueued, h.stores, hstores, List.nil_append, filter_storePositions]

lemma IoctlTook.keeps (h : IoctlTook s s' wqes) (hstores : s.stores = []) (hqp : s.qp = qp)
    (hpos : s.pos = r.pos) (hopen : qp.Open r P C n) (hfit : (deferred wqes).length ≤ n)
    (hacc : AllAccepted dev chan (immediate wqes))
    (hbad : (postSendLocked dev umem qp chan wrs).bad = []) (hlen : wrs.length = wqes.length) :
    IoctlKeeps dev umem qp chan P C wrs wqes { s' with qp := s'.qp.sendPostPut s'.pos r.base }
      wqes.length := by
  have hstop := hopen.stop
  have hfits := hopen.fits
  have h32 := hopen.cap.lt
  have hframe := h.frame
  have hslots := h.slots
  rw [hqp] at hframe
  rw [hpos] at hslots
  refine ⟨?_, ?_, ?_, ?_, ?_⟩
  · refine (h.enqueued_eq hstores).trans ?_
    rw [List.take_length, hpos]
    refine List.ext_getElem (by simp) fun k h1 h2 => ?_
    rw [List.length_mapIdx] at h1
    obtain ⟨hnat, hslot⟩ := hopen.slot_add (show k < n by omega)
    rw [List.getElem_mapIdx, List.getElem_mapIdx, Prod.mk.injEq]
    refine ⟨?_, rfl⟩
    rw [← hslot, ← hnat, UInt32.ofNat_toNat]
  · have hd : s'.pos.toNat = r.pos.toNat + (deferred wqes).length := by
      rw [h.pos, hpos]
      exact foldl_nextPos (by omega)
    rw [List.take_length]
    exact hopen.close hframe hd hfit
  · rw [List.take_length]
    intro k wqe hk
    have hlt := (List.getElem?_eq_some_iff.1 hk).1
    rw [← (hopen.slot_add (show k < n by omega)).2]
    exact (hslots (by omega)).2 k wqe hk
  · rw [List.take_length]
    exact hacc
  · rw [hbad, ← hlen, List.drop_length]

lemma IoctlTook.fits (h : IoctlTook s s' wqes) (hstores : s.stores = []) (hqp : s.qp = qp)
    (hpos : s.pos = r.pos)
    (hopen : qp.Open r P C (min (C + qp.sendCap.toNat - P)
      (qp.sendCap.toNat - P % qp.sendCap.toNat))) (hget : P < C + qp.sendCap.toNat)
    (hkeeps : IoctlKeeps dev umem qp chan P C wrs wqes
      { s' with qp := s'.qp.sendPostPut s'.pos r.base } wqes.length) :
    (deferred wqes).length ≤
      min (C + qp.sendCap.toNat - P) (qp.sendCap.toNat - P % qp.sendCap.toNat) := by
  have hmod := Nat.mod_lt P hopen.cap.pos
  have hfull : P + (deferred wqes).length ≤ C + qp.sendCap.toNat := by
    have := hkeeps.ring.full
    have hcap : (s'.qp.sendPostPut s'.pos r.base).sendCap = qp.sendCap := by
      rw [h.frame, hqp]
      rfl
    rwa [List.take_length, hcap] at this
  by_contra hlong
  -- the first entry beyond the range is stored at its end, which is the end of the buffer
  obtain ⟨k, hk⟩ : ∃ k, k = min (C + qp.sendCap.toNat - P)
    (qp.sendCap.toNat - P % qp.sendCap.toNat) := ⟨_, rfl⟩
  rw [← hk] at hlong hopen
  have hkcap : k = qp.sendCap.toNat - P % qp.sendCap.toNat := by omega
  have hslot := (hopen.slot_add (show 0 < k by omega)).2
  have hstore := (h.enqueued_eq hstores).symm.trans hkeeps.enqueued
  have hat := congrArg (fun l => l[k]?.map Prod.fst) hstore
  simp only [List.take_length, List.getElem?_mapIdx,
    List.getElem?_eq_getElem (show k < (deferred wqes).length by omega), Option.map_some,
    Option.some.injEq, hpos] at hat
  have hnat := congrArg UInt32.toNat hat
  have h32 := hopen.cap.lt
  have hlt := Nat.mod_lt (P + k) hopen.cap.pos
  rw [UInt32.toNat_add, UInt32.toNat_ofNat_of_lt' (show k < 2 ^ 32 by omega),
    UInt32.toNat_ofNat_of_lt' (show (P + k) % qp.sendCap.toNat < 2 ^ 32 by omega)] at hnat
  simp only [Nat.add_zero] at hslot
  omega

end

/-- The ioctl keeps every entry it reports, and takes those that posting takes, if and only if the
batch fits and no write finds the channel full. -/
theorem sendIoctl_keeps_iff {dev : Dev} {umem : UInt64 → Option UInt8} {qp : Qp} {chan : Chan}
    {P C : Nat} {page : Nat → UInt8} {wrs : List SendWr} {wqes : List SendWqe}
    (hring : qp.SendRing P C) (hcount : (pageU32 page 0).toNat = wqes.length)
    (hpage : PageHolds qp.sendWqeMaxSize page 8 (pageU32 page 4) wqes)
    (hbuilds : List.Forall₂ (Builds qp umem) wrs wqes)
    (hout : NoHardError dev chan (immediate wqes)) :
    IoctlKeeps dev umem qp chan P C wrs wqes (processSendIoctlLocked dev qp chan page)
        ((processSendIoctlLocked dev qp chan page).accepted (pageU32 page 0)) ↔
      BatchFits dev qp chan P C wqes := by
  have hlen := hbuilds.length_eq
  obtain ⟨hopen, hget⟩ := hring.open
  simp only [processSendIoctlLocked]
  split
  next hzero =>
    have hwqes : wqes = [] := List.length_eq_zero_iff.1 (by rw [← hcount, hzero]; rfl)
    have hwrs : wrs = [] := List.length_eq_zero_iff.1 (by rw [hlen, hwqes]; rfl)
    rw [hzero]
    exact iff_of_true (.of_nothing hring rfl rfl (by rw [hwrs]; rfl)) (.inl hwqes)
  next hzero =>
    have hne : wqes ≠ [] := by
      rintro rfl
      exact hzero (UInt32.toNat_inj.1 hcount)
    have hwrs : wrs.isEmpty = false := by
      rw [List.isEmpty_eq_false_iff, ← List.length_pos_iff, hlen, List.length_pos_iff]
      exact hne
    split
    next r hr =>
      have hfull := hget.not.1 (Bool.eq_false_iff.1 (congrArg Prod.fst hr))
      have hle := hring.full
      refine iff_of_true (.of_nothing hring rfl rfl ?_) (.inr (.inl (by omega)))
      simp only [postSendLocked, hwrs, hr]
      rfl
    next r hr =>
      have hroom := hget.1 (congrArg Prod.fst hr)
      have hpos := hring.open_pos (congrArg Prod.fst hr)
      rw [hr] at hopen
      have htook := @sendIoctlLoop_took dev page wqes
        { rc := .ok (), i := 0, uptr := 8, wqeSize := pageU32 page 4, pos := r.pos, qp, chan
          hadImmediateWork := false, hasDeferredWork := false, stores := [] } hpage hout
      rw [← hcount] at htook
      generalize sendIoctlLoop dev page (pageU32 page 0).toNat _ = s' at htook ⊢
      have haccepted : IoctlState.accepted { s' with qp := s'.qp.sendPostPut s'.pos r.base }
          (pageU32 page 0) = wqes.length := by
        have hi := htook.i
        simp only [IoctlState.accepted]
        split
        · exact hcount
        · rw [hi, Nat.zero_add]
      rw [haccepted]
      have hpost : postSendLocked dev umem qp chan wrs =
          postSendLoop dev umem wrs r qp chan false false := by
        simp only [postSendLocked, hwrs, hr]
        rfl
      have hall := fun hacc => postSendLoop_all_iff false false hopen (fun _ => hpos) hbuilds
        (show AllAccepted dev chan (immediate wqes) from hacc)
      rw [← hpost] at hall
      constructor
      · intro hkeeps
        have hacc := hkeeps.issued
        rw [List.take_length] at hacc
        have hbad := hkeeps.same
        rw [← hlen, List.drop_length] at hbad
        exact .inr (.inr ⟨hacc, htook.fits rfl rfl rfl hopen hroom hkeeps, (hall hacc).1 hbad hne⟩)
      · rintro (hnil | hfull | ⟨hacc, hfit, hlast⟩)
        · exact absurd hnil hne
        · omega
        · exact htook.keeps rfl rfl rfl hopen hfit hacc ((hall hacc).2 fun _ => hlast) hlen

def twoByteWr (flags : UInt32) : SendWr := ⟨5, 0, flags, 0, 0x20, 2, [⟨0x10, 2, 1⟩]⟩

def twoBytePage (wrs : List SendWr) : Nat → UInt8 :=
    pageOf (wrs.map (wqeOf (.fresh 4) fun _ => none))

def fullChan : Chan := ⟨fun _ => .blocked, 0, []⟩

/-- An unsignaled write finds no room: it is not issued and not in the ring, yet the ioctl reports
success. -/
theorem sendIoctl_loses_write :
    let wrs := [twoByteWr 0, twoByteWr sendSignaled]
    let s := processSendIoctlLocked smallDev (.fresh 4) fullChan (twoBytePage wrs)
    s.rc = .ok () ∧ s.accepted 2 = 2 ∧ s.chan.log = [] ∧ s.qp.sendPost = 1 ∧
      (postSendLocked smallDev (fun _ => none) (.fresh 4) fullChan wrs).bad = wrs ∧
      ¬ IoctlKeeps smallDev (fun _ => none) (.fresh 4) fullChan 0 0 wrs
        (wrs.map (wqeOf (.fresh 4) fun _ => none)) s (s.accepted 2) := by
  refine ⟨rfl, rfl, rfl, rfl, rfl, fun h => ?_⟩
  exact absurd h.same (by decide)

theorem sendIoctl_keeps_iff_two :
    let wrs := [twoByteWr 0, twoByteWr sendSignaled]
    let page := twoBytePage wrs
    let s := processSendIoctlLocked smallDev (.fresh 4) freshChan page
    IoctlKeeps smallDev (fun _ => none) (.fresh 4) freshChan 0 0 wrs
      (wrs.map (wqeOf (.fresh 4) fun _ => none)) s (s.accepted (pageU32 page 0)) := by
  intro wrs page s
  have hring : (Qp.fresh 4).SendRing 0 0 :=
    ⟨⟨by decide, by decide⟩, rfl, rfl, Nat.le_refl 0, Nat.zero_le _⟩
  have hpage : PageHolds (Qp.fresh 4).sendWqeMaxSize page 8 (pageU32 page 4)
      (wrs.map (wqeOf (.fresh 4) fun _ => none)) := by decide +kernel
  have hacc : ∀ rc ∈ writeResults smallDev freshChan
      (immediate (wrs.map (wqeOf (.fresh 4) fun _ => none))), rc = .ok () := by decide +kernel
  exact (sendIoctl_keeps_iff hring (by decide +kernel) hpage
    (.cons ⟨by decide, by decide +kernel⟩ (.cons ⟨by decide, by decide +kernel⟩ .nil))
    fun rc hrc => .inl (hacc rc hrc)).2 (.inr (.inr ⟨hacc, by decide +kernel, by decide +kernel⟩))

end Ntrdma
