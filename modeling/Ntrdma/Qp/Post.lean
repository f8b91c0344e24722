import Ntrdma.Qp.Carry
import Ntrdma.Ring.Unrolled

/-!
# Posting sends

Model of `ntrdma_post_send_locked`: the loop that takes work requests one after another, stores an
entry into the next free slot of the send ring for each, and executes unsignaled RDMA writes at
once, after which the slot is used again. `postSendLoop_spec` says what the loop leaves in the ring
in terms of unrolled counters.
-/

namespace Ntrdma
open Lib Ntrdma.Ring

/-- The result of posting a list of requests: `*bad` is the list of requests that were not
accepted. -/
structure PostResult where
  rc : Except Errno Unit
  bad : List SendWr
  qp : Qp
  chan : Chan
  hadImmediateWork : Bool
  hasDeferredWork : Bool

/-- The work on one request in `ntrdma_post_send_locked`, with the slot at `pos`. -/
def postSendOne (dev : Dev) (umem : UInt64 → Option UInt8) (qp : Qp) (chan : Chan) (pos : UInt32)
    (wr : SendWr) : Except Errno Bool × Qp × Chan :=
  if !postSendCheck qp wr then (.error .einval, qp, chan)
  else
    match ibSendToWqe qp wr with
    | (.error e, wqe) => (.error e, qp.setSendWqe pos wqe, chan)
    | (.ok _, wqe) =>
      let (rc, wqe, chan) := postSendWqe dev umem chan wqe wr.sgList
      (rc, qp.setSendWqe pos wqe, chan)

/-- The two loops of `ntrdma_post_send_locked`, from a position of an open range on. -/
def postSendLoop (dev : Dev) (umem : UInt64 → Option UInt8) :
    List SendWr → Range → Qp → Chan → Bool → Bool → PostResult
  | [], r, qp, chan, imm, deferred =>
    ⟨.ok (), [], qp.sendPostPut r.pos r.base, chan, imm, deferred⟩
  | wr :: rest, r, qp, chan, imm, deferred =>
    match postSendOne dev umem qp chan r.pos wr with
    | (.error e, qp, chan) =>
      ⟨.error e, wr :: rest, qp.sendPostPut r.pos r.base, chan, imm, deferred⟩
    | (.ok sent, qp, chan) =>
      let r := { r with pos := if sent then r.pos else r.pos + 1 }
      let imm := imm || sent
      let deferred := deferred || !sent
      -- at the end of the range, the next one is opened if there are more requests
      if !rest.isEmpty && r.pos == r.stop then
        let qp := qp.sendPostPut r.pos r.base
        match qp.sendPostGet with
        | (false, _) => ⟨.error .eagain, rest, qp, chan, imm, deferred⟩
        | (true, r) => postSendLoop dev umem rest r qp chan imm deferred
      else postSendLoop dev umem rest r qp chan imm deferred

def postSendLocked (dev : Dev) (umem : UInt64 → Option UInt8) (qp : Qp) (chan : Chan)
    (wrs : List SendWr) : PostResult :=
  if wrs.isEmpty then ⟨.ok (), wrs, qp, chan, false, false⟩
  else
    match qp.sendPostGet with
    | (false, _) => ⟨.error .eagain, wrs, qp, chan, false, false⟩
    | (true, r) => postSendLoop dev umem wrs r qp chan false false

/-! ## The entries of a list of requests -/

def wqeOf (qp : Qp) (umem : UInt64 → Option UInt8) (wr : SendWr) : SendWqe :=
  (postSendBuild qp umem wr).2

def deferred (wqes : List SendWqe) : List SendWqe := wqes.filter fun w => !sendIsNonSignaledWrite w

def immediate (wqes : List SendWqe) : List SendWqe := wqes.filter sendIsNonSignaledWrite

def runWrites (dev : Dev) : Chan → List SendWqe → Option Chan
  | chan, [] => some chan
  | chan, wqe :: rest =>
    match qpRdmaWrite dev chan wqe with
    | (.ok _, _, chan) => runWrites dev chan rest
    | (.error _, _, _) => none

structure Qp.SendRing (qp : Qp) (P C : Nat) : Prop where
  cap : Cap qp.sendCap
  post : Idx qp.sendCap qp.sendPost P
  cmpl : Idx qp.sendCap qp.sendCmpl C
  le : C ≤ P
  full : P ≤ C + qp.sendCap.toNat

variable {qp : Qp}

lemma Qp.sendRing_of_valid (hcap : Cap qp.sendCap)
    (hvalid : Ring.valid qp.sendPost qp.sendCmpl qp.sendCap = true) :
    qp.SendRing (qp.sendCmpl.toNat + (count qp.sendPost qp.sendCmpl qp.sendCap).toNat)
      qp.sendCmpl.toNat := by
  obtain ⟨hcmpl, hpost, hle⟩ := idx_of_valid hcap hvalid
  exact ⟨hcap, hpost, hcmpl, Nat.le_add_right _ _, by omega⟩

lemma Qp.SendRing.valid {P C} (h : qp.SendRing P C) :
    Ring.valid qp.sendPost qp.sendCmpl qp.sendCap = true :=
  valid_of_idx h.cap h.post h.cmpl h.le h.full

/-- The range is open for producing from the counter `P` on, with `n` slots. -/
structure Qp.Open (qp : Qp) (r : Range) (P C n : Nat) : Prop where
  cap : Cap qp.sendCap
  cmpl : Idx qp.sendCap qp.sendCmpl C
  le : C ≤ P
  stands : Stands qp.sendCap r.base r.pos P
  stop : r.stop.toNat = r.pos.toNat + n
  fits : r.stop.toNat ≤ qp.sendCap.toNat
  free : P + n ≤ C + qp.sendCap.toNat

lemma Qp.SendRing.open {P C} (h : qp.SendRing P C) : qp.Open qp.sendPostGet.2 P C
        (min (C + qp.sendCap.toNat - P) (qp.sendCap.toNat - P % qp.sendCap.toNat)) ∧
      (qp.sendPostGet.1 = true ↔ P < C + qp.sendCap.toNat) := by
  obtain ⟨hc, hp, hcm, hle, hfull⟩ := h
  have hmod := Nat.mod_lt P hc.pos
  obtain ⟨hst, hlt⟩ := produce_stands qp.sendCmpl hc hp
  have hstop := produce_stop hc hp hcm hle hfull
  have hslot := hst.slot hc hlt
  refine ⟨⟨hc, hcm, hle, hst, hstop, ?_, by omega⟩, ?_⟩
  · rw [Qp.sendPostGet, hstop, hslot]
    omega
  · rw [Qp.sendPostGet, produce_fst, ne_eq, ← UInt32.toNat_inj, hstop]
    omega

variable {r : Range}

lemma Qp.Open.put {P C n} (h : qp.Open r P C n) : (qp.sendPostPut r.pos r.base).SendRing P C :=
  ⟨h.cap, h.stands.update h.cap, h.cmpl, h.le, by have := h.free; simp only [Qp.sendPostPut]; omega⟩

lemma Qp.Open.succ {P C n} (h : qp.Open r P C (n + 1)) :
    qp.Open { r with pos := r.pos + 1 } (P + 1) C n := by
  have hstop := h.stop
  have hfits := h.fits
  have hfree := h.free
  have hlt := h.cap.lt
  have hnat : (r.pos + 1).toNat = r.pos.toNat + 1 := toNat_succ (by omega)
  exact ⟨h.cap, h.cmpl, by have := h.le; omega, h.stands.succ h.cap (by omega),
    by dsimp only; omega, h.fits, by omega⟩

lemma Qp.Open.slot_add {P C n k} (h : qp.Open r P C n) (hk : k < n) :
    (r.pos + .ofNat k).toNat = r.pos.toNat + k ∧ r.pos.toNat + k = (P + k) % qp.sendCap.toNat := by
  have hstop := h.stop
  have hfits := h.fits
  have h32 := h.cap.lt
  have hnat : (r.pos + .ofNat k).toNat = r.pos.toNat + k := by
    rw [UInt32.toNat_add, UInt32.toNat_ofNat_of_lt' (show k < 2 ^ 32 by omega),
      Nat.mod_eq_of_lt (by omega)]
  refine ⟨hnat, ?_⟩
  rw [← hnat]
  exact (h.stands.add hnat (by omega)).slot h.cap (by omega)

lemma Qp.Open.slot {P C n} (h : qp.Open r P C (n + 1)) :
    r.pos.toNat = P % qp.sendCap.toNat := (h.slot_add (Nat.succ_pos n)).2

lemma Qp.Open.set {P C n} (h : qp.Open r P C n) (pos : UInt32) (wqe : SendWqe) :
    (qp.setSendWqe pos wqe).Open r P C n :=
  ⟨h.cap, h.cmpl, h.le, h.stands, h.stop, h.fits, h.free⟩

lemma Qp.Open.after {P C n} (h : qp.Open r P C (n + 1)) (wqe : SendWqe) (sent : Bool) :
    ∃ k, (qp.setSendWqe r.pos wqe).Open { r with pos := if sent then r.pos else r.pos + 1 }
      (if sent then P else P + 1) C k := by
  cases sent with
  | true => exact ⟨_, h.set _ _⟩
  | false => exact ⟨_, h.succ.set _ _⟩

lemma Qp.SendRing.open_pos {P C} (h : qp.SendRing P C) (hget : qp.sendPostGet.1 = true) :
    0 < min (C + qp.sendCap.toNat - P) (qp.sendCap.toNat - P % qp.sendCap.toNat) := by
  have := h.open.2.1 hget
  have := Nat.mod_lt P h.cap.pos
  omega

lemma Qp.Open.pos {P C n} (h : qp.Open r P C n) (hne : r.pos ≠ r.stop) : 0 < n := by
  have := h.stop
  rw [ne_eq, ← UInt32.toNat_inj] at hne
  omega

/-! ## The loop -/

def Qp.PostFrame (qp qp' : Qp) : Prop :=
  qp' = { qp with sendPost := qp'.sendPost, sendWqe := qp'.sendWqe }

lemma Qp.PostFrame.trans {a b c : Qp} (h : a.PostFrame b) (h' : b.PostFrame c) : a.PostFrame c := by
  rw [Qp.PostFrame] at h h' ⊢
  rw [h', h]

lemma Qp.Open.close {qp qp' : Qp} {P C n d} {pos : UInt32} (h : qp.Open r P C n)
    (hframe : qp.PostFrame qp') (hpos : pos.toNat = r.pos.toNat + d) (hd : d ≤ n) :
    (qp'.sendPostPut pos r.base).SendRing (P + d) C := by
  have hstop := h.stop
  have hfits := h.fits
  have hfree := h.free
  have hle := h.le
  rw [hframe]
  refine ⟨h.cap, (h.stands.add hpos (by omega)).update h.cap, h.cmpl, by omega, ?_⟩
  simp only [Qp.sendPostPut]
  omega

lemma sendIsNonSignaledWrite_eq (wqe : SendWqe) :
    sendIsNonSignaledWrite wqe = !(isSignaled wqe.flags || wqe.opCode != wrRdmaWrite) := by
  simp [sendIsNonSignaledWrite, bne, Bool.and_comm]

variable {dev : Dev} {chan chan' : Chan}

lemma postSendOne_error {umem} {qp qp' : Qp} {pos wr e}
    (h : postSendOne dev umem qp chan pos wr = (.error e, qp', chan')) :
    qp' = qp ∨ ∃ wqe, qp' = qp.setSendWqe pos wqe := by
  simp only [postSendOne] at h
  split at h
  · cases h
    exact .inl rfl
  · split at h
    · cases h
      exact .inr ⟨_, rfl⟩
    · simp only [Prod.mk.injEq] at h
      exact .inr ⟨_, h.2.1.symm⟩

lemma postSendOne_ok {umem} {qp qp' : Qp} {pos wr sent}
    (h : postSendOne dev umem qp chan pos wr = (.ok sent, qp', chan')) :
    Builds qp umem wr (wqeOf qp umem wr) ∧ sent = sendIsNonSignaledWrite (wqeOf qp umem wr) ∧
      ∃ wqe, qp' = qp.setSendWqe pos wqe ∧
        if sent then qpRdmaWrite dev chan (wqeOf qp umem wr) = (.ok (), wqe, chan')
        else wqe = wqeOf qp umem wr ∧ chan' = chan := by
  simp only [postSendOne] at h
  split at h
  · cases h
  next hcheck =>
    split at h
    · cases h
    next hdr hhdr =>
      simp only [postSendWqe] at h
      have hbuild : postSendBuild qp umem wr = postSendFill umem hdr wr.sgList := by
        rw [postSendBuild, hhdr]
      split at h
      · cases h
      next wqe hfill =>
        have hof : wqeOf qp umem wr = wqe := by rw [wqeOf, hbuild, hfill]
        refine ⟨⟨by simpa using hcheck, ?_⟩, ?_⟩
        · rw [hof, hbuild, hfill]
        · rw [hof]
          split at h
          next hdef =>
            cases h
            exact ⟨by rw [sendIsNonSignaledWrite_eq, hdef]; rfl, wqe, rfl, rfl, rfl⟩
          next hdef =>
            split at h
            · cases h
            · rename_i w c hw
              cases h
              rw [Bool.not_eq_true] at hdef
              exact ⟨by rw [sendIsNonSignaledWrite_eq, hdef]; rfl, w, rfl, hw⟩

variable {w : SendWqe} {l : List SendWqe}

@[simp] lemma deferred_cons_true (h : sendIsNonSignaledWrite w = true) :
    deferred (w :: l) = deferred l := by
  simp [deferred, h]

@[simp] lemma deferred_cons_false (h : sendIsNonSignaledWrite w = false) :
    deferred (w :: l) = w :: deferred l := by
  simp [deferred, h]

@[simp] lemma immediate_cons_true (h : sendIsNonSignaledWrite w = true) :
    immediate (w :: l) = w :: immediate l := by
  simp [immediate, h]

@[simp] lemma immediate_cons_false (h : sendIsNonSignaledWrite w = false) :
    immediate (w :: l) = immediate l := by
  simp [immediate, h]

/-- After posting from counter `P` on, the entries of the first `n` requests are in the ring in
order, apart from the writes, which were executed in order. `more` says if entries were left
before. -/
structure Posted (dev : Dev) (umem : UInt64 → Option UInt8) (qp : Qp) (chan : Chan) (more : Bool)
    (wrs : List SendWr) (P C n : Nat) (res : PostResult) : Prop where
  le : n ≤ wrs.length
  bad : res.bad = wrs.drop n
  builds : ∀ wr ∈ wrs.take n, Builds qp umem wr (wqeOf qp umem wr)
  ring : res.qp.SendRing (P + (deferred ((wrs.take n).map (wqeOf qp umem))).length) C
  holds : Holds qp.sendCap.toNat res.qp.sendWqe P (deferred ((wrs.take n).map (wqeOf qp umem)))
  slots : ∀ m, C ≤ m → m < P →
    res.qp.sendWqe (m % qp.sendCap.toNat) = qp.sendWqe (m % qp.sendCap.toNat)
  frame : qp.PostFrame res.qp
  all : res.rc = .ok () → n = wrs.length
  writes : ∃ chan', runWrites dev chan (immediate ((wrs.take n).map (wqeOf qp umem))) = some chan' ∧
    (res.rc = .ok () → res.chan = chan')
  flag : res.hasDeferredWork = false →
    more = false ∧ deferred ((wrs.take n).map (wqeOf qp umem)) = []

lemma Posted.refused {umem} {qp qp' : Qp} {chan : Chan} {wrs r P C k e} (h : qp.Open r P C k)
    (hqp : qp' = qp ∨ (0 < k ∧ ∃ wqe, qp' = qp.setSendWqe r.pos wqe)) (chan' : Chan)
    (imm more : Bool) :
    Posted dev umem qp chan more wrs P C 0
      ⟨.error e, wrs, qp'.sendPostPut r.pos r.base, chan', imm, more⟩ := by
  have hopen : qp'.Open r P C k := by
    obtain rfl | ⟨-, wqe, rfl⟩ := hqp
    · exact h
    · exact h.set _ _
  refine ⟨Nat.zero_le _, rfl, nofun, hopen.put, Holds.nil, ?_, ?_, nofun, ⟨chan, rfl, nofun⟩,
    fun h => ⟨h, rfl⟩⟩
  · intro m hC hP
    obtain rfl | ⟨hk, wqe, rfl⟩ := hqp
    · rfl
    · obtain ⟨k, rfl⟩ := Nat.exists_eq_succ_of_ne_zero (Nat.pos_iff_ne_zero.1 hk)
      have hfree := h.free
      refine Function.update_of_ne ?_ _ _
      rw [h.slot]
      exact slot_ne hP (by omega)
  · obtain rfl | ⟨-, wqe, rfl⟩ := hqp <;> rfl

lemma Posted.of_put {umem} {chan : Chan} {more wrs P C n pos base res}
    (h : Posted dev umem (qp.sendPostPut pos base) chan more wrs P C n res) :
    Posted dev umem qp chan more wrs P C n res :=
  have hput : qp.PostFrame (qp.sendPostPut pos base) := rfl
  ⟨h.le, h.bad, h.builds, h.ring, h.holds, h.slots, hput.trans h.frame, h.all, h.writes, h.flag⟩

lemma Posted.cons {umem} {qp qp' : Qp} {more wr wrs P C n res sent pos}
    (hone : postSendOne dev umem qp chan pos wr = (.ok sent, qp', chan'))
    (hpos : pos.toNat = P % qp.sendCap.toNat) (hC : C ≤ P) (hP : P < C + qp.sendCap.toNat)
    (h : Posted dev umem qp' chan' (more || !sent) wrs (if sent then P else P + 1) C n res) :
    Posted dev umem qp chan more (wr :: wrs) P C (n + 1) res := by
  obtain ⟨hbuild, hsent, wqe, rfl, hw⟩ := postSendOne_ok hone
  have hframe : qp.PostFrame (qp.setSendWqe pos wqe) := rfl
  have hof : wqeOf (qp.setSendWqe pos wqe) umem = wqeOf qp umem := rfl
  have hslots : ∀ m, C ≤ m → m < P →
      res.qp.sendWqe (m % qp.sendCap.toNat) = qp.sendWqe (m % qp.sendCap.toNat) := by
    intro m hm hmP
    refine (h.slots m hm (by split <;> omega)).trans (Function.update_of_ne ?_ _ _)
    rw [hpos, Qp.setSendWqe_sendCap]
    exact slot_ne hmP (by omega)
  obtain ⟨chan1, hrun, hchan⟩ := h.writes
  rw [hof] at hrun
  have hbuilds : ∀ w ∈ (wr :: wrs).take (n + 1), Builds qp umem w (wqeOf qp umem w) := by
    intro w hmem
    obtain rfl | hmem := List.mem_cons.1 hmem
    · exact hbuild
    · exact h.builds w hmem
  have hring := h.ring
  have hholds := h.holds
  have hflag := h.flag
  rw [hof] at hring hholds hflag
  rw [Bool.or_eq_false_iff] at hflag
  cases sent with
  | true =>
    have hcons : deferred (((wr :: wrs).take (n + 1)).map (wqeOf qp umem)) =
        deferred ((wrs.take n).map (wqeOf qp umem)) := deferred_cons_true hsent.symm
    refine ⟨Nat.succ_le_succ h.le, h.bad, hbuilds, ?_, ?_, hslots, hframe.trans h.frame,
      fun hok => congrArg Nat.succ (h.all hok), ⟨chan1, ?_, hchan⟩, fun hf => ?_⟩
    · rw [hcons]
      exact hring
    · rw [hcons]
      exact hholds
    · rw [List.take_succ_cons, List.map_cons, immediate_cons_true hsent.symm, runWrites, hw]
      exact hrun
    · rw [hcons]
      exact ⟨(hflag hf).1.1, (hflag hf).2⟩
  | false =>
    obtain ⟨rfl, rfl⟩ := hw
    have hcons : deferred (((wr :: wrs).take (n + 1)).map (wqeOf qp umem)) =
        wqeOf qp umem wr :: deferred ((wrs.take n).map (wqeOf qp umem)) :=
      deferred_cons_false hsent.symm
    refine ⟨Nat.succ_le_succ h.le, h.bad, hbuilds, ?_, ?_, hslots, hframe.trans h.frame,
      fun hok => congrArg Nat.succ (h.all hok), ⟨chan1, ?_, hchan⟩, fun hf => ?_⟩
    · rw [hcons, List.length_cons, Nat.add_comm _ 1, ← Nat.add_assoc]
      exact hring
    · rw [hcons, holds_cons]
      refine ⟨(h.slots P hC (Nat.lt_succ_self P)).trans ?_, hholds⟩
      rw [Qp.setSendWqe_sendCap, ← hpos, Qp.setSendWqe_sendWqe]
      exact Function.update_self _ _ _
    · rw [List.take_succ_cons, List.map_cons, immediate_cons_false hsent.symm]
      exact hrun
    · cases (hflag hf).1.2

lemma postSendLoop_spec {umem} {wrs : List SendWr} {P C k} (chan : Chan) (imm more : Bool)
    (h : qp.Open r P C k) (hk : wrs ≠ [] → 0 < k) :
    ∃ n, Posted dev umem qp chan more wrs P C n (postSendLoop dev umem wrs r qp chan imm more) := by
  induction wrs generalizing r qp P k chan imm more with
  | nil =>
    exact ⟨0, Nat.le_refl _, rfl, nofun, h.put, Holds.nil, fun _ _ _ => rfl, rfl, fun _ => rfl,
      ⟨chan, rfl, fun _ => rfl⟩, fun hf => ⟨hf, rfl⟩⟩
  | cons wr rest ih =>
    have hfree := h.free
    have hk := hk nofun
    simp only [postSendLoop]
    split
    next e qp' chan' hone =>
      exact ⟨0, .refused h ((postSendOne_error hone).imp id fun hw => ⟨hk, hw⟩) _ _ _⟩
    next sent qp' chan' hone =>
      obtain ⟨k, rfl⟩ := Nat.exists_eq_succ_of_ne_zero (Nat.pos_iff_ne_zero.1 hk)
      obtain ⟨-, -, wqe, rfl, -⟩ := postSendOne_ok hone
      obtain ⟨k', hopen⟩ := h.after wqe sent
      have hslot := h.slot
      have key : ∀ res, (∃ n, Posted dev umem (qp.setSendWqe r.pos wqe) chan' (more || !sent) rest
          (if sent then P else P + 1) C n res) →
          ∃ n, Posted dev umem qp chan more (wr :: rest) P C n res :=
        fun res ⟨n, hn⟩ => ⟨n + 1, .cons hone hslot h.le (by omega) hn⟩
      refine key _ ?_
      generalize (if sent = true then P else P + 1) = P' at hopen ⊢
      generalize (if sent = true then r.pos else r.pos + 1) = pos' at hopen ⊢
      split
      · split
        · exact ⟨0, .refused hopen (.inl rfl) _ _ _⟩
        next r' hr' =>
          have hpos := hopen.put.open_pos (congrArg Prod.fst hr')
          have hopen' := hopen.put.open.1
          rw [hr'] at hopen'
          obtain ⟨n, hn⟩ := ih chan' (imm || sent) (more || !sent) hopen' fun _ => hpos
          exact ⟨n, hn.of_put⟩
      next hcont =>
        refine ih _ _ _ hopen fun hne => ?_
        rw [Bool.and_eq_true, not_and, beq_iff_eq] at hcont
        exact hopen.pos (hcont (by simpa using hne))

lemma postSendLocked_spec {umem} {P C} (chan : Chan) (wrs : List SendWr) (h : qp.SendRing P C) :
    ∃ n, Posted dev umem qp chan false wrs P C n (postSendLocked dev umem qp chan wrs) := by
  have hopen := h.open.1
  simp only [postSendLocked]
  split
  next hempty =>
    rw [List.isEmpty_iff] at hempty
    subst hempty
    exact ⟨0, Nat.le_refl _, rfl, nofun, h, Holds.nil, fun _ _ _ => rfl, rfl, fun _ => rfl,
      ⟨chan, rfl, fun _ => rfl⟩, fun _ => ⟨rfl, rfl⟩⟩
  · split
    · exact ⟨0, Nat.zero_le _, rfl, nofun, h, Holds.nil, fun _ _ _ => rfl, rfl, nofun,
        ⟨chan, rfl, nofun⟩, fun _ => ⟨rfl, rfl⟩⟩
    next r hr =>
      have hpos := h.open_pos (congrArg Prod.fst hr)
      rw [hr] at hopen
      exact postSendLoop_spec chan false false hopen fun _ => hpos

end Ntrdma
