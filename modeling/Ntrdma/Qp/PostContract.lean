import Ntrdma.Qp.SendWork
import Ntrdma.Qp.Order
import Ntrdma.Recv.Post

/-!
# The contract of posting work requests

A caller that gets an error from `ntrdma_post_send` or `ntrdma_post_recv` goes on from `*bad`: the
requests before it were accepted, and it and those after it were not. `SendContract` and
`RecvContract` state this in full for the state a call leaves behind. `post_contract_iff` says when
both hold: `ntrdma_post_send` does not set `*bad` if the queue pair is not ready to send.
-/

namespace Ntrdma
open Lib Ntrdma.Ring

/-! ## Sends that are accepted -/

def postSendTaken (dev : Dev) (umem : UInt64 → Option UInt8) : List SendWr → Range → Qp → Chan → Nat
  | [], _, _, _ => 0
  | wr :: rest, r, qp, chan =>
    match postSendOne dev umem qp chan r.pos wr with
    | (.error _, _, _) => 0
    | (.ok sent, qp, chan) =>
      let r := { r with pos := if sent then r.pos else r.pos + 1 }
      if !rest.isEmpty && r.pos == r.stop then
        let qp := qp.sendPostPut r.pos r.base
        match qp.sendPostGet with
        | (false, _) => 1
        | (true, r) => postSendTaken dev umem rest r qp chan + 1
      else postSendTaken dev umem rest r qp chan + 1

def postSendAccepted (dev : Dev) (umem : UInt64 → Option UInt8) (qp : Qp) (chan : Chan)
    (wrs : List SendWr) : Nat :=
  if isStateSendReady qp.state then
    if wrs.isEmpty then 0
    else
      match qp.sendPostGet with
      | (false, _) => 0
      | (true, r) => postSendTaken dev umem wrs r qp chan
  else 0

section
variable {dev : Dev} {umem : UInt64 → Option UInt8} {qp : Qp} {chan : Chan} {wrs : List SendWr}

/-- The first `n` requests were accepted: `*bad` points behind them, and the writes among them were
issued. -/
structure Taken (dev : Dev) (umem : UInt64 → Option UInt8) (qp : Qp)
    (chan : Chan) (wrs : List SendWr)
    (n : Nat) (res : PostResult) : Prop where
  le : n ≤ wrs.length
  bad : res.bad = wrs.drop n
  first : res.rc ≠ .ok () → n < wrs.length
  writes : ∃ chan', runWrites dev chan (immediate ((wrs.take n).map (wqeOf qp umem))) = some chan' ∧
    chan'.Grows res.chan

lemma Taken.none {res : PostResult} (hbad : res.bad = wrs) (hne : res.rc ≠ .ok () → wrs ≠ [])
    (hgrows : chan.Grows res.chan) : Taken dev umem qp chan wrs 0 res :=
  ⟨Nat.zero_le _, hbad, fun h => List.length_pos_iff.2 (hne h), chan, rfl, hgrows⟩

variable {n : Nat}

lemma Taken.of_put {pos base : UInt32} {res}
    (h : Taken dev umem (qp.sendPostPut pos base) chan wrs n res) :
    Taken dev umem qp chan wrs n res :=
  ⟨h.le, h.bad, h.first, h.writes⟩

lemma Taken.cons {qp' : Qp} {chan' : Chan} {wr : SendWr} {pos : UInt32} {sent : Bool} {res}
    (hone : postSendOne dev umem qp chan pos wr = (.ok sent, qp', chan'))
    (h : Taken dev umem qp' chan' wrs n res) : Taken dev umem qp chan (wr :: wrs) (n + 1) res := by
  obtain ⟨-, hsent, wqe, rfl, hw⟩ := postSendOne_ok hone
  obtain ⟨chan1, hrun, hgrows⟩ := h.writes
  refine ⟨Nat.succ_le_succ h.le, h.bad, fun hrc =>
    Nat.succ_lt_succ (h.first hrc), chan1, ?_, hgrows⟩
  rw [List.take_succ_cons, List.map_cons]
  cases sent with
  | true =>
    rw [immediate_cons_true hsent.symm, runWrites, hw]
    exact hrun
  | false =>
    obtain ⟨-, rfl⟩ := hw
    rw [immediate_cons_false hsent.symm]
    exact hrun

lemma postSendOne_grows (pos : UInt32) (wr : SendWr) :
    chan.Grows (postSendOne dev umem qp chan pos wr).2.2 := by
  simp only [postSendOne, postSendWqe]
  split
  · exact .refl chan
  · split
    · exact .refl chan
    next hdr hhdr =>
      split
      · exact .refl chan
      next wqe hfill =>
        have hgrows := qpRdmaWrite_grows dev chan wqe
        split
        · exact .refl chan
        · split <;> rename_i hwrite <;> rw [hwrite] at hgrows <;> exact hgrows

lemma postSendLoop_taken (r : Range) (imm more : Bool) :
    Taken dev umem qp chan wrs (postSendTaken dev umem wrs r qp chan)
      (postSendLoop dev umem wrs r qp chan imm more) := by
  induction wrs generalizing r qp chan imm more with
  | nil => exact .none rfl (fun h => absurd rfl h) (.refl chan)
  | cons wr rest ih =>
    have hgrows := @postSendOne_grows dev umem qp chan r.pos wr
    rcases hone : postSendOne dev umem qp chan r.pos wr with ⟨e | sent, qp', chan'⟩
    · rw [hone] at hgrows
      simp only [postSendTaken, postSendLoop, hone]
      exact .none rfl (fun _ => List.cons_ne_nil _ _) hgrows
    · simp only [postSendTaken, postSendLoop, hone]
      generalize (if sent = true then r.pos else r.pos + 1) = pos
      by_cases hend : (!rest.isEmpty && pos == r.stop) = true
      · rw [if_pos hend, if_pos hend]
        rw [Bool.and_eq_true, Bool.not_eq_true', List.isEmpty_eq_false_iff] at hend
        rcases (qp'.sendPostPut pos r.base).sendPostGet with ⟨_ | _, r'⟩
        · exact .cons hone (.none rfl (fun _ => hend.1) (.refl chan'))
        · exact .cons hone (ih _ _ _).of_put
      · rw [if_neg hend, if_neg hend]
        exact .cons hone (ih _ _ _)

lemma postSendLocked_taken (hready : isStateSendReady qp.state = true) :
    Taken dev umem qp chan wrs (postSendAccepted dev umem qp chan wrs)
      (postSendLocked dev umem qp chan wrs) := by
  rw [postSendAccepted, if_pos hready, postSendLocked]
  split
  · exact .none rfl (fun h => absurd rfl h) (.refl chan)
  next hne =>
    rcases qp.sendPostGet with ⟨_ | _, r⟩
    · exact .none rfl (fun _ => mt List.isEmpty_iff.2 hne) (.refl chan)
    · exact postSendLoop_taken _ _ _

end

lemma additionalWork_grows (dev : Dev) (qp : Qp) (rqp : Rqp) (chan : Chan) (more : Bool) :
    chan.Grows (additionalWork dev qp rqp chan more).chan := by
  have hloop : ∀ n (qp : Qp) rqp (chan : Chan),
      chan.Grows (additionalWorkLoop dev n qp rqp chan).chan := by
    intro n
    induction n with
    | zero => exact fun _ _ chan => .refl chan
    | succ _ ih =>
      intro qp rqp chan
      rw [additionalWorkLoop]
      split
      · exact (sendWork_grows dev qp rqp chan).trans (ih _ _ _)
      · exact sendWork_grows dev qp rqp chan
  rw [additionalWork]
  split
  · exact hloop 3 qp rqp chan
  · exact .refl chan

/-! ## The contract -/

/-- The contract of `ntrdma_post_send`; `bad` is what `*bad` was before the call. -/
structure SendContract (dev : Dev) (umem : UInt64 → Option UInt8) (qp : Qp) (chan : Chan)
    (wrs bad : List SendWr) (P C n : Nat) (res : PostSend) : Prop where
  le : n ≤ wrs.length
  /-- `*bad` is the first request that was not accepted. -/
  bad : res.bad.getD bad = wrs.drop n
  all : res.rc = .ok () → n = wrs.length
  first : res.rc ≠ .ok () → wrs ≠ [] → n < wrs.length
  builds : ∀ wr ∈ wrs.take n, Builds qp umem wr (wqeOf qp umem wr)
  /-- The sends that are deferred take a slot each, and nothing else does. -/
  ring : res.qp.SendRing (P + (deferred ((wrs.take n).map (wqeOf qp umem))).length) C
  slots : ∀ k (wqe : SendWqe), (deferred ((wrs.take n).map (wqeOf qp umem)))[k]? = some wqe →
    wqe.SameRequest (res.qp.sendWqe ((P + k) % qp.sendCap.toNat))
  kept : ∀ m, C ≤ m → m < P →
    (qp.sendWqe (m % qp.sendCap.toNat)).SameRequest (res.qp.sendWqe (m % qp.sendCap.toNat))
  /-- The other ones were executed in order, and their requests issued. -/
  writes : ∃ chan', runWrites dev chan (immediate ((wrs.take n).map (wqeOf qp umem))) = some chan' ∧
    chan'.Grows res.chan

/-- The contract of `ntrdma_post_recv`, for a ring with entries from counter `M` to `P`. -/
structure RecvContract (dev : Dev) (sgCap : UInt32) (qp : Qp) (wrs : List RecvWr) (M P n : Nat)
    (res : PostRecv) : Prop where
  le : n ≤ wrs.length
  /-- `*bad` is the first request that was not accepted. -/
  bad : res.bad = wrs.drop n
  all : res.rc = .ok () → n = wrs.length
  first : res.rc ≠ .ok () → wrs ≠ [] → n < wrs.length
  /-- The requests that are accepted take a slot each, and nothing else does. -/
  post : Idx qp.recvCap res.work.qp.recvPost (P + n)
  full : P + n ≤ M + qp.recvCap.toNat
  entries : ∀ k wr, (wrs.take n)[k]? = some wr → ∃ alloc wqe, ibRecvToWqe dev sgCap alloc wqe wr =
    (.ok (), res.work.qp.recvWqe ((P + k) % qp.recvCap.toNat))
  kept : ∀ m, M ≤ m → m < P →
    res.work.qp.recvWqe (m % qp.recvCap.toNat) = qp.recvWqe (m % qp.recvCap.toNat)

section
variable (dev : Dev) (umem : UInt64 → Option UInt8) {qp : Qp} (rqp : Rqp) (chan : Chan)
  (wrs bad : List SendWr) {P C : Nat}

lemma Qp.SendRing.worked {qp qp' : Qp} (h : qp.SendRing P C) (hwork : qp.Worked qp') :
    qp'.SendRing P C := by
  rw [hwork.frame]
  exact ⟨h.cap, h.post, h.cmpl, h.le, h.full⟩

lemma postSend_ready (hring : qp.SendRing P C) (hready : isStateSendReady qp.state = true) :
    SendContract dev umem qp chan wrs bad P C (postSendAccepted dev umem qp chan wrs)
      (postSend dev umem qp rqp chan wrs) := by
  have htaken : Taken dev umem qp chan wrs _ _ := postSendLocked_taken hready
  obtain ⟨n, hposted⟩ := postSendLocked_spec chan wrs hring
  -- both count the requests before `*bad`
  obtain rfl : n = postSendAccepted dev umem qp chan wrs := by
    have hlen := congrArg List.length (hposted.bad.symm.trans htaken.bad)
    have hn := hposted.le
    have hle := htaken.le
    rw [List.length_drop, List.length_drop] at hlen
    omega
  rw [postSend, if_pos hready]
  generalize postSendLocked dev umem qp chan wrs = res at htaken hposted
  have hwork := additionalWork_worked dev res.qp rqp res.chan res.hasDeferredWork
  have hgrows := additionalWork_grows dev res.qp rqp res.chan res.hasDeferredWork
  obtain ⟨chan', hrun, hgrows'⟩ := htaken.writes
  refine ⟨hposted.le, hposted.bad, hposted.all, fun hrc _ => htaken.first hrc, hposted.builds,
    hposted.ring.worked hwork, fun k wqe hk => ?_, fun m hC hP => ?_, chan',
      hrun, hgrows'.trans hgrows⟩
  · have hsame := hwork.same ((P + k) % qp.sendCap.toNat)
    rw [hposted.holds k wqe hk] at hsame
    exact hsame
  · have hsame := hwork.same (m % qp.sendCap.toNat)
    rw [hposted.slots m hC hP] at hsame
    exact hsame

lemma postSend_notReady (hring : qp.SendRing P C) (hready : isStateSendReady qp.state = false) :
    SendContract dev umem qp chan wrs bad P C (postSendAccepted dev umem qp chan wrs)
      (postSend dev umem qp rqp chan wrs) ↔ bad = wrs := by
  have hnot : ¬ isStateSendReady qp.state = true := by
    rw [hready]
    exact Bool.false_ne_true
  rw [postSend, postSendAccepted, if_neg hnot, if_neg hnot]
  constructor
  · exact fun h => h.bad
  · intro hbad
    refine ⟨Nat.zero_le _, hbad, fun h => ?_, fun _ hne => List.length_pos_iff.2 hne, ?_, hring, ?_,
      fun _ _ _ => .refl _, chan, rfl, .refl chan⟩
    · cases h
    · exact fun wr h => absurd h List.not_mem_nil
    · exact fun k wqe h => absurd h (by simp [deferred])

end

section
variable {dev : Dev} {sgCap : UInt32} {qp : Qp} {wrs : List RecvWr}

variable {alloc : Nat → Nat → ShadowAlloc}

lemma postRecvLoop_bad {r : Range} {rc bad qp'}
    (h : postRecvLoop dev sgCap wrs alloc r qp = (rc, bad, qp')) (hrc : rc ≠ .ok ()) :
    bad ≠ [] := by
  induction wrs generalizing alloc r qp with
  | nil =>
    cases h
    exact absurd rfl hrc
  | cons _ _ ih =>
    rw [postRecvLoop] at h
    split at h
    · cases h
      exact List.cons_ne_nil _ _
    · dsimp only at h
      split at h
      next hend =>
        split at h
        · cases h
          rintro rfl
          cases hend
        · exact ih h
      · exact ih h

lemma postRecvWrs_bad (hrc : (postRecvWrs dev sgCap alloc qp wrs).1 ≠ .ok ()) :
    (postRecvWrs dev sgCap alloc qp wrs).2.1 ≠ [] := by
  simp only [postRecvWrs] at hrc ⊢
  split
  next hempty =>
    rw [if_pos hempty] at hrc
    exact absurd rfl hrc
  next hne =>
    rw [if_neg hne] at hrc
    split
    · exact mt List.isEmpty_iff.2 hne
    next r hget =>
      rw [hget] at hrc
      exact postRecvLoop_bad rfl hrc

variable {M K D P : Nat}

lemma recvWork_post (chan : Chan) (h : qp.RecvRing M K D P) :
    (recvWork qp chan).qp.recvPost = qp.recvPost ∧ (recvWork qp chan).qp.recvWqe = qp.recvWqe := by
  cases hready : isStateRecvReady qp.state with
  | false =>
    rw [recvWork_notReady chan hready]
    exact ⟨rfl, rfl⟩
  | true =>
    obtain ⟨-, hwork⟩ | ⟨-, D', hsent⟩ := recvWork_ready chan h hready
    · rw [hwork]
      exact ⟨rfl, rfl⟩
    · rw [hsent.frame]
      exact ⟨rfl, rfl⟩

lemma postRecv_contract (alloc : Nat → Nat → ShadowAlloc) (chan : Chan)
    (hring : qp.RecvRing M K D P) :
    ∃ n, RecvContract dev sgCap qp wrs M P n (postRecv dev sgCap alloc qp chan wrs) := by
  simp only [postRecv]
  split
  · have hfull := hring.full
    refine ⟨0, Nat.zero_le _, rfl, fun h => ?_, fun _ hne => List.length_pos_iff.2 hne, hring.post,
      hfull, fun k wr h => ?_, fun _ _ _ => rfl⟩
    · cases h
    · cases h
  · obtain ⟨n, hposted⟩ := postRecvWrs_spec dev sgCap alloc wrs hring
    have hleft : (postRecvWrs dev sgCap alloc qp wrs).1 ≠ .ok () → n < wrs.length := by
      intro hrc
      have hbad := postRecvWrs_bad hrc
      rw [hposted.bad, ne_eq, List.drop_eq_nil_iff] at hbad
      omega
    have hwork := recvWork_post chan (hposted.ring hring)
    generalize postRecvWrs dev sgCap alloc qp wrs = res at hposted hleft hwork
    obtain ⟨rc, bad, qp'⟩ := res
    refine ⟨n, hposted.le, hposted.bad, hposted.all, fun hrc _ =>
      hleft hrc, ?_, hposted.full, ?_, ?_⟩
    · dsimp only at hwork ⊢
      rw [hwork.1]
      exact hposted.post
    · dsimp only at hwork ⊢
      rw [hwork.2]
      exact hposted.entries
    · dsimp only at hwork ⊢
      rw [hwork.2]
      exact hposted.slots

end

/-- Both calls keep the contract exactly if the queue pair is ready or `*bad` was the whole list. -/
theorem post_contract_iff (dev : Dev) (umem : UInt64 → Option UInt8) {qp : Qp} (rqp : Rqp)
    (chan : Chan) (wrs bad : List SendWr) (sgCap : UInt32) (alloc : Nat → Nat → ShadowAlloc)
    (recvWrs : List RecvWr) {P C M K D R : Nat} (hsend : qp.SendRing P C)
    (hrecv : qp.RecvRing M K D R) :
    (SendContract dev umem qp chan wrs bad P C (postSendAccepted dev umem qp chan wrs)
        (postSend dev umem qp rqp chan wrs) ∧
      ∃ n, RecvContract dev sgCap qp recvWrs M R n (postRecv dev sgCap alloc qp chan recvWrs)) ↔
      isStateSendReady qp.state = true ∨ bad = wrs := by
  rw [and_iff_left (postRecv_contract alloc chan hrecv)]
  cases hready : isStateSendReady qp.state with
  | true => exact iff_of_true (postSend_ready dev umem rqp chan wrs bad hsend hready) (.inl rfl)
  | false =>
    rw [postSend_notReady dev umem rqp chan wrs bad hsend hready, or_iff_right Bool.false_ne_true]

def emptyWr : SendWr := ⟨7, wrRdmaWrite.toUInt32, sendSignaled, 0, 0x20, 2, []⟩

theorem post_contract_ready :
    let qp := Qp.fresh 4
    SendContract smallDev (fun _ => none) qp freshChan [emptyWr] [] 0 0
        (postSendAccepted smallDev (fun _ => none) qp freshChan [emptyWr])
        (postSend smallDev (fun _ => none) qp (.fresh 4) freshChan [emptyWr]) ∧
      ∃ n, RecvContract smallDev 4 qp [⟨8, []⟩] 0 0 n
        (postRecv smallDev 4 (fun _ _ => .noShadow) qp freshChan [⟨8, []⟩]) := by
  intro qp
  have hsend : qp.SendRing 0 0 := ⟨⟨by decide, by decide⟩, rfl, rfl, Nat.le_refl 0, Nat.zero_le _⟩
  have hrecv : qp.RecvRing 0 0 0 0 :=
    ⟨⟨by decide, by decide⟩, rfl, rfl, rfl, rfl, Nat.le_refl 0, Nat.le_refl 0,
      Nat.le_refl 0, Nat.zero_le _⟩
  exact (post_contract_iff _ _ _ _ _ _ _ _ _ hsend hrecv).2 (.inl rfl)

/-- A queue pair in the error state refuses the request without setting `*bad`, which was null. -/
theorem postSend_leaves_bad :
    let qp := { Qp.fresh 4 with state := .err }
    let res := postSend smallDev (fun _ => none) qp (.fresh 4) freshChan [emptyWr]
    qp.SendRing 0 0 ∧ res.rc = .error .einval ∧ res.bad = none ∧
      ∀ n, ¬ SendContract smallDev (fun _ => none) qp freshChan [emptyWr] [] 0 0 n res := by
  refine ⟨⟨⟨by decide, by decide⟩, rfl, rfl, Nat.le_refl 0, Nat.zero_le _⟩, rfl, rfl, fun n h => ?_⟩
  have hfirst := h.first (by decide) (List.cons_ne_nil _ _)
  have hnil : [emptyWr].drop n = [] := h.bad.symm
  rw [List.drop_eq_nil_iff] at hnil
  omega

end Ntrdma
