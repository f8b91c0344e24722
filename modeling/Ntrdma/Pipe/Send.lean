import Ntrdma.Pipe.Basic

/-!
# The order of the sends

One invariant of both hosts and of all that is under way between them (`Pipe.SendInv`): A's ring
holds what was posted, B's copy of the ring mirrors what A sent, and A's completion ring mirrors
what B wrote.
-/

namespace Ntrdma
open Lib Ntrdma.Ring

/-! ## Entries that are posted and processed -/

variable {qp : Qp} {wqe : SendWqe}

lemma Builds.code {umem : UInt64 → Option UInt8} {wr : SendWr} (h : Builds qp umem wr wqe) :
    (wrCodePushData wqe.opCode || wrCodePullData wqe.opCode) = true := by
  have hcheck := h.1
  simp only [postSendCheck, Bool.and_eq_true, decide_eq_true_eq, UInt32.le_iff_toNat_le] at hcheck
  have hle : wr.opcode.toNat ≤ 4 := hcheck.2
  rw [h.spec.2.1]
  have hcases : wr.opcode = 0 ∨ wr.opcode = 1 ∨ wr.opcode = 2 ∨ wr.opcode = 3 ∨ wr.opcode = 4 := by
    simp only [← UInt32.toNat_inj, UInt32.reduceToNat]
    omega
  rcases hcases with h0 | h0 | h0 | h0 | h0 <;> rw [h0] <;> rfl

lemma rqpCompletion_ulpHandle (cqe : Cqe)
    (h : (wrCodePushData wqe.opCode || wrCodePullData wqe.opCode) = true) :
    (rqpCompletion cqe wqe).ulpHandle = wqe.ulpHandle := by
  rw [rqpCompletion]
  split
  · rfl
  next hpull =>
    rw [if_pos (by simpa [hpull] using h)]
    rfl

lemma Executed.opStatus {wqe wqe' : SendWqe} (h : Executed wqe wqe') : wqe'.opStatus = 0 := by
  have hcore := congrArg SendWqe.opStatus h.core
  exact Eq.trans hcore h.status

lemma SendWorkDone.portion {dev : Dev} {rqp : Rqp} {chan : Chan} {D P n : Nat} {res : SendWork}
    {wqes : List SendWqe} {s' : SendLoop} (h : SendWorkDone dev qp rqp chan n res wqes s')
    (htake : Taking qp.sendCap qp.sendProdGet D P)
    (hn : n = min (P - D) (qp.sendCap.toNat - D % qp.sendCap.toNat)) :
    Ntrdma.portion res.qp.sendWqe qp.sendProdGet.pos s'.pos = wqes := by
  have hend := (h.end htake hn).1
  have hlen := h.length
  have hstop := htake.stop
  have hlt := qp.sendProdGet.stop.toNat_lt
  refine List.ext_getElem? fun k => ?_
  rcases Nat.lt_or_ge k n with hk | hk
  · have hwqe := List.getElem?_eq_getElem (show k < wqes.length by omega)
    have hslot := ((h.run.slots (by dsimp only; omega)).2.2 k _ hwqe).1
    have hget := List.getElem?_eq_getElem
      (show k < (Ntrdma.portion res.qp.sendWqe qp.sendProdGet.pos s'.pos).length by
        rw [portion_length]; omega)
    rw [hwqe, hget, (portion_getElem? hget).2, h.qp_eq]
    exact congrArg some hslot
  · rw [List.getElem?_eq_none (by rw [portion_length]; omega), List.getElem?_eq_none (by omega)]

section
variable {dev : Dev} {qp : Qp} {rqp : Rqp} {mem : UInt64 → UInt8} {n C P : Nat}
    {res : RqpWork} {s' : RqpLoop}

lemma RqpWorkDone.sends (h : RqpWorkDone dev qp rqp mem n res s')
    (htake : Taking rqp.sendCap rqp.sendConsGet C P)
    (hn : n ≤ min (P - C) (rqp.sendCap.toNat - C % rqp.sendCap.toNat)) :
    s'.pos.toNat = rqp.sendConsGet.pos.toNat + n ∧ Idx rqp.sendCap res.rqp.sendCons (C + n) ∧
      res.rqp = { rqp with sendCons := res.rqp.sendCons, sendCqe := res.rqp.sendCqe } ∧
      ∀ k < n, res.rqp.sendCqe (rqp.sendConsGet.pos.toNat + k) =
        rqpCompletion (rqp.sendCqe (rqp.sendConsGet.pos.toNat + k))
          (rqp.sendWqe (rqp.sendConsGet.pos.toNat + k)) := by
  have hstop := htake.stop
  have hle := htake.stop_le
  have h32 := htake.hcap.lt
  obtain ⟨hpos, -, hrqp, -, hslots⟩ := h.run.sends (by dsimp only; omega)
  dsimp only at hpos hrqp hslots
  have hcap : s'.rqp.sendCap = rqp.sendCap := by rw [hrqp]
  refine ⟨hpos, ?_, ?_, fun k hk => ?_⟩
  · rw [h.rqp_eq, Rqp.sendConsPut, hcap]
    exact (htake.stands.add hpos (by omega)).update htake.hcap
  · rw [h.rqp_eq, Rqp.sendConsPut, hrqp]
  · rw [h.rqp_eq]
    exact hslots k hk

end

/-! ## What holds at every step -/

def Pipe.entries (s : Pipe) : List SendWqe := s.sent ++ s.posted.drop s.sent.length

/-- The sends of a pipe that started at the counter `start`: A saw completions up to `K`, and B saw
sends up to `B`. -/
structure Pipe.SendInv (s : Pipe) (start K B : Nat) : Prop where
  polling : ∃ M, (s.polling K).Inv start M
  abort : s.aQp.sendAbort = false
  same : s.bRqp.sendCap = s.aQp.sendCap
  codes : ∀ wqe ∈ s.posted, (wrCodePushData wqe.opCode || wrCodePullData wqe.opCode) = true
  prod : Idx s.aQp.sendCap s.aQp.sendProd (start + s.sent.length)
  sent_le : s.sent.length ≤ s.posted.length
  executed : ∀ (i : Nat) (wqe : SendWqe), s.sent[i]? = some wqe →
    ∃ wqe0, s.posted[i]? = some wqe0 ∧ Executed wqe0 wqe
  ring : Shows s.aQp.sendCap.toNat (logFrom start s.entries) s.aQp.sendWqe (start + s.polled.length)
    (start + s.posted.length)
  sends : Mirror s.aQp.sendCap.toNat (Idx s.aQp.sendCap) (logFrom start s.sent)
    s.bRqp.sendWqe s.bRqp.sendProd
    s.sends (start + s.done.length) B (start + s.sent.length)
  cons : Idx s.aQp.sendCap s.bRqp.sendCons (start + s.done.length)
  processed : ∀ (i : Nat) (wqe : SendWqe) (cqe : Cqe), s.done[i]? = some (wqe, cqe) →
    s.sent[i]? = some wqe ∧ cqe.ulpHandle = wqe.ulpHandle
  cqes : Mirror s.aQp.sendCap.toNat (Idx s.aQp.sendCap)
    (logFrom start (s.done.map Prod.snd)) s.aQp.sendCqe
    s.aQp.sendCons s.cqes (start + s.polled.length) K (start + s.done.length)
  completed : ∀ (i : Nat) (item : SendRecord), s.polled[i]? = some item →
    item.pos.toNat = (start + i) % s.aQp.sendCap.toNat ∧ ∃ wqe, s.done[i]? = some (wqe, item.cqe)

section
variable {s : Pipe} {start K B : Nat}

variable {i : Nat}

lemma Pipe.entries_sent (hi : i < s.sent.length) : s.entries[i]? = s.sent[i]? :=
  List.getElem?_append_left hi

lemma Pipe.entries_posted (hi : s.sent.length ≤ i) : s.entries[i]? = s.posted[i]? := by
  rw [Pipe.entries, List.getElem?_append_right hi, List.getElem?_drop, Nat.add_sub_cancel' hi]

lemma Pipe.SendInv.order (h : s.SendInv start K B) :
    start + s.polled.length ≤ K ∧ K ≤ start + s.done.length ∧ start + s.done.length ≤ B ∧
      B ≤ start + s.sent.length ∧ s.sent.length ≤ s.posted.length ∧
      ∃ M, (s.polling K).Inv start M ∧ M ≤ start + s.polled.length ∧
        start + s.posted.length ≤ M + s.aQp.sendCap.toNat := by
  obtain ⟨M, hM⟩ := h.polling
  exact ⟨h.cqes.lo_le, h.cqes.seen_le, h.sends.lo_le, h.sends.seen_le, h.sent_le,
    M, hM, hM.yielded, hM.full⟩

lemma Pipe.SendInv.cap (h : s.SendInv start K B) : Cap s.aQp.sendCap := by
  obtain ⟨M, hM⟩ := h.polling
  exact hM.cap

lemma Pipe.SendInv.pending (h : s.SendInv start K B) :
    s.aQp.Pending (start + s.sent.length) (start + s.posted.length) := by
  obtain ⟨h1, h2, h3, h4, h5, M, hM, h6, h7⟩ := h.order
  exact ⟨hM.cap, h.prod, hM.post, by omega, by omega⟩

lemma Pipe.SendInv.post (h : s.SendInv start K B) (dev : Dev) (umem : UInt64 → Option UInt8)
    (chan : Chan) (wrs : List SendWr) :
    Pipe.SendInv { s with
      aQp := (postSendLocked dev umem s.aQp chan wrs).qp
      posted := s.posted ++ deferred ((wrs.take (wrs.length -
        (postSendLocked dev umem s.aQp chan wrs).bad.length)).map (wqeOf s.aQp umem)) }
          start K B := by
  obtain ⟨h1, h2, h3, h4, h5, M, hM, h6, h7⟩ := h.order
  obtain ⟨n, hpost⟩ : ∃ n, Posted dev umem s.aQp chan false wrs (start + s.posted.length) M n
      (postSendLocked dev umem s.aQp chan wrs) :=
    postSendLocked_spec chan wrs ⟨hM.cap, hM.post, hM.cmpl, by omega, h7⟩
  have hn : wrs.length - (postSendLocked dev umem s.aQp chan wrs).bad.length = n := by
    have := hpost.le
    rw [hpost.bad, List.length_drop]
    omega
  rw [hn]
  have hpolling : SendPolling.Inv ⟨(postSendLocked dev umem s.aQp chan wrs).qp, s.phase, s.polled,
      s.posted ++ deferred ((wrs.take n).map (wqeOf s.aQp umem)), K⟩ start M := hM.posted hpost
  generalize postSendLocked dev umem s.aQp chan wrs = res at hpost hpolling ⊢
  have hholds := hpost.holds
  have hslots := hpost.slots
  have hframe := hpost.frame
  have hbuilds := hpost.builds
  have hcodes : ∀ wqe ∈ deferred ((wrs.take n).map (wqeOf s.aQp umem)),
      (wrCodePushData wqe.opCode || wrCodePullData wqe.opCode) = true := by
    intro wqe hwqe
    obtain ⟨wr, hwr, rfl⟩ := List.mem_map.mp (List.mem_of_mem_filter hwqe)
    exact (hbuilds wr hwr).code
  generalize deferred ((wrs.take n).map (wqeOf s.aQp umem)) = new at hholds hpolling hcodes ⊢
  have hring : Shows s.aQp.sendCap.toNat (logFrom start
    (s.sent ++ (s.posted ++ new).drop s.sent.length))
      res.qp.sendWqe (start + s.polled.length) (start + (s.posted ++ new).length) := by
    intro k hlo hhi
    rw [List.drop_append_of_le_length h5, ← List.append_assoc]
    rcases Nat.lt_or_ge k (start + s.posted.length) with hold | hnew
    · rw [hslots k (by omega) hold]
      exact logFrom_append _ _ _ (h.ring k hlo hold)
    · obtain ⟨i, rfl⟩ := Nat.exists_eq_add_of_le hnew
      have hlen : (s.sent ++ s.posted.drop s.sent.length).length = s.posted.length := by
        rw [List.length_append, List.length_drop]
        omega
      rw [List.length_append] at hhi
      have hi := List.getElem?_eq_getElem (show i < new.length by omega)
      rw [hholds i _ hi, Nat.add_assoc, logFrom_add, List.getElem?_append_right (by omega), hlen,
        Nat.add_sub_cancel_left]
      exact hi
  rw [hframe] at hpolling hring ⊢
  refine ⟨⟨M, hpolling⟩, h.abort, h.same, ?_, h.prod, ?_, ?_, hring, h.sends,
    h.cons, h.processed, h.cqes,
    h.completed⟩
  · intro wqe hwqe
    exact (List.mem_append.mp hwqe).elim (h.codes wqe) (hcodes wqe)
  · dsimp only
    rw [List.length_append]
    omega
  · intro i wqe hi
    obtain ⟨wqe0, hwqe0, hexec⟩ := h.executed i wqe hi
    exact ⟨wqe0, by
      rw [List.getElem?_append_left (List.getElem?_eq_some_iff.mp hwqe0).1]; exact hwqe0, hexec⟩

variable {dev : Dev} {chan : Chan} {t : Pipe}

/-- What a call of `ntrdma_qp_send_work` does: nothing, or it sends the range it went over. -/
lemma Pipe.work_cases {D P : Nat} (hpend : s.aQp.Pending D P) (h : s.work dev chan = some t) :
    t = s ∨ ∃ wqes s', SendWorkDone dev s.aQp s.aRqp chan
        (min (P - D) (s.aQp.sendCap.toNat - D % s.aQp.sendCap.toNat))
          (sendWork dev s.aQp s.aRqp chan) wqes s' ∧
      (sendWork dev s.aQp s.aRqp chan).reschedule = true ∧ t = { s with
        aQp := (sendWork dev s.aQp s.aRqp chan).qp
        aRqp := (sendWork dev s.aQp s.aRqp chan).rqp
        sends := s.sends ++ [.copy s.aQp.sendProdGet.pos.toNat wqes,
          .index (sendWork dev s.aQp s.aRqp chan).qp.sendProd]
        sent := s.sent ++ wqes
        aTook := s.aTook ++ sendWorkTook dev s.aQp s.aRqp chan } := by
  simp only [Pipe.work] at h
  split at h
  next hsent =>
    split at h
    · cases h
    next habort =>
      obtain ⟨hqp, hrqp⟩ := sendWork_idle hpend hsent (by simpa using habort)
      rw [hqp, hrqp] at h
      exact .inl (Option.some.inj h).symm
  next r hsent =>
    split at h
    next hre =>
      obtain ⟨wqes, s', hdone⟩ := sendWork_done hpend.taking hre
      have hr := hdone.sent (sendWork_sent hsent)
      rw [hsent] at hr
      cases hr
      have hwqes := hdone.portion hpend.taking rfl
      rw [hwqes] at h
      exact .inr ⟨wqes, s', hdone, hre, (Option.some.inj h).symm⟩
    · cases h

variable {batch : UInt32} {mem : UInt64 → UInt8}

lemma Pipe.rqpWork_cases {C P : Nat} (htake : Taking s.bRqp.sendCap s.bRqp.sendConsGet C P)
    (hbatch : BatchOk batch s.bRqp.sendConsGet) (h : s.rqpWork dev batch mem chan = some t) :
    t = s ∨ ∃ n s', n ≤ min (P - C) (s.bRqp.sendCap.toNat - C % s.bRqp.sendCap.toNat) ∧
      (batchStop batch s.bRqp.sendConsGet - s.bRqp.sendConsGet.pos).toNat = n ∧
      (batchStop batch s.bRqp.sendConsGet).toNat = s.bRqp.sendConsGet.pos.toNat + n ∧
      s' = rqpWorkLoop dev (batchStop batch s.bRqp.sendConsGet) n
        ⟨s.bRqp.sendConsGet.pos, s.bQp.recvConsGet, s.bQp, s.bRqp, mem, false, none⟩ ∧
      RqpWorkDone dev s.bQp s.bRqp mem n (rqpSendWork dev batch s.bQp s.bRqp mem chan) s' ∧
        t = { s with
        bQp := (rqpSendWork dev batch s.bQp s.bRqp mem chan).qp
        bRqp := (rqpSendWork dev batch s.bQp s.bRqp mem chan).rqp
        cqes := s.cqes ++ [.copy s.bRqp.sendConsGet.pos.toNat (portion
          (rqpSendWork dev batch s.bQp s.bRqp mem chan).rqp.sendCqe s.bRqp.sendConsGet.pos s'.pos),
          .index (rqpSendWork dev batch s.bQp s.bRqp mem chan).rqp.sendCons]
        done := s.done ++ (portion s.bRqp.sendWqe s.bRqp.sendConsGet.pos s'.pos).zip (portion
          (rqpSendWork dev batch s.bQp s.bRqp mem chan).rqp.sendCqe s.bRqp.sendConsGet.pos s'.pos)
        bTook := s.bTook ++ rqpWorkTook dev batch s.bQp s.bRqp mem } := by
  simp only [Pipe.rqpWork] at h
  split at h
  · cases h
  next habort =>
    obtain ⟨hqp, hrqp, hsent⟩ | ⟨n, s', hn, hbn, hstop, hloop, hdone⟩ :=
      rqpSendWork_done htake hbatch.1 hbatch.2 (by simpa using habort)
    · rw [hqp, hrqp, hsent] at h
      exact .inl (Option.some.inj h).symm
    · rw [hdone.sent] at h
      exact .inr ⟨n, s', hn, hbn, hstop, hloop, hdone, (Option.some.inj h).symm⟩

lemma Pipe.SendInv.work (h : s.SendInv start K B) (hwork : s.work dev chan = some t) :
    t.SendInv start K B := by
  obtain ⟨h1, h2, h3, h4, h5, M, hM, h6, h7⟩ := h.order
  have hpend := h.pending
  have htake := hpend.taking
  obtain rfl | ⟨wqes, s', hdone, -, rfl⟩ := Pipe.work_cases hpend hwork
  · exact h
  have hpolling : SendPolling.Inv ⟨(sendWork dev s.aQp s.aRqp chan).qp, s.phase,
    s.polled, s.posted, K⟩ start M :=
    hM.worked (sendWork_worked dev s.aQp s.aRqp chan)
  have hframe := (sendWork_worked dev s.aQp s.aRqp chan).frame
  have hprod := (hdone.pending hpend rfl).prod
  have hlen := hdone.length
  have hend := (hdone.end htake rfl).2
  have hpos := (hdone.end htake rfl).1
  have hslot : ∀ (k : Nat) (wqe : SendWqe), wqes[k]? = some wqe →
      (sendWork dev s.aQp s.aRqp chan).qp.sendWqe
        ((start + s.sent.length + k) % s.aQp.sendCap.toNat) = wqe ∧
        Executed (s.aQp.sendWqe ((start + s.sent.length + k) % s.aQp.sendCap.toNat)) wqe :=
    fun k wqe hk => hdone.slot htake rfl hk
  have hother : ∀ p, (∀ k < min (start + s.posted.length - (start + s.sent.length))
      (s.aQp.sendCap.toNat - (start + s.sent.length) % s.aQp.sendCap.toNat),
        p ≠ (start + s.sent.length + k) % s.aQp.sendCap.toNat) →
      (sendWork dev s.aQp s.aRqp chan).qp.sendWqe p = s.aQp.sendWqe p :=
        fun p hp => hdone.other htake rfl hp
  generalize sendWork dev s.aQp s.aRqp chan = res at hpolling hframe hprod hslot hother hdone ⊢
  have hcap : res.qp.sendCap = s.aQp.sendCap := by rw [hframe]
  generalize hn : min (start + s.posted.length - (start + s.sent.length))
    (s.aQp.sendCap.toNat - (start + s.sent.length) % s.aQp.sendCap.toNat) =
      n at hprod hlen hpos hother
  have hlong : start + (s.sent ++ wqes).length = start + s.sent.length + n := by
    rw [List.length_append, hlen, Nat.add_assoc]
  -- the entries of the range were posted, and are executed now
  have hnew : ∀ (k : Nat) (wqe : SendWqe), wqes[k]? = some wqe →
      ∃ wqe0, s.posted[s.sent.length + k]? = some wqe0 ∧ Executed wqe0 wqe := by
    intro k wqe hk
    have hkn := (List.getElem?_eq_some_iff.mp hk).1
    have hshow := h.ring (start + s.sent.length + k) (by omega) (by omega)
    rw [Nat.add_assoc, logFrom_add, Pipe.entries_posted (Nat.le_add_right ..),
      ← Nat.add_assoc] at hshow
    exact ⟨_, hshow, (hslot k wqe hk).2⟩
  have hring : Shows s.aQp.sendCap.toNat
      (logFrom start (s.sent ++ wqes ++ s.posted.drop (s.sent ++ wqes).length)) res.qp.sendWqe
      (start + s.polled.length) (start + s.posted.length) := by
    intro k hlo hhi
    obtain ⟨i, rfl⟩ := Nat.exists_eq_add_of_le (show start ≤ k by omega)
    have hshow := h.ring (start + i) hlo hhi
    rw [logFrom_add] at hshow ⊢
    rcases Nat.lt_or_ge i s.sent.length with hsent | hsent
    · rw [Pipe.entries_sent hsent] at hshow
      rw [List.append_assoc, List.getElem?_append_left hsent, hshow,
        hother _ fun j hj => slot_ne (by omega) (by omega)]
    · obtain ⟨j, rfl⟩ := Nat.exists_eq_add_of_le hsent
      rcases Nat.lt_or_ge j n with hj | hj
      · have hwqe := List.getElem?_eq_getElem (show j < wqes.length by omega)
        rw [List.append_assoc, List.getElem?_append_right (Nat.le_add_right ..),
          Nat.add_sub_cancel_left,
          List.getElem?_append_left (by omega), hwqe, ← Nat.add_assoc, (hslot j _ hwqe).1]
      · rw [Pipe.entries_posted (Nat.le_add_right ..)] at hshow
        have hge : (s.sent ++ wqes).length ≤ s.sent.length + j := by omega
        rw [List.getElem?_append_right hge, List.getElem?_drop, Nat.add_sub_cancel' hge, hshow,
          hother _ fun i hi => (slot_ne (by omega) (by omega)).symm]
  have hsending : Sending s.aQp.sendCap.toNat (Idx s.aQp.sendCap) (logFrom start (s.sent ++ wqes))
      (start + s.sent.length) [.copy s.aQp.sendProdGet.pos.toNat wqes, .index res.qp.sendProd]
      (start + (s.sent ++ wqes).length) := by
    refine sending_appended htake.slot (by omega) ?_
    rw [hlong, ← hcap]
    exact hprod
  have hprod' : Idx s.aQp.sendCap res.qp.sendProd (start + (s.sent ++ wqes).length) := by
    rw [hlong, ← hcap]
    exact hprod
  rw [hframe] at hpolling hring hprod' hsending ⊢
  refine ⟨⟨M, hpolling⟩, h.abort, h.same, h.codes, hprod', ?_, ?_, hring,
    (h.sends.log_mono (logFrom_append wqes)).send hsending, h.cons, ?_, h.cqes, h.completed⟩
  · dsimp only
    omega
  · intro i wqe hi
    rcases Nat.lt_or_ge i s.sent.length with hlt | hge
    · rw [List.getElem?_append_left hlt] at hi
      exact h.executed i wqe hi
    · rw [List.getElem?_append_right hge] at hi
      obtain ⟨wqe0, hwqe0, hexec⟩ := hnew _ wqe hi
      rw [Nat.add_sub_cancel' hge] at hwqe0
      exact ⟨wqe0, hwqe0, hexec⟩
  · intro i wqe cqe hi
    obtain ⟨hsent, hcqe⟩ := h.processed i wqe cqe hi
    exact ⟨by
      rw [List.getElem?_append_left (List.getElem?_eq_some_iff.mp hsent).1]; exact hsent, hcqe⟩

lemma PollAct.apply_polling (act : PollAct) (s : Pipe) (K : Nat) :
    act.act.apply (s.polling K) = ⟨(act.act.apply (s.polling 0)).qp,
      (act.act.apply (s.polling 0)).phase,
      (act.act.apply (s.polling 0)).out, s.posted, K⟩ := by
  simp only [Pipe.polling]
  generalize s.phase = phase
  cases act with
  | start => cases phase <;> rfl
  | again => cases phase <;> rfl
  | put => cases phase <;> rfl
  | read =>
    cases phase with
    | idle => rfl
    | again => rfl
    | reading =>
      simp only [PollAct.act, SendAct.apply]
      split <;> rfl

variable {act : PollAct}

/-- What a poll does that does not go over to abort: it moves the index of what is completed, and
yields at most the record of the entry it is at. -/
lemma PollAct.apply_frame {s : SendPolling} (habort : s.qp.sendAbort = false)
    (hres : (act.act.apply s).qp.sendAbort = false) :
    (act.act.apply s).qp = { s.qp with
      sendCmpl := (act.act.apply s).qp.sendCmpl
      sendAborting := (act.act.apply s).qp.sendAborting
      sendAbortFirst := (act.act.apply s).qp.sendAbortFirst } ∧
    ((act.act.apply s).out = s.out ∨ ∃ r old, s.phase = .reading r ∧ r.pos ≠ r.stop ∧
      (act.act.apply s).out = s.out ++ [⟨r.pos, false, (s.qp.pollSendCqe r.pos old).1⟩]) := by
  -- the getter goes over to abort or leaves the queue pair as it is
  have hget : ∀ empty, (s.get empty).qp.sendAbort = false → (s.get empty).qp = s.qp := by
    intro empty
    simp only [SendPolling.get, Qp.sendCmplGet, habort, Bool.false_eq_true, if_false]
    split
    · intro hfalse
      cases hfalse
    · exact fun _ => rfl
  cases act with
  | start =>
    simp only [PollAct.act, SendAct.apply] at hres ⊢
    split at hres
    · exact ⟨by rw [hget _ hres], .inl rfl⟩
    · exact ⟨rfl, .inl rfl⟩
  | again =>
    simp only [PollAct.act, SendAct.apply] at hres ⊢
    split at hres
    · exact ⟨by rw [hget _ hres], .inl rfl⟩
    · exact ⟨rfl, .inl rfl⟩
  | read old =>
    simp only [PollAct.act, SendAct.apply]
    split
    next r hphase =>
      split
      · exact ⟨rfl, .inl rfl⟩
      next hne =>
        exact ⟨by rw [(s.qp.pollSendCqe_frame r.pos old).eq],
          .inr ⟨r, old, hphase, hne, by rw [habort]⟩⟩
    · exact ⟨rfl, .inl rfl⟩
  | put =>
    simp only [PollAct.act, SendAct.apply]
    split <;> exact ⟨rfl, .inl rfl⟩

lemma Pipe.SendInv.reading {r : Range} (h : s.SendInv start K B) (hphase : s.phase = .reading r)
    (hne : r.pos ≠ r.stop) (old : Cqe) :
    start + s.polled.length < K ∧ r.pos.toNat = (start + s.polled.length) % s.aQp.sendCap.toNat ∧
      ∃ wqe, s.done[s.polled.length]? = some (wqe, (s.aQp.pollSendCqe r.pos old).1) := by
  obtain ⟨h1, h2, h3, h4, h5, M, hM, h6, h7⟩ := h.order
  have hreading := hM.reading r hphase
  have hslot : r.pos.toNat = (start + s.polled.length) % s.aQp.sendCap.toNat :=
    hreading.slot hM.cap hne
  have hlt := (hreading.succ hM.cap hne).2
  rw [show (s.polling K).qp.sendAbort = false from h.abort, if_neg Bool.false_ne_true] at hlt
  have hseen : start + s.polled.length < K := hlt
  have hcqe := h.cqes.entry (Nat.le_refl _) hseen
  rw [logFrom_add, List.getElem?_map, ← hslot, Option.map_eq_some_iff] at hcqe
  obtain ⟨⟨wqe, cqe⟩, hdone, rfl⟩ := hcqe
  -- the entry itself was sent without an error
  have hwqe := h.ring _ (Nat.le_refl _) (by omega)
  rw [logFrom_add, Pipe.entries_sent (by omega), ← hslot] at hwqe
  obtain ⟨wqe0, -, hexec⟩ := h.executed _ _ hwqe
  refine ⟨hseen, hslot, wqe, ?_⟩
  rw [hdone]
  simp only [Qp.pollSendCqe, h.abort, hexec.opStatus, Bool.false_eq_true, if_false, ne_eq,
    not_true_eq_false]

lemma Pipe.SendInv.poll (h : s.SendInv start K B)
    (hres : (act.act.apply (s.polling 0)).qp.sendAbort = false) :
    Pipe.SendInv { s with
      aQp := (act.act.apply (s.polling 0)).qp
      phase := (act.act.apply (s.polling 0)).phase
      polled := (act.act.apply (s.polling 0)).out } start K B := by
  obtain ⟨h1, h2, h3, h4, h5, M, hM, h6, h7⟩ := h.order
  obtain ⟨hframe, hout⟩ := PollAct.apply_frame (s := s.polling 0) h.abort hres
  obtain ⟨M', hM'⟩ : ∃ M', (act.act.apply (s.polling K)).Inv start M' :=
    hM.apply (by cases act <;> trivial)
  rw [act.apply_polling s K] at hM'
  generalize act.act.apply (s.polling 0) = res at hres hframe hout hM' ⊢
  have hqp : res.qp = { s.aQp with
      sendCmpl := res.qp.sendCmpl
      sendAborting := res.qp.sendAborting
      sendAbortFirst := res.qp.sendAbortFirst } := hframe
  have hkey : s.polled.length ≤ res.out.length ∧ start + res.out.length ≤ K ∧
      ∀ (i : Nat) (item : SendRecord), res.out[i]? = some item →
        item.pos.toNat = (start + i) % s.aQp.sendCap.toNat ∧
          ∃ wqe, s.done[i]? = some (wqe, item.cqe) := by
    obtain hsame | ⟨r, old, hphase, hne, hnew⟩ := hout
    · rw [hsame]
      exact ⟨Nat.le_refl _, h1, h.completed⟩
    · obtain ⟨hlt, hslot, hdone⟩ := h.reading hphase hne old
      rw [hnew]
      simp only [Pipe.polling, List.length_append, List.length_singleton]
      refine ⟨Nat.le_succ _, hlt, fun i item hi => ?_⟩
      rcases Nat.lt_trichotomy i s.polled.length with hold | heq | hgt
      · rw [List.getElem?_append_left hold] at hi
        exact h.completed i item hi
      · rw [heq, List.getElem?_concat_length] at hi
        cases hi
        rw [heq]
        exact ⟨hslot, hdone⟩
      · rw [List.getElem?_eq_none (by rw [List.length_append, List.length_singleton]; omega)] at hi
        cases hi
  obtain ⟨hle, hseen, hcompleted⟩ := hkey
  rw [hqp] at hM' hres ⊢
  refine ⟨⟨M', hM'⟩, hres, h.same, h.codes, h.prod, h.sent_le, h.executed, ?_,
    h.sends, h.cons, h.processed,
    h.cqes.advance (by dsimp only; omega) hseen, hcompleted⟩
  exact fun k hk => h.ring k (by dsimp only at hk; omega)

lemma Pipe.SendInv.sendArrives {msg : RingMsg SendWqe UInt32} {rest : List (RingMsg SendWqe UInt32)}
    (h : s.SendInv start K B) (hmsgs : s.sends = msg :: rest) :
    ∃ B', Pipe.SendInv { s with bRqp := s.bRqp.takeSend msg, sends := rest } start K B' := by
  obtain ⟨h1, h2, h3, h4, h5, M, hM, h6, h7⟩ := h.order
  have hsends := h.sends
  rw [hmsgs] at hsends
  cases msg with
  | copy => exact ⟨B, { h with sends := hsends.deliver_copy (by omega) }⟩
  | index =>
    obtain ⟨B', -, hsends'⟩ := hsends.deliver_index
    exact ⟨B', { h with sends := hsends' }⟩

lemma Pipe.SendInv.cqeArrives {msg : RingMsg Cqe UInt32} {rest : List (RingMsg Cqe UInt32)}
    (h : s.SendInv start K B) (hmsgs : s.cqes = msg :: rest) :
    ∃ K', Pipe.SendInv { s with aQp := s.aQp.takeCqe msg, cqes := rest } start K' B := by
  obtain ⟨h1, h2, h3, h4, h5, M, hM, h6, h7⟩ := h.order
  have hcqes := h.cqes
  rw [hmsgs] at hcqes
  cases msg with
  | copy _ cqes =>
    exact ⟨K, { h with
      polling := ⟨M, hM.congr ⟨rfl, rfl, rfl, rfl, rfl, rfl, rfl, rfl⟩⟩
      cqes := hcqes.deliver_copy (by omega) }⟩
  | index idx =>
    obtain ⟨K', hK, hcqes'⟩ := hcqes.deliver_index
    have hle := hcqes'.seen_le
    have hseen : (SendAct.arriveCons K' idx).apply (s.polling K) =
        ⟨s.aQp.takeCqe (.index idx), s.phase, s.polled, s.posted, K'⟩ := by
      have habort : (s.polling K).qp.sendAbort = false := h.abort
      rw [SendAct.apply, if_neg (Bool.not_eq_true _ ▸ habort)]
      rfl
    have hpolling := hM.arriveCons (n := K') ⟨hcqes'.idx, fun _ => ⟨hK, _, h.prod, by omega,
      by simp only [Pipe.polling]; omega⟩⟩
    rw [hseen] at hpolling
    exact ⟨K', { h with polling := ⟨M, hpolling⟩, cqes := hcqes' }⟩

lemma Pipe.SendInv.taking (h : s.SendInv start K B) :
    Taking s.bRqp.sendCap s.bRqp.sendConsGet (start + s.done.length) B := by
  obtain ⟨h1, h2, h3, h4, h5, M, hM, h6, h7⟩ := h.order
  refine consume_taking ?_ ?_ ?_ h3 ?_ <;> rw [h.same]
  · exact hM.cap
  · exact h.sends.idx
  · exact h.cons
  · omega

lemma Pipe.SendInv.completes {n : Nat} {res : RqpWork} {s' : RqpLoop} (h : s.SendInv start K B)
    (hdone : RqpWorkDone dev s.bQp s.bRqp mem n res s')
    (hn : n ≤ min (B - (start + s.done.length))
      (s.bRqp.sendCap.toNat - (start + s.done.length) % s.bRqp.sendCap.toNat)) {k : Nat}
    {wqe : SendWqe} {cqe : Cqe}
    (hk : ((portion s.bRqp.sendWqe s.bRqp.sendConsGet.pos s'.pos).zip
      (portion res.rqp.sendCqe s.bRqp.sendConsGet.pos s'.pos))[k]? = some (wqe, cqe)) :
    s.sent[s.done.length + k]? = some wqe ∧ cqe.ulpHandle = wqe.ulpHandle := by
  have htake := h.taking
  obtain ⟨hpos, -, -, hslots⟩ := hdone.sends htake hn
  obtain ⟨hwqe, hcqe⟩ := List.getElem?_zip_eq_some.mp hk
  obtain ⟨hkn, rfl⟩ := portion_getElem? hwqe
  obtain ⟨-, rfl⟩ := portion_getElem? hcqe
  have hentry := h.sends.entry (show start + s.done.length ≤ start +
    s.done.length + k by omega) (by omega)
  rw [Nat.add_assoc, logFrom_add, ← Nat.add_assoc, ← h.same, htake.slot_add (by omega)] at hentry
  obtain ⟨wqe0, hwqe0, hexec⟩ := h.executed _ _ hentry
  refine ⟨hentry, ?_⟩
  rw [hslots k (by omega)]
  refine rqpCompletion_ulpHandle _ ?_
  rw [SendWqe.opCode_of_core hexec.core]
  exact h.codes wqe0 (List.mem_of_getElem? hwqe0)

lemma Pipe.SendInv.rqpWork (h : s.SendInv start K B) (hbatch : BatchOk batch s.bRqp.sendConsGet)
    (hwork : s.rqpWork dev batch mem chan = some t) : t.SendInv start K B := by
  have htake := h.taking
  obtain rfl | ⟨n, s', hn, -, -, -, hdone, rfl⟩ := Pipe.rqpWork_cases htake hbatch hwork
  · exact h
  have hnew : ∀ k wqe cqe, ((portion s.bRqp.sendWqe s.bRqp.sendConsGet.pos s'.pos).zip
      (portion (rqpSendWork dev batch s.bQp s.bRqp mem chan).rqp.sendCqe s.bRqp.sendConsGet.pos
        s'.pos))[k]? = some (wqe, cqe) →
      s.sent[s.done.length + k]? = some wqe ∧ cqe.ulpHandle = wqe.ulpHandle :=
    fun _ _ _ => h.completes hdone hn
  obtain ⟨hpos, hcons, hframe, -⟩ := hdone.sends htake hn
  have hstop := htake.stop
  have hstop_le := htake.stop_le
  have hslot := htake.slot
  rw [h.same] at hcons hslot
  generalize rqpSendWork dev batch s.bQp s.bRqp mem chan = res at hdone hcons hframe hnew ⊢
  have hwlen : (portion s.bRqp.sendWqe s.bRqp.sendConsGet.pos s'.pos).length = n := by
    rw [portion_length]
    omega
  have hclen : (portion res.rqp.sendCqe s.bRqp.sendConsGet.pos s'.pos).length = n := by
    rw [portion_length]
    omega
  generalize portion s.bRqp.sendWqe s.bRqp.sendConsGet.pos s'.pos = wqes at hnew hwlen ⊢
  generalize portion res.rqp.sendCqe s.bRqp.sendConsGet.pos s'.pos = cqes at hnew hclen ⊢
  have hsnd : (s.done ++ wqes.zip cqes).map Prod.snd = s.done.map Prod.snd ++ cqes := by
    rw [List.map_append, List.map_snd_zip (by omega)]
  have hlen : start + (s.done ++ wqes.zip cqes).length = start + s.done.length + n := by
    rw [List.length_append, List.length_zip, hwlen, hclen, Nat.min_self, Nat.add_assoc]
  have hadvance : start + s.done.length ≤ start + (s.done ++ wqes.zip cqes).length ∧
      start + (s.done ++ wqes.zip cqes).length ≤ B := by
    have hle := htake.le
    omega
  have hsending : Sending s.aQp.sendCap.toNat (Idx s.aQp.sendCap)
    (logFrom start (s.done.map Prod.snd ++ cqes))
      (start + s.done.length) [.copy s.bRqp.sendConsGet.pos.toNat cqes, .index res.rqp.sendCons]
      (start + (s.done ++ wqes.zip cqes).length) := by
    have happ := sending_appended (l := s.done.map Prod.snd)
      (show s.bRqp.sendConsGet.pos.toNat = (start + (s.done.map Prod.snd).length) % _ by
        rw [List.length_map]; exact hslot)
      (show _ + cqes.length ≤ _ by rw [← h.same]; omega)
      (show Idx s.aQp.sendCap res.rqp.sendCons _ by
        rw [List.length_append, List.length_map, hclen, ← Nat.add_assoc]; exact hcons)
    rw [← hsnd, List.length_map, List.length_map] at happ
    rw [← hsnd]
    exact happ
  rw [← hlen] at hcons
  rw [hframe] at hcons hsending ⊢
  refine ⟨h.polling, h.abort, h.same, h.codes, h.prod, h.sent_le, h.executed, h.ring,
    h.sends.advance hadvance.1 hadvance.2, hcons, ?_, ?_, ?_⟩
  · intro i wqe cqe hi
    rcases Nat.lt_or_ge i s.done.length with hlt | hge
    · rw [List.getElem?_append_left hlt] at hi
      exact h.processed i wqe cqe hi
    · rw [List.getElem?_append_right hge] at hi
      have hget := hnew _ wqe cqe hi
      rwa [Nat.add_sub_cancel' hge] at hget
  · rw [hsnd]
    exact (h.cqes.log_mono (logFrom_append cqes)).send hsending
  · intro i item hi
    obtain ⟨hslot, wqe, hwqe⟩ := h.completed i item hi
    exact ⟨hslot,
      wqe, by rw [List.getElem?_append_left (List.getElem?_eq_some_iff.mp hwqe).1]; exact hwqe⟩

lemma Pipe.SendInv.step {act : PipeAct} (h : s.SendInv start K B) (hstep : pipeStep s act t) :
    ∃ K' B', t.SendInv start K' B' := by
  rw [pipeStep] at hstep
  cases act with
  | post dev umem chan wrs =>
    simp only [PipeAct.apply] at hstep
    split at hstep
    · cases hstep
      exact ⟨K, B, h.post dev umem chan wrs⟩
    · cases hstep
  | work => exact ⟨K, B, h.work hstep⟩
  | poll =>
    simp only [PipeAct.apply] at hstep
    split at hstep
    · cases hstep
    next habort =>
      cases hstep
      exact ⟨K, B, h.poll (by simpa using habort)⟩
  | sendArrives =>
    simp only [PipeAct.apply] at hstep
    split at hstep
    · cases hstep
    next msg rest hmsgs =>
      cases hstep
      obtain ⟨B', hinv⟩ := h.sendArrives hmsgs
      exact ⟨K, B', hinv⟩
  | rqpWork =>
    simp only [PipeAct.apply] at hstep
    split at hstep
    next hbatch => exact ⟨K, B, h.rqpWork hbatch hstep⟩
    · cases hstep
  | cqeArrives =>
    simp only [PipeAct.apply] at hstep
    split at hstep
    · cases hstep
    next msg rest hmsgs =>
      cases hstep
      obtain ⟨K', hinv⟩ := h.cqeArrives hmsgs
      exact ⟨K', B, hinv⟩
  -- the receives are of no concern here
  | postRecv =>
    simp only [PipeAct.apply] at hstep
    split at hstep
    · cases hstep
      exact ⟨K, B, { h with }⟩
    · cases hstep
  | recvWork =>
    simp only [PipeAct.apply] at hstep
    split at hstep
    · cases hstep
    · cases hstep
      exact ⟨K, B, { h with }⟩
  | recvArrives =>
    simp only [PipeAct.apply] at hstep
    split at hstep
    · cases hstep
    · cases hstep
      exact ⟨K, B, { h with }⟩
  | pollRecv =>
    simp only [PipeAct.apply] at hstep
    split at hstep
    · cases hstep
    · cases hstep
      exact ⟨K, B, { h with }⟩

end

lemma SendConnected.inv {aQp bQp : Qp} {aRqp bRqp : Rqp} {start : Nat}
    (h : SendConnected aQp bRqp start) :
    (Pipe.start aQp aRqp bQp bRqp).SendInv start start start where
  polling := by
    refine ⟨start, h.cap, h.cmpl, h.post, Nat.le_add_right .., nofun, Nat.le_refl _, ⟨_, h.cons⟩,
      fun _ => ⟨h.cons, Nat.le_refl _, start, h.prod, Nat.le_refl _, Nat.le_refl _⟩,
      fun hf => absurd (h.abort.symm.trans hf) nofun, fun _ => rfl, nofun, nofun⟩
  abort := h.abort
  same := h.same
  codes := nofun
  prod := h.prod
  sent_le := Nat.le_refl _
  executed := nofun
  ring := Shows.nil
  sends := .start h.peerProd
  cons := h.peerCons
  processed := nofun
  cqes := .start h.cons
  completed := nofun

/-- What the sends of a pipe keep to, if its rings started at the counter `start`. -/
structure Pipe.InOrder (s : Pipe) (start : Nat) : Prop where
  /-- The indices stand for counters that are in order: completed, consumed as A sees it, consumed,
  produced as B sees it, produced, posted, and at most as many are outstanding as the ring holds. -/
  indices : ∃ cmpl seenCons cons seenProd prod post : Nat,
    Idx s.aQp.sendCap s.aQp.sendCmpl cmpl ∧ Idx s.aQp.sendCap s.aQp.sendCons seenCons ∧
    Idx s.aQp.sendCap s.bRqp.sendCons cons ∧ Idx s.aQp.sendCap s.bRqp.sendProd seenProd ∧
    Idx s.aQp.sendCap s.aQp.sendProd prod ∧ Idx s.aQp.sendCap s.aQp.sendPost post ∧
    cmpl ≤ seenCons ∧ seenCons ≤ cons ∧ cons ≤ seenProd ∧ seenProd ≤ prod ∧ prod ≤ post ∧
    post ≤ cmpl + s.aQp.sendCap.toNat ∧ cons = start + s.done.length ∧
      post = start + s.posted.length
  /-- The entries that B processed are the first ones that were posted, each once and in order. -/
  processed : s.done.length ≤ s.posted.length ∧ ∀ (i : Nat) (wqe : SendWqe) (cqe : Cqe),
    s.done[i]? = some (wqe, cqe) → ∃ wqe0, s.posted[i]? = some wqe0 ∧ Executed wqe0 wqe
  /-- When nothing is under way to B and neither host has anything left to do, all were
  processed. -/
  rest : s.sends = [] → s.aQp.sendProd = s.aQp.sendPost → s.bRqp.sendCons = s.bRqp.sendProd →
    s.done.length = s.posted.length
  /-- The completion entry that is polled for a slot is the one B wrote for the entry of that slot
  and lap, and names it. -/
  polled : ∀ (i : Nat) (item : SendRecord), s.polled[i]? = some item →
    item.pos.toNat = (start + i) % s.aQp.sendCap.toNat ∧
      ∃ wqe wqe0, s.done[i]? = some (wqe, item.cqe) ∧
      s.posted[i]? = some wqe0 ∧ item.cqe.ulpHandle = wqe0.ulpHandle

/-- In every run the sends are processed once, in the order of posting, and completed by what B
wrote. -/
theorem pipe_inOrder {aQp bQp : Qp} {aRqp bRqp : Rqp} {start : Nat}
    (h : SendConnected aQp bRqp start) {s : Pipe}
    (hrun : Reaches pipeStep (Pipe.start aQp aRqp bQp bRqp) s) : s.InOrder start := by
  obtain ⟨K, B, hinv⟩ : ∃ K B, s.SendInv start K B := by
    refine hrun.invariant (I := fun s => ∃ K B, s.SendInv start K B) ⟨start, start, h.inv⟩
      fun s act t hs hstep => ?_
    obtain ⟨K, B, hs⟩ := hs
    exact hs.step hstep
  obtain ⟨h1, h2, h3, h4, h5, M, hM, h6, h7⟩ := hinv.order
  have hposted : ∀ (i : Nat) (wqe : SendWqe) (cqe : Cqe), s.done[i]? = some (wqe, cqe) →
      ∃ wqe0, s.posted[i]? = some wqe0 ∧ Executed wqe0 wqe :=
    fun i wqe cqe hi => hinv.executed i wqe (hinv.processed i wqe cqe hi).1
  refine ⟨⟨M, K, _, B, _, _, hM.cmpl, hinv.cqes.idx, hinv.cons, hinv.sends.idx,
    hinv.prod, hM.post, by omega,
    h2, h3, h4, by simp only [Pipe.polling]; omega, h7, rfl, rfl⟩, ⟨by omega, hposted⟩, ?_, ?_⟩
  · intro hnone hwork hrqp
    have hB := hinv.sends
    rw [hnone] at hB
    have hpos := hM.cap.pos
    have hprod := hinv.prod
    have hcons := hinv.cons
    rw [hwork] at hprod
    rw [hrqp] at hcons
    have hpost := hprod.inj hM.post (by simp only [Pipe.polling]; omega)
      (by simp only [Pipe.polling] at *; omega)
    have hdone := hcons.inj hinv.sends.idx h3 (by simp only [Pipe.polling] at *; omega)
    have hsent := hB.seen_eq
    simp only [Pipe.polling] at hpost
    omega
  · intro i item hi
    obtain ⟨hslot, wqe, hwqe⟩ := hinv.completed i item hi
    obtain ⟨wqe0, hwqe0, hexec⟩ := hposted i wqe item.cqe hwqe
    have hcore := congrArg SendWqe.ulpHandle hexec.core
    exact ⟨hslot, wqe, wqe0, hwqe, hwqe0, (hinv.processed i wqe item.cqe hwqe).2.trans hcore⟩

def idlePipe : Pipe := .start (.fresh 4) (.fresh 4) (.fresh 4) (.fresh 4)

def emptySend (wrId : UInt64) : SendWr := ⟨wrId, wrSend.toUInt32, sendSignaled, 0, 0, 0, []⟩

def sendOne : List PipeAct :=
  [.postRecv smallDev 4 (fun _ _ => .noShadow) [⟨7, []⟩], .recvWork freshChan,
    .recvArrives, .recvArrives,
    .post smallDev (fun _ => none) freshChan [emptySend 9], .work smallDev freshChan]

def completeOne : List PipeAct :=
  [.sendArrives, .sendArrives, .rqpWork smallDev qpBatchSize (fun _ => 0) freshChan,
    .cqeArrives, .cqeArrives,
    .poll .start, .poll (.read ⟨0, 0, 0, 0, 0, 0⟩), .poll .put]

lemma idlePipe_connected : SendConnected (Qp.fresh 4) (Rqp.fresh 4) 0 :=
  ⟨⟨by decide, by decide⟩, rfl, rfl, rfl, rfl, rfl, rfl, rfl, rfl⟩

theorem pipe_inOrder_one :
    ∃ s, Reaches pipeStep idlePipe s ∧ s.polled.map (fun item =>
      (item.pos, item.cqe.ulpHandle)) = [(0, 9)] ∧
      s.InOrder 0 := by
  obtain ⟨s, hrun, hpolled⟩ : ∃ s, Reaches pipeStep idlePipe s ∧
      s.polled.map (fun item => (item.pos, item.cqe.ulpHandle)) = [(0, 9)] :=
    ⟨_, Reaches.of_foldlM (l := sendOne ++ completeOne) rfl, rfl⟩
  exact ⟨s, hrun, hpolled, pipe_inOrder idlePipe_connected hrun⟩

end Ntrdma
