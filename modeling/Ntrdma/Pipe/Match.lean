import Ntrdma.Pipe.Send
import Ntrdma.Recv.Order

/-!
# Sends and receives are matched

Both hosts take one receive for each send, A from its copy of B's receive ring and B from the ring
itself, in batches of their own. Each send carries the index of the receive that A took for it.
`Took` says that the sends of a list took receives from a counter on, one after another, and `Keyed`
that they carry the indices; `Pipe.RecvInv` ties the two hosts together.
-/

namespace Ntrdma
open Lib Ntrdma.Ring

/-! ## Receives that are taken in order -/

/-- The sends of a list take the receives of a log from a counter on, each the next one. -/
inductive Took (log : Nat → Option RecvWqe) : Nat →
    List (SendWqe × RecvWqe) → List SendWqe → Prop where
  | nil {n} : Took log n [] []
  | send {n wqe recvWqe took wqes} : wrCodeIsSend wqe.opCode = true → log n = some recvWqe →
    Took log (n + 1) took wqes → Took log n ((wqe, recvWqe) :: took) (wqe :: wqes)
  | plain {n wqe took wqes} : wrCodeIsSend wqe.opCode = false → Took log n took wqes →
    Took log n took (wqe :: wqes)

section
variable {log log' : Nat → Option RecvWqe} {n : Nat} {took took' : List (SendWqe × RecvWqe)}
  {wqes wqes' : List SendWqe}

lemma sendCount_append (wqes wqes' : List SendWqe) :
    sendCount (wqes ++ wqes') = sendCount wqes + sendCount wqes' := List.countP_append

lemma Took.append (h : Took log n took wqes) (h' : Took log (n + sendCount wqes) took' wqes') :
    Took log n (took ++ took') (wqes ++ wqes') := by
  induction h with
  | nil => exact h'
  | send hsend hlog _ ih =>
    rw [sendCount_cons, if_pos hsend, ← Nat.add_assoc] at h'
    exact .send hsend hlog (ih h')
  | plain hsend _ ih =>
    rw [sendCount_cons, hsend, if_neg Bool.false_ne_true, Nat.zero_add] at h'
    exact .plain hsend (ih h')

lemma Took.log_mono (h : Took log n took wqes) (hmono : ∀ k a, log k = some a → log' k = some a) :
    Took log' n took wqes := by
  induction h with
  | nil => exact .nil
  | send hsend hlog _ ih => exact .send hsend (hmono _ _ hlog) ih
  | plain hsend _ ih => exact .plain hsend ih

lemma Took.fst (h : Took log n took wqes) :
    took.map Prod.fst = wqes.filter fun wqe => wrCodeIsSend wqe.opCode := by
  induction h with
  | nil => rfl
  | send hsend _ _ ih => rw [List.map_cons, ih, List.filter_cons, if_pos hsend]
  | plain hsend _ ih => rw [ih, List.filter_cons, hsend, if_neg Bool.false_ne_true]

lemma Took.snd {recvs : List RecvWqe} {start : Nat} (h : Took log n took wqes)
    (hlog : ∀ k, log (start + k) = recvs[k]?) {i : Nat} (hi : n = start + i) :
    took.map Prod.snd <+: recvs.drop i := by
  induction h generalizing i with
  | nil => exact List.nil_prefix
  | @send _ _ _ _ _ _ hentry _ ih =>
    rw [hi, hlog] at hentry
    obtain ⟨hlt, rfl⟩ := List.getElem?_eq_some_iff.mp hentry
    rw [List.map_cons, List.drop_eq_getElem_cons hlt]
    exact List.cons_prefix_cons.mpr ⟨rfl, ih (by omega)⟩
  | plain _ _ ih => exact ih hi

end

def Keyed (cap : UInt32) (n : Nat) (wqes : List SendWqe) : Prop :=
  ∀ (i : Nat) (wqe : SendWqe), wqes[i]? = some wqe → wrCodeIsSend wqe.opCode = true →
    Idx cap wqe.recvKey (n + sendCount (wqes.take i))

section
variable {cap : UInt32} {n : Nat} {wqes wqes' : List SendWqe}

lemma Keyed.append (h : Keyed cap n wqes) (h' : Keyed cap (n + sendCount wqes) wqes') :
    Keyed cap n (wqes ++ wqes') := by
  intro i wqe hi hsend
  rcases Nat.lt_or_ge i wqes.length with hlt | hge
  · rw [List.getElem?_append_left hlt] at hi
    rw [List.take_append_of_le_length hlt.le]
    exact h i wqe hi hsend
  · rw [List.getElem?_append_right hge] at hi
    rw [List.take_append, List.take_of_length_le hge, sendCount_append, ← Nat.add_assoc]
    exact h' _ wqe hi hsend

lemma Keyed.part (h : Keyed cap n wqes) (d k : Nat) :
    Keyed cap (n + sendCount (wqes.take d)) ((wqes.drop d).take k) := by
  intro i wqe hi hsend
  have hlt := (List.getElem?_eq_some_iff.mp hi).1
  rw [List.length_take] at hlt
  rw [List.getElem?_take_of_lt (by omega), List.getElem?_drop] at hi
  have hkey := h _ wqe hi hsend
  rw [List.take_add, sendCount_append, ← Nat.add_assoc] at hkey
  rwa [List.take_take, Nat.min_eq_left (by omega)]

variable {wqe : SendWqe}

lemma Keyed.tail (h : Keyed cap n (wqe :: wqes)) :
    Keyed cap (n + if wrCodeIsSend wqe.opCode then 1 else 0) wqes := by
  intro i w hi hsend
  have hkey := h (i + 1) w hi hsend
  rwa [List.take_succ_cons, sendCount_cons, ← Nat.add_assoc] at hkey

lemma Keyed.head (h : Keyed cap n (wqe :: wqes)) (hsend : wrCodeIsSend wqe.opCode = true) :
    Idx cap wqe.recvKey n := h 0 wqe rfl hsend

end

/-! ## The loop of the sender -/

section
variable {dev : Dev} {s s' : SendLoop} {log : Nat → Option RecvWqe}

lemma sendWorkRound_took (h : sendWorkRound dev s = (true, s')) :
    s.took = if wrCodeIsSend (s.qp.sendWqe s.pos.toNat).opCode then
      [(s.qp.sendWqe s.pos.toNat, s.rqp.recvWqe s.recv.pos.toNat)] else [] := by
  simp only [sendWorkRound] at h
  simp only [SendLoop.took]
  split
  next hsend =>
    rw [if_pos hsend] at h
    simp only [sendWorkRecv] at h ⊢
    split at h
    · cases h
    next heq =>
      split at heq
      · cases heq
      next hne =>
        split at heq
        · cases heq
        next hstatus => rw [if_neg hne, if_neg hstatus]
  · rfl

def SendLoop.ahead (s : SendLoop) (n : Nat) : List SendWqe :=
  (List.range n).map fun k => s.qp.sendWqe (s.pos.toNat + k)

lemma SendRound.ahead {wqe' : SendWqe} (h : SendRound dev s s' wqe')
    (hlt : s.pos.toNat + 1 < 2 ^ 32) (n : Nat) :
    s.ahead (n + 1) = s.qp.sendWqe s.pos.toNat :: s'.ahead n := by
  rw [SendLoop.ahead, List.range_succ_eq_map, List.map_cons, List.map_map,
    SendLoop.ahead, h.pos, toNat_succ hlt, h.qp]
  refine congrArg _ (List.map_congr_left fun k _ => ?_)
  have hne : s.pos.toNat + 1 + k ≠ s.pos.toNat := by omega
  simp only [Function.comp_apply, Nat.succ_eq_add_one, Qp.setSendWqe_sendWqe,
    Function.update_of_ne hne]
  rw [show s.pos.toNat + (k + 1) = s.pos.toNat + 1 + k by omega]

lemma sendLoopTook_took {stop : UInt32} {n R Rp : Nat} (hstop : stop.toNat = s.pos.toNat + n)
    (hs : s.reschedule = false) (hre : (sendWorkLoop dev stop n s).reschedule = true)
    (htake : Taking s.rqp.recvCap s.recv R Rp) (hprod : Idx s.rqp.recvCap s.rqp.recvProd Rp)
    (hshows : Shows s.rqp.recvCap.toNat log s.rqp.recvWqe R Rp) :
    Took log R (sendLoopTook dev stop n s) (s.ahead n) := by
  induction n generalizing s R with
  | zero => cases hs.symm.trans hre
  | succ n ih =>
    have hlt := stop.toNat_lt
    rw [sendWorkLoop] at hre
    rw [sendLoopTook]
    generalize hround : sendWorkRound dev s = res at hre
    obtain ⟨go, s1⟩ := res
    cases go with
    | false =>
      have hkeep := (sendWorkRound_went dev s).reschedule
      rw [hround] at hkeep
      cases (hkeep.trans hs).symm.trans hre
    | true =>
      obtain ⟨wqe', hwqe⟩ := sendWorkRound_true hround
      have hop := SendWqe.opCode_of_core hwqe.executed.core
      have hpos : s1.pos.toNat = s.pos.toNat + 1 := by
        rw [hwqe.pos, toNat_succ (by omega)]
      have hrun := SendRun.cons hwqe (.nil s1)
      obtain ⟨htake1, -⟩ := hrun.recvs htake hprod
      have hframe := hrun.frame.2.1
      have hcap : s1.rqp.recvCap = s.rqp.recvCap := by rw [hframe]
      have hprod1 : s1.rqp.recvProd = s.rqp.recvProd := by rw [hframe]
      have hwqes1 : s1.rqp.recvWqe = s.rqp.recvWqe := by rw [hframe]
      -- the rest of the loop, which is over when the range is
      have hrest : Took log (R + sendCount [wqe'])
          (if s1.pos = stop then [] else sendLoopTook dev stop n s1) (s1.ahead n) := by
        dsimp only at hre
        split at hre
        next hend =>
          rw [if_pos hend]
          rw [← hend, hpos] at hstop
          obtain rfl : n = 0 := by omega
          exact .nil
        next hend =>
          rw [if_neg hend]
          refine ih (by omega) (hwqe.flags.2.trans hs) hre (by rw [hcap]; exact htake1)
            (by rwa [hcap, hprod1]) ?_
          rw [hcap, hwqes1]
          exact fun k hk => hshows k (by omega)
      rw [sendWorkRound_took hround, hwqe.ahead (by omega)]
      rw [sendCount_cons, hop] at hrest
      split
      next hsend =>
        rw [if_pos hsend] at hrest
        have hrecv := hwqe.recv
        rw [hop, if_pos hsend] at hrecv
        have hne := hrecv.1
        rw [ne_eq, htake.empty_iff] at hne
        have hle := htake.le
        refine .send hsend ?_ hrest
        rw [htake.slot]
        exact hshows R (Nat.le_refl R) (by omega)
      next hsend =>
        rw [if_neg hsend] at hrest
        exact .plain (Bool.eq_false_iff.mpr hsend) hrest

end

/-! ## The loop of the receiver -/

section
variable {dev : Dev} {s s' : RqpLoop} {log : Nat → Option RecvWqe}

lemma RqpStep.took_eq (h : RqpStep dev s (true, s')) :
    s.took = if wrCodeIsSend (s.rqp.sendWqe s.pos.toNat).opCode then
      [(s.rqp.sendWqe s.pos.toNat, s.qp.recvWqe s.recv.pos.toNat)] else [] := by
  simp only [RqpLoop.took]
  cases h with
  | recv hsend hkey hne hstatus =>
    rw [hstatus, hkey]
    simp [hne, wrStatusNoRecv, wcErrRecvNotReady, wcErrRecvMissing]
  | plain hsend => rw [if_neg (by rw [hsend]; nofun), if_neg (by rw [hsend]; nofun)]

lemma RqpTakes.shows {K K' D : Nat} (h : RqpTakes s s' K K' D) (hfull : D ≤ K + s.qp.recvCap.toNat)
    (hshows : Shows s.qp.recvCap.toNat log s.qp.recvWqe K D) :
    Shows s.qp.recvCap.toNat log s'.qp.recvWqe K' D := by
  intro k hk hlt
  have hle := h.le
  rw [(h.took.slots _ fun j hj hj' => (slot_ne (by omega) (by omega)).symm).1]
  exact hshows k (by omega) hlt

variable {stop : UInt32} {n K D : Nat}

lemma rqpLoopTook_took (hstop : stop.toNat = s.pos.toNat + n)
    (hfault : (rqpWorkLoop dev stop n s).fault = none) (htake : Taking s.qp.recvCap s.recv K D)
    (hprod : Idx s.qp.recvCap s.qp.recvProd D)
    (hshows : Shows s.qp.recvCap.toNat log s.qp.recvWqe K D) :
    Took log K (rqpLoopTook dev stop n s) (s.ahead n) := by
  induction n generalizing s K with
  | zero => exact .nil
  | succ n ih =>
    have hlt := stop.toNat_lt
    have hstep := rqpWorkRound_step dev s
    rw [rqpWorkLoop] at hfault
    rw [rqpLoopTook]
    generalize hround : rqpWorkRound dev s = res at hfault hstep
    obtain ⟨go, s1⟩ := res
    cases go with
    | false => cases hstep <;> cases hfault
    | true =>
      have hpos : s1.pos.toNat = s.pos.toNat + 1 := by
        rw [hstep.sends.1, toNat_succ (by omega)]
      obtain ⟨K1, htakes, hgo⟩ := hstep.takes htake hprod
      obtain ⟨htake1, hK1⟩ := hgo rfl
      have hframe := htakes.took.frame
      have hcap : s1.qp.recvCap = s.qp.recvCap := by rw [hframe]
      have hprod1 : s1.qp.recvProd = s.qp.recvProd := by rw [hframe]
      have hrest : Took log K1 (if s1.pos = stop then [] else rqpLoopTook dev stop n s1)
          (s1.ahead n) := by
        dsimp only at hfault
        split at hfault
        next hend =>
          rw [if_pos hend]
          rw [← hend, hpos] at hstop
          obtain rfl : n = 0 := by omega
          exact .nil
        next hend =>
          rw [if_neg hend]
          refine ih (by omega) hfault (by rw [hcap]; exact htake1) (by rwa [hcap, hprod1]) ?_
          rw [hcap]
          exact htakes.shows htake.full hshows
      rw [hstep.took_eq, hstep.ahead]
      split
      next hsend =>
        rw [if_pos hsend] at hK1
        have hD := htakes.prod_le
        rw [hK1] at hrest hD
        refine .send hsend ?_ hrest
        rw [htake.slot]
        exact hshows K (Nat.le_refl K) (by omega)
      next hsend =>
        rw [if_neg hsend, Nat.add_zero] at hK1
        rw [hK1] at hrest
        exact .plain (Bool.eq_false_iff.mpr hsend) hrest

lemma rqpWorkLoop_matched (htake : Taking s.qp.recvCap s.recv K D)
    (hprod : Idx s.qp.recvCap s.qp.recvProd D) (hkeys : Keyed s.qp.recvCap K (s.ahead n))
    (hroom : K + sendCount (s.ahead n) ≤ D) (hs : s.fault = none) :
    (rqpWorkLoop dev stop n s).fault ≠ some .corrupt ∧
      (rqpWorkLoop dev stop n s).fault ≠ some .recvMissing := by
  induction n generalizing s K with
  | zero =>
    rw [rqpWorkLoop, hs]
    exact ⟨by simp, by simp⟩
  | succ n ih =>
    have hstep := rqpWorkRound_step dev s
    have hhead : s.ahead (n + 1) = s.rqp.sendWqe s.pos.toNat :: (s.ahead (n + 1)).tail := by
      rw [RqpLoop.ahead, List.range_succ_eq_map, List.map_cons, List.tail_cons]
      refine congrArg (fun p => List.cons (s.rqp.sendWqe (UInt32.toNat p)) _) ?_
      exact UInt32.add_zero _
    rw [rqpWorkLoop]
    generalize rqpWorkRound dev s = res at hstep
    obtain ⟨go, s1⟩ := res
    cases go with
    | false =>
      rw [hhead] at hkeys hroom
      rw [sendCount_cons] at hroom
      cases hstep with
      | stop _ _ hcorrupt hmissing =>
        refine ⟨fun hfault => ?_, fun hfault => ?_⟩
        · obtain ⟨hsend, hne⟩ := hcorrupt (Option.some.inj hfault)
          refine hne (UInt32.toNat_inj.mp ?_)
          exact (show _ = _ from hkeys.head hsend).trans (show _ = _ from htake.key).symm
        · obtain ⟨hsend, hempty⟩ := hmissing (Option.some.inj hfault)
          rw [if_pos hsend] at hroom
          have := htake.empty_iff.mp hempty
          omega
      | stopRecv _ _ _ _ hfault =>
        exact ⟨fun h => hfault.1 (Option.some.inj h), fun h => hfault.2 (Option.some.inj h)⟩
    | true =>
      obtain ⟨K1, htakes, hgo⟩ := hstep.takes htake hprod
      obtain ⟨htake1, hK1⟩ := hgo rfl
      have hframe := htakes.took.frame
      have hcap : s1.qp.recvCap = s.qp.recvCap := by rw [hframe]
      have hprod1 : s1.qp.recvProd = s.qp.recvProd := by rw [hframe]
      have hfault : s1.fault = none := hstep.sends.2.1.trans hs
      rw [hstep.ahead] at hkeys hroom
      rw [sendCount_cons, ← Nat.add_assoc, ← hK1] at hroom
      dsimp only
      split
      · rw [hfault]
        exact ⟨by simp, by simp⟩
      · refine ih (by rw [hcap]; exact htake1) (by rwa [hcap, hprod1]) ?_ hroom hfault
        rw [hcap, hK1]
        exact hkeys.tail

end

/-! ## What holds at every step -/

/-- The receives of a pipe that started at the counter `start`: B polled them up to `M` and sent
them up to `D`, and A saw them up to `seen`. -/
structure Pipe.RecvInv (s : Pipe) (start M D seen : Nat) : Prop where
  ring : s.bQp.RecvRing M (start + sendCount (s.done.map Prod.fst)) D (start + s.recvPosted.length)
  same : s.aRqp.recvCap = s.bQp.recvCap
  shows : Shows s.bQp.recvCap.toNat (logFrom start s.recvPosted) s.bQp.recvWqe
    (start + sendCount (s.done.map Prod.fst)) (start + s.recvPosted.length)
  cons : Idx s.bQp.recvCap s.aRqp.recvCons (start + sendCount s.sent)
  recvs : Mirror s.bQp.recvCap.toNat (Idx s.bQp.recvCap) (logFrom start s.recvPosted) s.aRqp.recvWqe
    s.aRqp.recvProd s.recvs (start + sendCount s.sent) seen D
  keys : Keyed s.bQp.recvCap start s.sent
  sender : Took (logFrom start s.recvPosted) start s.aTook (s.posted.take s.sent.length)
  receiver : Took (logFrom start s.recvPosted) start s.bTook (s.done.map Prod.fst)

section
variable {s t : Pipe} {first K B start M D seen : Nat}

lemma Pipe.SendInv.done_fst (h : s.SendInv first K B) :
    s.done.map Prod.fst = s.sent.take s.done.length := by
  refine List.ext_getElem? fun i => ?_
  rcases Nat.lt_or_ge i s.done.length with hi | hi
  · have hget := List.getElem?_eq_getElem hi
    rw [List.getElem?_map, List.getElem?_take_of_lt hi, (h.processed i _ _ hget).1, hget]
    rfl
  · rw [List.getElem?_eq_none (by rw [List.length_map]; exact hi),
      List.getElem?_eq_none (by rw [List.length_take]; omega)]

lemma Pipe.SendInv.sendCount_posted (h : s.SendInv first K B) :
    sendCount (s.posted.take s.sent.length) = sendCount s.sent := by
  have hops : (s.posted.take s.sent.length).map SendWqe.opCode = s.sent.map SendWqe.opCode := by
    refine List.ext_getElem? fun i => ?_
    rcases Nat.lt_or_ge i s.sent.length with hi | hi
    · have hget := List.getElem?_eq_getElem hi
      obtain ⟨wqe0, hwqe0, hexec⟩ := h.executed i _ hget
      rw [List.getElem?_map, List.getElem?_map, List.getElem?_take_of_lt hi,
        hwqe0, hget, Option.map_some,
        Option.map_some, SendWqe.opCode_of_core hexec.core]
    · rw [List.getElem?_eq_none (by rw [List.length_map, List.length_take]; omega),
        List.getElem?_eq_none (by rw [List.length_map]; exact hi)]
  have hcount : ∀ l : List SendWqe, sendCount l = (l.map SendWqe.opCode).countP wrCodeIsSend := by
    intro l
    rw [List.countP_map]
    rfl
  rw [hcount, hops, ← hcount]

lemma Pipe.SendInv.ahead (h : s.SendInv first K B) (recv : Range) (rqp : Rqp) (chan : Chan) :
    SendLoop.ahead ⟨s.aQp.sendProdGet.pos, recv, s.aQp, rqp, chan, false, false⟩
        (min (first + s.posted.length - (first + s.sent.length))
          (s.aQp.sendCap.toNat - (first + s.sent.length) % s.aQp.sendCap.toNat)) =
      (s.posted.drop s.sent.length).take (min (first + s.posted.length - (first + s.sent.length))
        (s.aQp.sendCap.toNat - (first + s.sent.length) % s.aQp.sendCap.toNat)) := by
  have htake := h.pending.taking
  obtain ⟨h1, h2, h3, h4, -⟩ := h.order
  generalize hn : min (first + s.posted.length - (first + s.sent.length))
    (s.aQp.sendCap.toNat - (first + s.sent.length) % s.aQp.sendCap.toNat) = n
  refine List.ext_getElem? fun k => ?_
  rcases Nat.lt_or_ge k n with hk | hk
  · have hshow := h.ring (first + s.sent.length + k) (by omega) (by omega)
    rw [htake.slot_add (by omega), Nat.add_assoc, logFrom_add,
      Pipe.entries_posted (Nat.le_add_right ..)] at hshow
    rw [SendLoop.ahead, List.getElem?_map, List.getElem?_range hk, List.getElem?_take_of_lt hk,
      List.getElem?_drop, hshow]
    rfl
  · rw [List.getElem?_eq_none
      (by rw [SendLoop.ahead, List.length_map, List.length_range]; exact hk),
      List.getElem?_eq_none (by rw [List.length_take]; omega)]

variable {n : Nat}

lemma Pipe.SendInv.rqpAhead (h : s.SendInv first K B) (recv : Range) (mem : UInt64 → UInt8)
    (hn : n ≤ min (B - (first + s.done.length))
      (s.bRqp.sendCap.toNat - (first + s.done.length) % s.bRqp.sendCap.toNat)) :
    RqpLoop.ahead ⟨s.bRqp.sendConsGet.pos, recv, s.bQp, s.bRqp, mem, false, none⟩ n =
        (s.sent.drop s.done.length).take n ∧
      (List.range n).map (fun k => s.bRqp.sendWqe (s.bRqp.sendConsGet.pos.toNat + k)) =
        (s.sent.drop s.done.length).take n := by
  have htake := h.taking
  have hstop := htake.stop
  have hlt := s.bRqp.sendConsGet.stop.toNat_lt
  have hsame : (List.range n).map (fun k => s.bRqp.sendWqe (s.bRqp.sendConsGet.pos.toNat + k)) =
      (s.sent.drop s.done.length).take n := by
    refine List.ext_getElem? fun k => ?_
    rcases Nat.lt_or_ge k n with hk | hk
    · have hentry := h.sends.entry (show first + s.done.length ≤ first +
        s.done.length + k by omega) (by omega)
      rw [Nat.add_assoc, logFrom_add, ← Nat.add_assoc, ← h.same,
        htake.slot_add (by omega)] at hentry
      rw [List.getElem?_map, List.getElem?_range hk, List.getElem?_take_of_lt hk,
        List.getElem?_drop, hentry]
      rfl
    · rw [List.getElem?_eq_none (by rw [List.length_map, List.length_range]; exact hk),
        List.getElem?_eq_none (by rw [List.length_take]; omega)]
  refine ⟨Eq.trans (List.map_congr_left fun k hk => ?_) hsame, hsame⟩
  have hkn := List.mem_range.mp hk
  dsimp only
  rw [UInt32.toNat_add, UInt32.toNat_ofNat_of_lt' (show k < 2 ^ 32 by omega),
    Nat.mod_eq_of_lt (by omega)]

lemma Pipe.RecvInv.taking (hr : s.RecvInv start M D seen) (h : s.SendInv first K B) :
    Taking s.aRqp.recvCap s.aRqp.recvConsGet (start + sendCount s.sent) seen ∧
      D ≤ start + sendCount s.sent + s.bQp.recvCap.toNat := by
  have hdone : sendCount (s.done.map Prod.fst) ≤ sendCount s.sent := by
    rw [h.done_fst]
    exact (List.take_sublist ..).countP_le
  have hcmpl := hr.ring.cmpl_le
  have hprod := hr.ring.prod_le
  have hfull := hr.ring.full
  have hseen := hr.recvs.seen_le
  refine ⟨consume_taking ?_ ?_ ?_ hr.recvs.lo_le ?_, by omega⟩ <;> rw [hr.same]
  · exact hr.ring.cap
  · exact hr.recvs.idx
  · exact hr.cons
  · omega

variable {dev : Dev} {qp : Qp} {chan : Chan}

lemma sendWork_loop {rqp : Rqp} (hre : (sendWork dev qp rqp chan).reschedule = true) :
    (sendWorkEnd dev qp rqp chan).reschedule = true := by
  obtain hidle | ⟨-, hwork⟩ := sendWork_cases dev qp rqp chan
  · rw [hidle] at hre
    cases hre
  · rwa [hwork, (sendWorkFinish_spec _ _).reschedule] at hre

lemma Pipe.RecvInv.work (hr : s.RecvInv start M D seen) (h : s.SendInv first K B)
    (hwork : s.work dev chan = some t) : t.RecvInv start M D seen := by
  have hpend := h.pending
  have hsend := hpend.taking
  obtain rfl | ⟨wqes, s', hdone, hre, rfl⟩ := Pipe.work_cases hpend hwork
  · exact hr
  obtain ⟨htake, -⟩ := hr.taking h
  have hprod := hr.recvs.idx
  have hshows : Shows s.aRqp.recvCap.toNat (logFrom start s.recvPosted) s.aRqp.recvWqe
      (start + sendCount s.sent) seen := by
    rw [hr.same]
    exact fun k hlo hhi => hr.recvs.entry hlo hhi
  rw [← hr.same] at hprod
  -- the receives that the loop took
  have htook := sendLoopTook_took (s := ⟨s.aQp.sendProdGet.pos, s.aRqp.recvConsGet,
    s.aQp, s.aRqp, chan, false,
    false⟩) (by have := hsend.stop; dsimp only; omega) rfl (sendWork_loop hre) htake hprod hshows
  have hlen := hdone.length
  have hstop := hsend.stop
  rw [show s.aQp.sendProdGet.stop.toNat - s.aQp.sendProdGet.pos.toNat = _ from
    by rw [hstop, Nat.add_sub_cancel_left], h.ahead] at htook
  obtain ⟨htaken, hkeys⟩ := hdone.run.recvs htake hprod
  have hframe := hdone.run.frame.2.1
  have hrqp := hdone.rqp_eq
  have hcap : s'.rqp.recvCap = s.aRqp.recvCap := by rw [hframe]
  have hcons : Idx s.bQp.recvCap (sendWork dev s.aQp s.aRqp chan).rqp.recvCons
      (start + sendCount (s.sent ++ wqes)) := by
    rw [hrqp, Rqp.recvConsPut, hcap, ← hr.same, sendCount_append, ← Nat.add_assoc]
    exact htaken.update
  have hrest : (sendWork dev s.aQp s.aRqp chan).rqp =
      { s.aRqp with recvCons := (sendWork dev s.aQp s.aRqp chan).rqp.recvCons } := by
    rw [hrqp, Rqp.recvConsPut, hframe]
  generalize (sendWork dev s.aQp s.aRqp chan).rqp = rqp at hcons hrest ⊢
  rw [hrest]
  refine ⟨hr.ring, hr.same, hr.shows, hcons, ?_, hr.keys.append ?_, ?_, hr.receiver⟩
  · refine hr.recvs.advance (by dsimp only; rw [sendCount_append]; omega) ?_
    rw [sendCount_append, ← Nat.add_assoc]
    exact htaken.le
  · rw [← hr.same]
    exact hkeys
  · rw [List.length_append, hlen, List.take_add]
    refine hr.sender.append ?_
    rw [h.sendCount_posted, sendWorkTook, hstop, Nat.add_sub_cancel_left]
    exact htook

lemma Pipe.SendInv.done_next (h : s.SendInv first K B) {cqes : List Cqe} (hlen : cqes.length = n)
    (hn : n ≤ min (B - (first + s.done.length))
      (s.bRqp.sendCap.toNat - (first + s.done.length) % s.bRqp.sendCap.toNat)) {wqes : List SendWqe}
    (hwqes : wqes = (s.sent.drop s.done.length).take n) :
    (s.done ++ wqes.zip cqes).map Prod.fst = s.done.map Prod.fst ++
      (s.sent.drop s.done.length).take n := by
  rw [List.map_append, List.map_fst_zip, hwqes]
  rw [hwqes, List.length_take, List.length_drop]
  omega

variable {batch : UInt32}

lemma Pipe.RecvInv.rqpWork {mem : UInt64 → UInt8} (hr : s.RecvInv start M D seen)
    (h : s.SendInv first K B) (hbatch : BatchOk batch s.bRqp.sendConsGet)
    (hwork : s.rqpWork dev batch mem chan = some t) : t.RecvInv start M D seen := by
  have hsend := h.taking
  obtain rfl | ⟨n, s', hn, hfuel, hstop, hloop, hdone, rfl⟩ := Pipe.rqpWork_cases hsend hbatch hwork
  · exact hr
  obtain ⟨hahead, hwqes⟩ := h.rqpAhead s.bQp.recvConsGet mem hn
  have htake := hr.ring.consTaking
  have hshows : Shows s.bQp.recvCap.toNat (logFrom start s.recvPosted) s.bQp.recvWqe
      (start + sendCount (s.done.map Prod.fst)) D :=
    fun k hlo hhi => hr.shows k hlo (by have := hr.ring.prod_le; omega)
  have hend := (hdone.sends hsend hn).1
  have hlt := s'.pos.toNat_lt
  have hfault := (hdone.run.sends (by dsimp only; omega)).2.1
  have htook := rqpLoopTook_took (s := ⟨s.bRqp.sendConsGet.pos, s.bQp.recvConsGet,
    s.bQp, s.bRqp, mem, false,
    none⟩) hstop (by rw [← hloop]; exact hfault) htake hr.ring.prod hshows
  obtain ⟨htakes, -⟩ := hdone.run.recvs htake hr.ring.prod
  rw [hahead] at htook htakes
  have hclen : (portion (rqpSendWork dev batch s.bQp s.bRqp mem chan).rqp.sendCqe
      s.bRqp.sendConsGet.pos s'.pos).length = n := by
    rw [portion_length]
    omega
  have hnext :=
    h.done_next hclen hn (show portion s.bRqp.sendWqe s.bRqp.sendConsGet.pos s'.pos = _ by
    rw [portion, hend, Nat.add_sub_cancel_left]; exact hwqes)
  have hqp := hdone.qp_eq
  generalize rqpSendWork dev batch s.bQp s.bRqp mem chan = res at hqp hnext ⊢
  generalize portion s.bRqp.sendWqe s.bRqp.sendConsGet.pos s'.pos = wqes at hnext ⊢
  generalize portion res.rqp.sendCqe s.bRqp.sendConsGet.pos s'.pos = cqes at hnext ⊢
  have hframe := htakes.took.frame
  have hcap : s'.qp.recvCap = s.bQp.recvCap := by rw [hframe]
  have hidx : Idx s.bQp.recvCap (update s'.recv.pos s'.recv.base s.bQp.recvCap) _ :=
    htakes.stands.update hr.ring.cap
  have hbehind := htakes.took.slots
  have hD := htakes.prod_le
  have hcmpl := hr.ring.cmpl_le
  have hfull := hr.ring.full
  have hprod := hr.ring.prod_le
  dsimp only at hbehind
  have hshows' : Shows s.bQp.recvCap.toNat (logFrom start s.recvPosted) s'.qp.recvWqe
      (start + sendCount ((s.done ++ wqes.zip cqes).map Prod.fst))
        (start + s.recvPosted.length) := by
    intro k hlo hhi
    rw [hnext, sendCount_append] at hlo
    rw [(hbehind _ fun j hj hj' => (slot_ne (by omega) (by omega)).symm).1]
    exact hr.shows k (by omega) hhi
  rw [hqp, Qp.recvConsPut, hcap, hframe]
  refine ⟨?_, hr.same, hshows', hr.cons, hr.recvs, hr.keys, hr.sender, ?_⟩
  · rw [hnext, sendCount_append, ← Nat.add_assoc]
    exact ⟨hr.ring.cap, hr.ring.cmpl, hidx, hr.ring.prod, hr.ring.post, by omega, hD, hprod, hfull⟩
  · rw [hnext, rqpWorkTook, hfuel]
    exact hr.receiver.append htook

lemma newRecvs_length (qp qp' : Qp) (n : Nat) : (newRecvs qp qp' n).length = n := by
  rw [newRecvs, List.length_map, List.length_range]

lemma Pipe.RecvInv.postRecv (hr : s.RecvInv start M D seen) (dev : Dev) (sgCap : UInt32)
    (alloc : Nat → Nat → ShadowAlloc) (wrs : List RecvWr) :
    Pipe.RecvInv { s with
      bQp := (postRecvWrs dev sgCap alloc s.bQp wrs).2.2
      recvPosted := s.recvPosted ++ newRecvs s.bQp (postRecvWrs dev sgCap alloc s.bQp wrs).2.2
        (wrs.length - (postRecvWrs dev sgCap alloc s.bQp wrs).2.1.length) } start M D seen := by
  obtain ⟨n, hposted⟩ := postRecvWrs_spec dev sgCap alloc wrs hr.ring
  have hn : wrs.length - (postRecvWrs dev sgCap alloc s.bQp wrs).2.1.length = n := by
    have := hposted.le
    rw [hposted.bad, List.length_drop]
    omega
  have hring := hposted.ring hr.ring
  have hslots := hposted.slots
  have hframe := hposted.frame.eq
  rw [hn]
  generalize (postRecvWrs dev sgCap alloc s.bQp wrs).2.2 = qp at hring hslots hframe ⊢
  have hlen : start + (s.recvPosted ++ newRecvs s.bQp qp n).length = start +
      s.recvPosted.length + n := by
    rw [List.length_append, newRecvs_length, Nat.add_assoc]
  have hcmpl := hr.ring.cmpl_le
  have hmono : ∀ k wqe, logFrom start s.recvPosted k = some wqe →
      logFrom start (s.recvPosted ++ newRecvs s.bQp qp n) k = some wqe := logFrom_append _
  have hshows : Shows s.bQp.recvCap.toNat (logFrom start
    (s.recvPosted ++ newRecvs s.bQp qp n)) qp.recvWqe
      (start + sendCount (s.done.map Prod.fst))
        (start + (s.recvPosted ++ newRecvs s.bQp qp n).length) := by
    intro k hlo hhi
    rcases Nat.lt_or_ge k (start + s.recvPosted.length) with hold | hnew
    · rw [hslots k (by omega) hold]
      exact hmono _ _ (hr.shows k hlo hold)
    · obtain ⟨i, rfl⟩ := Nat.exists_eq_add_of_le hnew
      rw [Nat.add_assoc, logFrom_add, List.getElem?_append_right (Nat.le_add_right ..),
        Nat.add_sub_cancel_left,
        newRecvs, List.getElem?_map, List.getElem?_range (by omega),
          Option.map_some, ← Nat.add_assoc]
      -- the index of the first free slot stands for its counter
      have hpost := hr.ring.post
      rw [hpost, Nat.add_mod, Nat.mod_mod_of_dvd _ (Dvd.intro_left 2 rfl), ← Nat.add_mod]
  rw [← hlen] at hring
  rw [hframe] at hring hshows ⊢
  exact ⟨hring, hr.same, hshows, hr.cons, hr.recvs.log_mono hmono,
    hr.keys, hr.sender.log_mono hmono,
    hr.receiver.log_mono hmono⟩

lemma Pipe.RecvInv.recvWork (hr : s.RecvInv start M D seen)
    (habort : (Ntrdma.recvWork s.bQp chan).abort = false) :
    ∃ D', Pipe.RecvInv { s with
      bQp := (Ntrdma.recvWork s.bQp chan).qp
      recvs := s.recvs ++ (Ntrdma.recvWork s.bQp chan).msgs s.bQp } start M D' seen := by
  cases hready : isStateRecvReady s.bQp.state with
  | false =>
    rw [recvWork_notReady chan hready]
    simp only [RecvWork.msgs, List.map_nil, Option.toList_none, List.append_nil]
    exact ⟨D, ⟨hr.ring.cap, hr.ring.cmpl, hr.ring.cons, hr.ring.prod, hr.ring.post, hr.ring.cmpl_le,
      hr.ring.cons_le, hr.ring.prod_le, hr.ring.full⟩, hr.same, hr.shows, hr.cons,
        hr.recvs, hr.keys, hr.sender,
      hr.receiver⟩
  | true =>
    obtain ⟨-, heq⟩ | ⟨-, D', hsent⟩ := recvWork_ready chan hr.ring hready
    · rw [heq]
      simp only [RecvWork.msgs, List.map_nil, Option.toList_none, List.append_nil]
      exact ⟨D, { hr with }⟩
    · obtain ⟨rfl, hportions, hidx⟩ := hsent.sent habort
      have hring := hsent.ring
      have hframe := hsent.frame
      have hcons := hr.ring.cons_le
      have hnew : Sending s.bQp.recvCap.toNat (Idx s.bQp.recvCap) (logFrom start s.recvPosted) D
          ((Ntrdma.recvWork s.bQp chan).msgs s.bQp) (start + s.recvPosted.length) := by
        have hprod := hring.prod
        rw [show (Ntrdma.recvWork s.bQp chan).qp.recvCap = s.bQp.recvCap by rw [hframe]] at hprod
        rw [RecvWork.msgs, hidx]
        exact sending_portions hportions (fun k hlo => hr.shows k (by omega)) hprod (Nat.le_refl D)
      generalize (Ntrdma.recvWork s.bQp chan).msgs s.bQp = msgs at hnew ⊢
      generalize (Ntrdma.recvWork s.bQp chan).qp = qp at hring hframe ⊢
      rw [hframe] at hring ⊢
      exact ⟨_, hring, hr.same, hr.shows, hr.cons, hr.recvs.send hnew,
        hr.keys, hr.sender, hr.receiver⟩

lemma Pipe.RecvInv.recvArrives {msg : RingMsg RecvWqe UInt32} {rest : List (RingMsg RecvWqe UInt32)}
    (hr : s.RecvInv start M D seen) (h : s.SendInv first K B) (hmsgs : s.recvs = msg :: rest) :
    ∃ seen', Pipe.RecvInv { s with aRqp := s.aRqp.takeRecv msg, recvs := rest }
      start M D seen' := by
  obtain ⟨-, hfull⟩ := hr.taking h
  have hrecvs := hr.recvs
  rw [hmsgs] at hrecvs
  cases msg with
  | copy => exact ⟨seen, { hr with recvs := hrecvs.deliver_copy hfull }⟩
  | index =>
    obtain ⟨seen', -, hrecvs'⟩ := hrecvs.deliver_index
    exact ⟨seen', { hr with recvs := hrecvs' }⟩

lemma Pipe.RecvInv.pollRecv {room : Nat} {cqe : Cqe} (hr : s.RecvInv start M D seen)
    (habort : (pollBatch recvPoll (room + 1) s.bQp cqe).2.recvAbort = false) :
    ∃ M', Pipe.RecvInv { s with bQp := (pollBatch recvPoll (room + 1) s.bQp cqe).2 }
      start M' D seen := by
  have hring := hr.ring
  have hflush : s.bQp.recvFlushes = false := by
    obtain ⟨M', -, -, -, qp', hframe, hqp⟩ := hring.polled room cqe
    rw [hqp, hframe.eq] at habort
    by_contra hflush
    rw [Bool.not_eq_false] at hflush
    simp [Qp.recvGot, hflush] at habort
  obtain ⟨htake, hpolled⟩ := hring.opened_ready hflush room cqe
  have hcmpl := hring.cmpl_le
  have hcons := hring.cons_le
  have hprod := hring.prod_le
  have hfull := hring.full
  generalize pollBatch recvPoll (room + 1) s.bQp cqe = res at hpolled ⊢
  cases hpolled with
  | empty => exact ⟨M, hr⟩
  | some hover hn hidx =>
    rename_i n recs batch
    have hframe := hover.run.recv_frame.eq
    have hle := hover.le
    have hstop := htake.stop
    have hlt := s.bQp.recvDone.stop.toNat_lt
    have hcap : batch.qp.recvCap = s.bQp.recvCap := by rw [hframe]
    -- the entries that B still needs are not among those that were polled
    have hshows : Shows s.bQp.recvCap.toNat (logFrom start s.recvPosted) batch.qp.recvWqe
        (start + sendCount (s.done.map Prod.fst)) (start + s.recvPosted.length) := by
      intro k hlo hhi
      rw [hover.run.recv_slots (by omega)]
      · exact hr.shows k hlo hhi
      · by_contra hin
        push Not at hin
        have hsame := htake.slot_add (show k % s.bQp.recvCap.toNat -
          s.bQp.recvDone.pos.toNat < _ by omega)
        rw [Nat.add_sub_cancel' hin.1] at hsame
        exact absurd hsame (slot_ne (by omega) (by omega))
    refine ⟨M + recs.length, ?_⟩
    simp only [recvPoll, Qp.recvCmplPut, hcap]
    rw [hframe] at hshows ⊢
    exact ⟨⟨hring.cap, hidx, hring.cons, hring.prod, hring.post, by dsimp only; omega, hcons, hprod,
      by dsimp only; omega⟩, hr.same, hshows, hr.cons, hr.recvs, hr.keys, hr.sender, hr.receiver⟩

lemma Pipe.RecvInv.post (hr : s.RecvInv start M D seen) (h : s.SendInv first K B)
    (new : List SendWqe) :
    Pipe.RecvInv { s with aQp := qp, posted := s.posted ++ new } start M D seen := by
  refine { hr with sender := ?_ }
  rw [List.take_append_of_le_length h.sent_le]
  exact hr.sender

lemma Pipe.RecvInv.step {act : PipeAct} (hr : s.RecvInv start M D seen) (h : s.SendInv first K B)
    (hstep : pipeStep s act t) : ∃ M' D' seen', t.RecvInv start M' D' seen' := by
  rw [pipeStep] at hstep
  cases act with
  | post =>
    simp only [PipeAct.apply] at hstep
    split at hstep
    · cases hstep
      exact ⟨M, D, seen, hr.post h _⟩
    · cases hstep
  | work => exact ⟨M, D, seen, hr.work h hstep⟩
  | poll =>
    simp only [PipeAct.apply] at hstep
    split at hstep
    · cases hstep
    · cases hstep
      exact ⟨M, D, seen, { hr with }⟩
  | sendArrives =>
    simp only [PipeAct.apply] at hstep
    split at hstep
    · cases hstep
    · cases hstep
      exact ⟨M, D, seen, { hr with }⟩
  | rqpWork =>
    simp only [PipeAct.apply] at hstep
    split at hstep
    next hbatch => exact ⟨M, D, seen, hr.rqpWork h hbatch hstep⟩
    · cases hstep
  | cqeArrives =>
    simp only [PipeAct.apply] at hstep
    split at hstep
    · cases hstep
    · cases hstep
      exact ⟨M, D, seen, { hr with }⟩
  | postRecv dev sgCap alloc wrs =>
    simp only [PipeAct.apply] at hstep
    split at hstep
    · cases hstep
      exact ⟨M, D, seen, hr.postRecv dev sgCap alloc wrs⟩
    · cases hstep
  | recvWork =>
    simp only [PipeAct.apply] at hstep
    split at hstep
    · cases hstep
    next habort =>
      cases hstep
      obtain ⟨D', hinv⟩ := hr.recvWork (by simpa using habort)
      exact ⟨M, D', seen, hinv⟩
  | recvArrives =>
    simp only [PipeAct.apply] at hstep
    split at hstep
    · cases hstep
    next msg rest hmsgs =>
      cases hstep
      obtain ⟨seen', hinv⟩ := hr.recvArrives h hmsgs
      exact ⟨M, D, seen', hinv⟩
  | pollRecv =>
    simp only [PipeAct.apply] at hstep
    split at hstep
    · cases hstep
    next habort =>
      cases hstep
      obtain ⟨M', hinv⟩ := hr.pollRecv (by simpa using habort)
      exact ⟨M', D, seen, hinv⟩

lemma Pipe.RecvInv.matched (hr : s.RecvInv start M D seen) (h : s.SendInv first K B) (dev : Dev)
    (mem : UInt64 → UInt8) (chan : Chan) (hbatch : BatchOk batch s.bRqp.sendConsGet) :
    (rqpSendWork dev batch s.bQp s.bRqp mem chan).fault ≠ some .corrupt ∧
      (rqpSendWork dev batch s.bQp s.bRqp mem chan).fault ≠ some .recvMissing := by
  have hsend := h.taking
  have hstop := hsend.stop
  have hend := batchStop_eq hbatch.2
  obtain hidle | ⟨hne, hwork⟩ := rqpSendWork_cases dev batch s.bQp s.bRqp mem chan
  · rw [hidle]
    exact ⟨nofun, nofun⟩
  rw [hwork, (rqpWorkFinish_spec _ _ _).fault, rqpWorkEnd]
  have hn : (batchStop batch s.bRqp.sendConsGet - s.bRqp.sendConsGet.pos).toNat =
      (batchStop batch s.bRqp.sendConsGet).toNat - s.bRqp.sendConsGet.pos.toNat :=
    toNat_sub32 (by omega)
  generalize (batchStop batch s.bRqp.sendConsGet - s.bRqp.sendConsGet.pos).toNat = n at hn ⊢
  obtain ⟨hahead, -⟩ := h.rqpAhead s.bQp.recvConsGet mem (n := n) (by omega)
  -- the sends ahead are among those for which A took a receive
  have hle : sendCount (s.done.map Prod.fst) + sendCount ((s.sent.drop s.done.length).take n) ≤
      sendCount s.sent := by
    rw [h.done_fst, ← sendCount_append, ← List.take_add]
    exact (List.take_sublist ..).countP_le
  have hlo := hr.recvs.lo_le
  have hseen := hr.recvs.seen_le
  refine rqpWorkLoop_matched hr.ring.consTaking hr.ring.prod ?_ ?_ rfl
  · rw [hahead, h.done_fst]
    exact hr.keys.part _ _
  · rw [hahead]
    omega

end

lemma RecvConnected.inv {aQp bQp : Qp} {aRqp bRqp : Rqp} {start : Nat}
    (h : RecvConnected bQp aRqp start) :
    (Pipe.start aQp aRqp bQp bRqp).RecvInv start start start start where
  ring := ⟨h.cap, h.cmpl, h.cons, h.prod, h.post, Nat.le_refl _, Nat.le_refl _, Nat.le_refl _,
    Nat.le_add_right ..⟩
  same := h.same
  shows := Shows.nil
  cons := h.peerCons
  recvs := .start h.peerProd
  keys := nofun
  sender := .nil
  receiver := .nil

/-- On both hosts the sends took the receives in the order of posting, and `ntrdma_rqp_send_work`
finds the receive that the sender took. -/
structure Pipe.Matched (s : Pipe) : Prop where
  sender : s.aTook.map Prod.fst = (s.posted.take s.sent.length).filter
    (fun wqe => wrCodeIsSend wqe.opCode) ∧
    s.aTook.map Prod.snd <+: s.recvPosted
  receiver : s.bTook.map Prod.fst = (s.done.map Prod.fst).filter
    (fun wqe => wrCodeIsSend wqe.opCode) ∧
    s.bTook.map Prod.snd <+: s.recvPosted
  faults : ∀ dev batch mem chan, BatchOk batch s.bRqp.sendConsGet →
    (rqpSendWork dev batch s.bQp s.bRqp mem chan).fault ≠ some .corrupt ∧
      (rqpSendWork dev batch s.bQp s.bRqp mem chan).fault ≠ some .recvMissing

/-- In every run each send takes the receive whose index it carries, on both hosts alike. -/
theorem pipe_matched {aQp bQp : Qp} {aRqp bRqp : Rqp} {sendStart recvStart : Nat}
    (hsend : SendConnected aQp bRqp sendStart) (hrecv : RecvConnected bQp aRqp recvStart) {s : Pipe}
    (hrun : Reaches pipeStep (Pipe.start aQp aRqp bQp bRqp) s) : s.Matched := by
  obtain ⟨⟨K, B, h⟩, M, D, seen, hr⟩ : (∃ K B, s.SendInv sendStart K B) ∧
      ∃ M D seen, s.RecvInv recvStart M D seen := by
    refine hrun.invariant (I := fun s => (∃ K B, s.SendInv sendStart K B) ∧
      ∃ M D seen, s.RecvInv recvStart M D seen)
      ⟨⟨_, _, hsend.inv⟩, _, _, _, hrecv.inv⟩ fun s act t hs hstep => ?_
    obtain ⟨⟨K, B, h⟩, M, D, seen, hr⟩ := hs
    exact ⟨h.step hstep, hr.step h hstep⟩
  have hlog : ∀ k, logFrom recvStart s.recvPosted (recvStart + k) = s.recvPosted[k]? := logFrom_add
  exact ⟨⟨hr.sender.fst, hr.sender.snd hlog (Nat.add_zero _).symm⟩,
    ⟨hr.receiver.fst, hr.receiver.snd hlog (Nat.add_zero _).symm⟩,
    fun dev batch mem chan hbatch => hr.matched h dev mem chan hbatch⟩

lemma idlePipe_recvs : RecvConnected (Qp.fresh 4) (Rqp.fresh 4) 0 :=
  ⟨⟨by decide, by decide⟩, rfl, rfl, rfl, rfl, rfl, rfl, rfl⟩

theorem pipe_matched_one :
    ∃ s, Reaches pipeStep idlePipe s ∧
      s.bTook.map (fun p => (p.1.ulpHandle, p.2.ulpHandle)) = [(9, 7)] ∧ s.Matched := by
  obtain ⟨s, hrun, htook⟩ : ∃ s, Reaches pipeStep idlePipe s ∧
      s.bTook.map (fun p => (p.1.ulpHandle, p.2.ulpHandle)) = [(9, 7)] :=
    ⟨_, Reaches.of_foldlM (l := sendOne ++ completeOne) rfl, rfl⟩
  exact ⟨s, hrun, htook, pipe_matched idlePipe_connected idlePipe_recvs hrun⟩

end Ntrdma
