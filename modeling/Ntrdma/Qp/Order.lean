import Ntrdma.Qp.SendWork

/-!
# The order of RDMA writes

Model of `ntrdma_qp_additional_work` and `ntrdma_post_send`, and the order in which a sequence of
calls issues its writes. A call executes the unsignaled writes while it posts and the signaled ones
when it has posted all, so that an unsignaled write overtakes the signaled ones before it in its
call.
-/

namespace Ntrdma
open Lib Ntrdma.Ring

/-- The result of `ntrdma_qp_additional_work`: whether entries are left that could not be executed
(`stalled`), and whether the last call of `ntrdma_qp_send_work` did not ask for another
(`ended`). -/
structure AddWork where
  qp : Qp
  rqp : Rqp
  chan : Chan
  abort : Bool
  stalled : Bool
  sent : List RingSend
  ended : Bool

/-- The loop of `ntrdma_qp_additional_work`, with a bound on its rounds. -/
def additionalWorkLoop (dev : Dev) : Nat → Qp → Rqp → Chan → AddWork
  | 0, qp, rqp, chan => ⟨qp, rqp, chan, false, true, [], false⟩
  | n + 1, qp, rqp, chan =>
    let work := sendWork dev qp rqp chan
    if work.reschedule then
      let rest := additionalWorkLoop dev n work.qp work.rqp work.chan
      { rest with abort := work.abort || rest.abort, sent := work.sent.toList ++ rest.sent }
    else
      ⟨work.qp, work.rqp, work.chan, work.abort, qp.sendProdGet.pos != qp.sendProdGet.stop,
        work.sent.toList, true⟩

/-- C `ntrdma_qp_additional_work`. The entries that are left are in at most two ranges, so the third
call finds nothing to do. -/
def additionalWork (dev : Dev) (qp : Qp) (rqp : Rqp) (chan : Chan) (hasDeferredWork : Bool) :
    AddWork :=
  if hasDeferredWork then additionalWorkLoop dev 3 qp rqp chan
  else ⟨qp, rqp, chan, false, false, [], true⟩

/-- The result of `ntrdma_post_send`; `bad` is set only if the queue pair is ready. -/
structure PostSend extends AddWork where
  rc : Except Errno Unit
  bad : Option (List SendWr)

def postSend (dev : Dev) (umem : UInt64 → Option UInt8) (qp : Qp) (rqp : Rqp) (chan : Chan)
    (wrs : List SendWr) : PostSend :=
  if isStateSendReady qp.state then
    let res := postSendLocked dev umem qp chan wrs
    { additionalWork dev res.qp rqp res.chan res.hasDeferredWork with
      rc := res.rc, bad := some res.bad }
  else
    { qp, rqp, chan, abort := false, stalled := false, sent := [], ended := true,
      rc := .error .einval, bad := none }

/-! ## What a write stores -/

def DmaReq.stores (mem : UInt64 → UInt8) (req : DmaReq) : List (UInt64 × UInt8) :=
  req.moves.map (fun m => (m.2, mem m.1)) ++ req.puts.map Prod.swap

def Chan.stores (mem : UInt64 → UInt8) (chan : Chan) : List (UInt64 × UInt8) :=
  chan.log.flatMap (DmaReq.stores mem)

/-- The first `n` bytes of the target of an RDMA write. -/
def SendWqe.target (dev : Dev) (wqe : SendWqe) (n : Nat) : List (Option UInt64) :=
  rcvLocs dev [.direct { wqe.rdmaSge with length := .ofNat n }]

def writeStores (dev : Dev) (mem : UInt64 → UInt8) (wqe : SendWqe) : List (UInt64 × UInt8) :=
  if isInlineFlag wqe.flags then
    let data := (wqe.tail.take wqe.count.toNat).map some
    ((lockstep data (wqe.target dev data.length)).getD []).map Prod.swap
  else
    let locs := sndLocs dev wqe.sndSgList
    ((lockstep locs (wqe.target dev locs.length)).getD []).map fun m => (m.2, mem m.1)

variable {dev : Dev}

lemma lockstep_target {α : Type} {wqe : SendWqe} {l : List (Option α)}
    (hkey : ibSgeReserved wqe.rdmaSge = false) (hlen : l.length < 2 ^ 32) :
    lockstep l (rcvLocs dev [.direct { wqe.rdmaSge with length := 0xFFFFFFFF }]) =
      lockstep l (wqe.target dev l.length) := by
  have hkey : wqe.rdmaSge.lkey ≠ reservedDmaLkey := by simpa [ibSgeReserved] using hkey
  rw [← lockstep_take]
  congr 1
  simp only [SendWqe.target, rcvLocs_cons, rcvLocs_nil, List.append_nil,
    rcvSgeLocs, RcvSge.remoteKey,
    if_neg hkey, RcvSge.len, RcvSge.sgeAddr, UInt32.toNat_toUInt64]
  rw [← List.map_take, UInt32.toNat_ofNat_of_lt' hlen,
    span_take (show l.length ≤ (0xFFFFFFFF : UInt32).toNat by
      rw [show (0xFFFFFFFF : UInt32).toNat = 2 ^ 32 - 1 from rfl]
      omega)]

variable {chan : Chan}

lemma qpRdmaWrite_key {wqe : SendWqe} {res} (h : qpRdmaWrite dev chan wqe = (.ok (), res)) :
    ibSgeReserved wqe.rdmaSge = false := by
  by_contra hkey
  rw [Bool.not_eq_false] at hkey
  simp [qpRdmaWrite, hkey] at h

variable {reqs : List DmaReq}

lemma stores_imm {mem : UInt64 → UInt8} (h : ∀ req ∈ reqs, ∃ data, req.src = .imm data) :
    reqs.flatMap (DmaReq.stores mem) = (reqs.flatMap DmaReq.puts).map Prod.swap := by
  rw [List.map_flatMap]
  refine List.flatMap_congr fun req hreq => ?_
  obtain ⟨data, hsrc⟩ := h req hreq
  simp [DmaReq.stores, DmaReq.moves, hsrc]

lemma stores_mem {mem : UInt64 → UInt8} (h : ∀ req ∈ reqs, ∃ a, req.src = .mem a) :
    reqs.flatMap (DmaReq.stores mem) = (reqs.flatMap DmaReq.moves).map fun m => (m.2, mem m.1) := by
  rw [List.map_flatMap]
  refine List.flatMap_congr fun req hreq => ?_
  obtain ⟨a, hsrc⟩ := h req hreq
  simp [DmaReq.stores, DmaReq.puts, hsrc]

lemma Chan.stores_append {chan chan' : Chan} (mem : UInt64 → UInt8)
    (h : chan'.log = chan.log ++ reqs) :
    chan'.stores mem = chan.stores mem ++ reqs.flatMap (DmaReq.stores mem) := by
  rw [Chan.stores, h, List.flatMap_append, Chan.stores]

lemma qpRdmaWrite_stores {chan chan' : Chan} {wqe wqe' : SendWqe} (mem : UInt64 → UInt8)
    (h : qpRdmaWrite dev chan wqe = (.ok (), wqe', chan')) :
    chan'.stores mem = chan.stores mem ++ writeStores dev mem wqe := by
  have hkey := qpRdmaWrite_key h
  obtain ⟨rdmaLen, -, ⟨hinline, -, hzip⟩ | ⟨hinline, hzip⟩⟩ := qpRdmaWrite_ok h
  · have hlen : (wqe.tail.take wqe.count.toNat).length < 2 ^ 32 := by
      have := wqe.count.toNat_lt
      rw [List.length_take]
      omega
    have hspec := zipRdmaImm_spec dev chan [.direct { wqe.rdmaSge with length := 0xFFFFFFFF }]
      (wqe.tail.take wqe.count.toNat) 0 hlen
    rw [hzip, UInt32.toNat_zero, List.drop_zero] at hspec
    obtain ⟨puts, -, hm, reqs, hlog, rfl, himm⟩ := hspec.of_ok
    rw [lockstep_target hkey (by rwa [List.length_map])] at hm
    simp only [writeStores, if_pos hinline]
    rw [hm, Chan.stores_append mem hlog, stores_imm fun req hreq =>
      (himm req hreq).imp fun _ h => h.1]
    rfl
  · obtain ⟨htotal, reqs, hlog, hm, -, hwithin⟩ := zipRdma_ok hzip
    have hlt := rdmaLen.toNat_lt
    rw [htotal, ← length_sndLocs dev] at hlt
    rw [UInt32.toNat_zero, List.drop_zero, lockstep_target hkey hlt] at hm
    simp only [writeStores, hinline]
    rw [hm, Chan.stores_append mem hlog, stores_mem fun req hreq => (hwithin req hreq).mem]
    rfl

variable {wqes : List SendWqe}

lemma runWrites_stores {chan chan' : Chan} (mem : UInt64 → UInt8)
    (h : runWrites dev chan wqes = some chan') :
    chan'.stores mem = chan.stores mem ++ wqes.flatMap (writeStores dev mem) := by
  induction wqes generalizing chan with
  | nil =>
    cases h
    simp
  | cons _ _ ih =>
    simp only [runWrites] at h
    split at h
    next w c hw => rw [ih h, qpRdmaWrite_stores mem hw, List.flatMap_cons, List.append_assoc]
    · cases h

lemma writeStores_core {wqe wqe' : SendWqe} (mem : UInt64 → UInt8) (h : wqe'.core = wqe.core) :
    writeStores dev mem wqe = writeStores dev mem wqe' := by
  have hcore : ∀ w : SendWqe, writeStores dev mem w.core = writeStores dev mem w := fun _ => rfl
  rw [← hcore wqe, ← h, hcore]

lemma flatMap_core (mem : UInt64 → UInt8) (wqes : List SendWqe) :
    wqes.flatMap (writeStores dev mem) = (wqes.map SendWqe.core).flatMap (writeStores dev mem) := by
  rw [List.flatMap_map]
  rfl

lemma SendRun.stores {s s' : SendLoop} (mem : UInt64 → UInt8) (h : SendRun dev s wqes s')
    (hwrite : ∀ wqe ∈ wqes, wqe.opCode = wrRdmaWrite) :
    s'.chan.stores mem = s.chan.stores mem ++ wqes.flatMap (writeStores dev mem) := by
  induction h with
  | nil => simp
  | cons hround hrun ih =>
    rename_i s s1 s' wqe wqes
    have hw := hround.write (hwrite wqe List.mem_cons_self)
    have hmean : writeStores dev mem (s.qp.sendWqe s.pos.toNat) = writeStores dev mem wqe :=
      writeStores_core mem hround.executed.core
    rw [ih fun w hw => hwrite w (List.mem_cons_of_mem _ hw), qpRdmaWrite_stores mem hw, hmean,
      List.flatMap_cons, List.append_assoc]

/-! ## The order of a call -/

variable {qp : Qp} {rqp : Rqp}

lemma additionalWorkLoop_ended {n : Nat} (h : (sendWork dev qp rqp chan).reschedule = true →
      (additionalWorkLoop dev n (sendWork dev qp rqp chan).qp (sendWork dev qp rqp chan).rqp
        (sendWork dev qp rqp chan).chan).ended = true) :
    (additionalWorkLoop dev (n + 1) qp rqp chan).ended = true := by
  simp only [additionalWorkLoop]
  split
  next hre => exact h hre
  · rfl

/-- A loop that came to its end makes no use of more rounds. -/
lemma additionalWorkLoop_more {n : Nat} (h : (additionalWorkLoop dev n qp rqp chan).ended = true)
    (k : Nat) : additionalWorkLoop dev (n + k) qp rqp chan =
      additionalWorkLoop dev n qp rqp chan := by
  induction n generalizing qp rqp chan with
  | zero => cases h
  | succ _ ih =>
    rw [Nat.add_right_comm]
    simp only [additionalWorkLoop] at h ⊢
    split
    next hre =>
      rw [if_pos hre] at h
      rw [ih h]
    · rfl

/-- The loop of `ntrdma_qp_additional_work` ends in its third round or before: one of the first
three calls of `ntrdma_qp_send_work` does not ask for another. -/
theorem additionalWorkLoop_ends {D P : Nat} (hpend : qp.Pending D P) :
    (additionalWorkLoop dev 3 qp rqp chan).ended = true ∧
      ∀ k, additionalWorkLoop dev (3 + k) qp rqp chan = additionalWorkLoop dev 3 qp rqp chan := by
  -- with nothing pending there is one round, and with one range there are two
  have hone : ∀ (qp : Qp) rqp chan P, qp.Pending P P →
      (additionalWorkLoop dev 1 qp rqp chan).ended = true := by
    intro qp rqp chan P hpend
    refine additionalWorkLoop_ended fun hre => ?_
    simp [sendWork, hpend.taking.empty_iff.2 rfl] at hre
  have htwo : ∀ (qp : Qp) rqp chan D P, qp.Pending D P →
      P - D ≤ qp.sendCap.toNat - D % qp.sendCap.toNat →
      (additionalWorkLoop dev 2 qp rqp chan).ended = true := by
    intro qp rqp chan D P hpend hrange
    refine additionalWorkLoop_ended fun hre => ?_
    obtain ⟨done, s', hdone⟩ := sendWork_done hpend.taking hre
    have hnext := hdone.pending hpend rfl
    rw [Nat.min_eq_left hrange, Nat.add_sub_cancel' hpend.le] at hnext
    exact hone _ _ _ _ hnext
  have hended : (additionalWorkLoop dev 3 qp rqp chan).ended = true := by
    refine additionalWorkLoop_ended fun hre => ?_
    obtain ⟨done, s', hdone⟩ := sendWork_done hpend.taking hre
    have hnext := hdone.pending hpend rfl
    have hcap : (sendWork dev qp rqp chan).qp.sendCap = qp.sendCap := by
      rw [hdone.qp_eq, hdone.run.frame.1]
      rfl
    refine htwo _ _ _ _ _ hnext ?_
    rw [hcap]
    have hfull := hpend.full
    rcases Nat.le_total (P - D) (qp.sendCap.toNat - D % qp.sendCap.toNat) with hle | hle
    · omega
    · rw [Nat.min_eq_right hle, slot_end D hpend.cap.pos]
      omega
  exact ⟨hended, additionalWorkLoop_more hended⟩

theorem additionalWorkLoop_ends_wrapped :
    let qp : Qp := { Qp.fresh 4 with sendProd := 3, sendPost := 5 }
    (additionalWorkLoop smallDev 3 qp (.fresh 4) freshChan).ended = true := by
  intro qp
  have hpend : qp.Pending 3 5 := ⟨⟨by decide, by decide⟩, Eq.refl 3,
    Eq.refl 5, by decide, by decide⟩
  exact (additionalWorkLoop_ends hpend).1

lemma additionalWork_worked (dev : Dev) (qp : Qp) (rqp : Rqp) (chan : Chan) (more : Bool) :
    qp.Worked (additionalWork dev qp rqp chan more).qp := by
  have hloop : ∀ n (qp : Qp) rqp chan, qp.Worked (additionalWorkLoop dev n qp rqp chan).qp := by
    intro n
    induction n with
    | zero => exact fun qp _ _ => .refl qp
    | succ _ ih =>
      intro qp rqp chan
      rw [additionalWorkLoop]
      split
      · exact (sendWork_worked dev qp rqp chan).trans (ih _ _ _)
      · exact sendWork_worked dev qp rqp chan
  rw [additionalWork]
  split
  · exact hloop 3 qp rqp chan
  · exact .refl qp

def AddWork.Clean (work : AddWork) : Prop := work.abort = false ∧ work.stalled = false

lemma additionalWorkLoop_clean {n : Nat} {D P : Nat} (mem : UInt64 → UInt8) (hpend : qp.Pending D P)
    (hholds : Holds qp.sendCap.toNat qp.sendWqe D wqes) (hlen : D + wqes.length = P)
    (hwrite : ∀ wqe ∈ wqes, wqe.opCode = wrRdmaWrite)
    (hclean : (additionalWorkLoop dev n qp rqp chan).Clean) :
    (additionalWorkLoop dev n qp rqp chan).qp.Pending P P ∧
      qp.SendFrame (additionalWorkLoop dev n qp rqp chan).qp ∧
      (additionalWorkLoop dev n qp rqp chan).chan.stores mem =
        chan.stores mem ++ wqes.flatMap (writeStores dev mem) := by
  induction n generalizing qp rqp chan D wqes with
  | zero => cases hclean.2
  | succ _ ih =>
    have htake := hpend.taking
    have hfull := hpend.full
    simp only [additionalWorkLoop] at hclean ⊢
    split at hclean
    next hre =>
      obtain ⟨hab, hstalled⟩ := hclean
      rw [Bool.or_eq_false_iff] at hab
      obtain ⟨done, s', hdone⟩ := sendWork_done htake hre
      rw [if_pos hre]
      generalize sendWork dev qp rqp chan = work at *
      obtain ⟨m, hm⟩ : ∃ m, m = min (P - D) (qp.sendCap.toNat - D % qp.sendCap.toNat) := ⟨_, rfl⟩
      rw [← hm] at hdone
      have hframe : qp.SendFrame work.qp := by
        rw [Qp.SendFrame, hdone.qp_eq, hdone.run.frame.1]
        rfl
      have hcap' : work.qp.sendCap = qp.sendCap := by rw [hframe]
      have hcores := hdone.cores htake hm hholds (by omega)
      have hrest := hdone.holds htake hm hholds (by omega)
      rw [← hcap'] at hrest
      obtain ⟨hpend', hframe', hstores⟩ := ih (hdone.pending hpend hm) hrest (by
        rw [List.length_drop]
        omega) (fun w hw => hwrite w (List.mem_of_mem_drop hw)) ⟨hab.2, hstalled⟩
      refine ⟨hpend', hframe.trans hframe', ?_⟩
      have hdonewrite : ∀ w ∈ done, w.opCode = wrRdmaWrite := by
        intro w hw
        have hmem : w.core ∈ (wqes.take m).map SendWqe.core := hcores ▸ List.mem_map_of_mem hw
        obtain ⟨w', hw', heq⟩ := List.mem_map.1 hmem
        rw [← SendWqe.opCode_of_core heq]
        exact hwrite w' (List.mem_of_mem_take hw')
      have hlog : work.chan.stores mem = chan.stores mem ++ (wqes.take m).flatMap
          (writeStores dev mem) := by
        rw [Chan.stores, hdone.log, ← Chan.stores, hdone.run.stores mem hdonewrite, flatMap_core,
          hcores, ← flatMap_core]
      rw [hstores, hlog, List.append_assoc, ← List.flatMap_append, List.take_append_drop]
    next hre =>
      have hempty : D = P := by
        have := hclean.2
        simp only [bne_eq_false_iff_eq] at this
        exact htake.empty_iff.1 this
      subst hempty
      have hnil : wqes = [] := List.length_eq_zero_iff.1 (by omega)
      subst hnil
      have hidle : sendWork dev qp rqp chan = ⟨qp, rqp, chan, false, false, none⟩ := by
        simp only [sendWork, if_pos (htake.empty_iff.2 rfl)]
      rw [if_neg hre, hidle]
      exact ⟨hpend, rfl, (List.append_nil _).symm⟩

def issueOrder (wqes : List SendWqe) : List SendWqe := immediate wqes ++ deferred wqes

def PostSend.Clean (res : PostSend) : Prop := res.rc = .ok () ∧ res.toAddWork.Clean

lemma postSend_clean {umem} {wrs : List SendWr} {P C : Nat} (mem : UInt64 → UInt8)
    (hring : qp.SendRing P C) (hpend : qp.Pending P P)
    (hwrite : ∀ wr ∈ wrs, wr.opcode = wrRdmaWrite.toUInt32)
    (hclean : (postSend dev umem qp rqp chan wrs).Clean) :
    ∃ P', (postSend dev umem qp rqp chan wrs).qp.SendRing P' C ∧
      (postSend dev umem qp rqp chan wrs).qp.Pending P' P' ∧
      wqeOf (postSend dev umem qp rqp chan wrs).qp umem = wqeOf qp umem ∧
      (postSend dev umem qp rqp chan wrs).chan.stores mem = chan.stores mem ++
        (issueOrder (wrs.map (wqeOf qp umem))).flatMap (writeStores dev mem) := by
  obtain ⟨hrc, hclean⟩ := hclean
  simp only [postSend] at hrc hclean ⊢
  split at hrc
  next hready =>
    rw [if_pos hready] at hclean ⊢
    obtain ⟨n, hposted⟩ := @postSendLocked_spec qp dev umem P C chan wrs hring
    generalize postSendLocked dev umem qp chan wrs = res at *
    have hn := hposted.all hrc
    subst hn
    obtain ⟨chan', hrun, hchan⟩ := hposted.writes
    have hbuilds := hposted.builds
    have hring' := hposted.ring
    have hholds := hposted.holds
    have hflag := hposted.flag
    rw [List.take_length] at hrun hbuilds hring' hholds hflag
    have hop : ∀ wqe ∈ wrs.map (wqeOf qp umem), wqe.opCode = wrRdmaWrite := by
      intro wqe hmem
      obtain ⟨wr, hwr, rfl⟩ := List.mem_map.1 hmem
      rw [(hbuilds wr hwr).spec.2.1, hwrite wr hwr]
      rfl
    have hnow : res.chan.stores mem = chan.stores mem ++
        (immediate (wrs.map (wqeOf qp umem))).flatMap (writeStores dev mem) := by
      rw [hchan hrc, runWrites_stores mem hrun]
    have hframe := hposted.frame
    have hcap : res.qp.sendCap = qp.sendCap := by rw [hframe]
    have hle := hring.le
    have hpend' : res.qp.Pending P
        (P + (deferred (wrs.map (wqeOf qp umem))).length) := by
      have hprod : res.qp.sendProd = qp.sendProd := by rw [hframe]
      have hfull := hring'.full
      refine ⟨hring'.cap, ?_, hring'.post, Nat.le_add_right _ _, by omega⟩
      rw [hprod, hcap]
      exact hpend.prod
    simp only [additionalWork] at hclean ⊢
    split at hclean
    next hdef =>
      rw [← hcap] at hholds
      obtain ⟨hdone, hsend, hstores⟩ := additionalWorkLoop_clean mem hpend' hholds rfl
        (fun wqe hmem => hop wqe (List.mem_of_mem_filter hmem)) hclean
      rw [if_pos hdef]
      generalize additionalWorkLoop dev 3 res.qp rqp res.chan = work at *
      refine ⟨_, ?_, hdone, ?_, ?_⟩
      · have hcmpl : work.qp.sendCmpl = res.qp.sendCmpl := by rw [hsend]
        have hcap' : work.qp.sendCap = res.qp.sendCap := by rw [hsend]
        exact ⟨hdone.cap, hdone.post, by rw [hcmpl, hcap']; exact hring'.cmpl, hring'.le,
          by rw [hcap']; exact hring'.full⟩
      · rw [hsend, hframe]
        rfl
      · rw [hstores, hnow, List.append_assoc, ← List.flatMap_append, issueOrder]
    next hdef =>
      have hnil := (hflag (by simpa using hdef)).2
      rw [hnil] at hring' hpend'
      rw [if_neg hdef]
      refine ⟨_, hring', hpend', ?_, ?_⟩
      · rw [hframe]
        rfl
      · rw [hnow, issueOrder, hnil, List.append_nil]
  · cases hrc

/-! ## A sequence of calls -/

/-- Calls one after another, each without an error. In between entries complete, and the peer posts
receives. -/
inductive PostRun (dev : Dev) (umem : UInt64 → Option UInt8) :
    Qp × Rqp × Chan → List (List SendWr) → Qp × Rqp × Chan → Prop where
  | nil (s) : PostRun dev umem s [] s
  | call {qp rqp chan wrs calls s'} : (postSend dev umem qp rqp chan wrs).Clean →
    PostRun dev umem ((postSend dev umem qp rqp chan wrs).qp,
      (postSend dev umem qp rqp chan wrs).rqp,
      (postSend dev umem qp rqp chan wrs).chan) calls s' →
    PostRun dev umem (qp, rqp, chan) (wrs :: calls) s'
  | other {qp rqp chan calls s'} (cmpl : UInt32) (rqp' : Rqp) :
    Ring.valid qp.sendPost cmpl qp.sendCap = true →
    PostRun dev umem ({ qp with sendCmpl := cmpl }, rqp', chan) calls s' →
    PostRun dev umem (qp, rqp, chan) calls s'

lemma PostRun.stores {umem} {s s' : Qp × Rqp × Chan} {calls : List (List SendWr)}
    (mem : UInt64 → UInt8) (hrun : PostRun dev umem s calls s') (hcap : Cap s.1.sendCap)
    (hvalid : Ring.valid s.1.sendPost s.1.sendCmpl s.1.sendCap = true)
    (hsent : s.1.sendProd = s.1.sendPost)
    (hwrite : ∀ wrs ∈ calls, ∀ wr ∈ wrs, wr.opcode = wrRdmaWrite.toUInt32) :
    s'.2.2.stores mem = s.2.2.stores mem ++
      (calls.flatMap fun wrs => issueOrder (wrs.map (wqeOf s.1 umem))).flatMap
        (writeStores dev mem) := by
  induction hrun with
  | nil => simp
  | call hclean hrun ih =>
    rename_i qp rqp chan wrs calls s'
    have hring := Qp.sendRing_of_valid hcap hvalid
    have hpend : qp.Pending _ _ :=
      ⟨hcap, hsent ▸ hring.post, hring.post, Nat.le_refl _, Nat.le_add_right _ _⟩
    obtain ⟨P', hring', hpend', hof, hstores⟩ :=
      postSend_clean mem hring hpend (hwrite wrs List.mem_cons_self) hclean
    have hrest := ih hring'.cap hring'.valid (UInt32.toNat_inj.1
      (hpend'.prod.trans hpend'.post.symm))
      fun wrs hmem => hwrite wrs (List.mem_cons_of_mem _ hmem)
    rw [hrest, hof, hstores, List.append_assoc, List.flatMap_cons, List.flatMap_append]
  | other _ _ hvalid' _ ih => exact ih hcap hvalid' hsent hwrite

def InOrder (wrs : List SendWr) : Prop :=
  wrs.Pairwise fun a b => isSignaled a.sendFlags = true → isSignaled b.sendFlags = true

lemma issueOrder_eq
    (h : wqes.Pairwise fun a b => sendIsNonSignaledWrite b = true →
      sendIsNonSignaledWrite a = true) : issueOrder wqes = wqes := by
  induction wqes with
  | nil => rfl
  | cons wqe wqes ih =>
    obtain ⟨hhead, htail⟩ := List.pairwise_cons.1 h
    have ih := ih htail
    rw [issueOrder] at ih ⊢
    cases hwqe : sendIsNonSignaledWrite wqe with
    | true => rw [immediate_cons_true hwqe, deferred_cons_true hwqe, List.cons_append, ih]
    | false =>
      have hnone : immediate wqes = [] := by
        rw [immediate, List.filter_eq_nil_iff]
        intro w hw hnow
        cases (hhead w hw hnow).symm.trans hwqe
      rw [immediate_cons_false hwqe, deferred_cons_false hwqe, hnone, List.nil_append]
      rw [hnone, List.nil_append] at ih
      rw [ih]

lemma wqeOf_hdr (qp : Qp) (umem : UInt64 → Option UInt8) (wr : SendWr) :
    (wqeOf qp umem wr).flags = wr.sendFlags ∧ (wqeOf qp umem wr).opCode = wr.opcode.toUInt16 := by
  have hsend : (ibSendToWqe qp wr).2.flags = wr.sendFlags ∧
      (ibSendToWqe qp wr).2.opCode = wr.opcode.toUInt16 := by
    simp only [ibSendToWqe]
    split
    · exact ⟨rfl, rfl⟩
    · split
      · split <;> exact ⟨rfl, rfl⟩
      · exact ⟨rfl, rfl⟩
  have hsgl : ∀ (l : List IbSge) (wqe : SendWqe), (ibSendToWqeSgl wqe l).2.flags = wqe.flags ∧
      (ibSendToWqeSgl wqe l).2.opCode = wqe.opCode := by
    intro l
    induction l with
    | nil => exact fun _ => ⟨rfl, rfl⟩
    | cons _ _ ih =>
      intro wqe
      simp only [ibSendToWqeSgl]
      split
      · exact ⟨rfl, rfl⟩
      · exact ih _
  simp only [wqeOf, postSendBuild]
  split
  next h => rwa [h] at hsend
  next h =>
    rw [h] at hsend
    simp only [postSendFill]
    split
    · exact hsend
    · exact ⟨(hsgl _ _).1.trans hsend.1, (hsgl _ _).2.trans hsend.2⟩

lemma InOrder.issueOrder {umem} {wrs : List SendWr} (h : InOrder wrs)
    (hwrite : ∀ wr ∈ wrs, wr.opcode = wrRdmaWrite.toUInt32) :
    issueOrder (wrs.map (wqeOf qp umem)) = wrs.map (wqeOf qp umem) := by
  refine issueOrder_eq (List.pairwise_map.2 (List.Pairwise.imp_of_mem ?_ h))
  intro a b ha _ hab hnow
  simp only [sendIsNonSignaledWrite, wqeOf_hdr, hwrite a ha, Bool.and_eq_true, Bool.not_eq_true',
    Bool.eq_false_iff] at hnow ⊢
  exact ⟨rfl, fun hsig => hnow.2 (hab hsig)⟩

/-- Every call issues its unsignaled writes in posting order and then its signaled ones. If no
unsignaled write follows a signaled one, the memory of the peer is that after the writes in posting
order. -/
theorem postRun_order {dev : Dev} {umem : UInt64 → Option UInt8} {qp qp' : Qp} {rqp rqp' : Rqp}
    {chan chan' : Chan} {calls : List (List SendWr)} (mem : UInt64 → UInt8)
    (hrun : PostRun dev umem (qp, rqp, chan) calls (qp', rqp', chan')) (hcap : Cap qp.sendCap)
    (hvalid : Ring.valid qp.sendPost qp.sendCmpl qp.sendCap = true)
    (hsent : qp.sendProd = qp.sendPost)
    (hwrite : ∀ wrs ∈ calls, ∀ wr ∈ wrs, wr.opcode = wrRdmaWrite.toUInt32) :
    chan'.stores mem = chan.stores mem ++
        (calls.flatMap fun wrs => issueOrder (wrs.map (wqeOf qp umem))).flatMap
          (writeStores dev mem) ∧
      ((∀ wrs ∈ calls, InOrder wrs) → ∀ remote, applyStores remote (chan'.stores mem) =
        applyStores (applyStores remote (chan.stores mem))
          ((calls.flatten.map (wqeOf qp umem)).flatMap (writeStores dev mem))) := by
  have hstores := hrun.stores mem hcap hvalid hsent hwrite
  refine ⟨hstores, fun horder remote => ?_⟩
  have hflat : (calls.flatMap fun wrs => issueOrder (wrs.map (wqeOf qp umem))) =
      calls.flatten.map (wqeOf qp umem) := by
    rw [List.map_flatten, ← List.flatMap_def]
    exact List.flatMap_congr fun wrs hmem => (horder wrs hmem).issueOrder (hwrite wrs hmem)
  rw [hstores, hflat, applyStores, List.foldl_append]
  rfl

def samePlaceWr (addr : UInt64) (flags : UInt32) : SendWr :=
    ⟨1, 0, flags, 0, 0x20, 2, [⟨addr, 1, 1⟩]⟩

/-- A signaled write and then an unsignaled one to the same byte: the first is issued last, and its
byte stays. -/
theorem postSend_overtakes :
    let wrs := [samePlaceWr 0x10 sendSignaled, samePlaceWr 0x11 0]
    let res := postSend smallDev (fun _ => none) (.fresh 4) (.fresh 4) freshChan wrs
    let mem : UInt64 → UInt8 := fun a => a.toUInt8
    res.rc = .ok () ∧ res.abort = false ∧ res.stalled = false ∧
      res.chan.stores mem = [(0xD0, 0xA1), (0xD0, 0xA0)] ∧
      applyStores (fun _ => 0) (res.chan.stores mem) 0xD0 = 0xA0 ∧
      applyStores (fun _ => 0)
        ((wrs.map (wqeOf (.fresh 4) fun _ => none)).flatMap
          (writeStores smallDev mem)) 0xD0 = 0xA1 := by
  refine ⟨by decide +kernel, by decide +kernel, by decide +kernel, by decide +kernel,
    by decide +kernel, by decide +kernel⟩

theorem postRun_order_two :
    let wrs := [samePlaceWr 0x11 0, samePlaceWr 0x10 sendSignaled]
    let res := postSend smallDev (fun _ => none) (.fresh 4) (.fresh 4) freshChan wrs
    let mem : UInt64 → UInt8 := fun a => a.toUInt8
    ∀ remote, applyStores remote (res.chan.stores mem) =
      applyStores remote
        ((wrs.map (wqeOf (.fresh 4) fun _ => none)).flatMap (writeStores smallDev mem)) := by
  intro wrs res mem remote
  have hclean : res.Clean := ⟨by decide +kernel, by decide +kernel, by decide +kernel⟩
  have hrun : PostRun smallDev (fun _ => none) (.fresh 4, .fresh 4, freshChan) [wrs]
      (res.qp, res.rqp, res.chan) := .call hclean (.nil _)
  have h := (postRun_order mem hrun ⟨by decide, by decide⟩ (by decide) rfl (by decide)).2
    (fun w hw => by
      cases List.mem_singleton.1 hw
      exact .cons (by decide) (.cons nofun .nil)) remote
  exact h

end Ntrdma
