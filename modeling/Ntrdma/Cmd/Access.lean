import Ntrdma.Cmd.MrCreate
import Ntrdma.Qp.Carry

/-!
# Remote write permission

A region that is registered without `IB_ACCESS_REMOTE_WRITE` is described to the peer by empty
descriptors, which the peer maps to empty buffers. The cursor of the copy engine passes over empty
buffers and finds nothing to write to, so an RDMA write to the region fails before any request is
made. There is no other check of the permission.
-/

namespace Ntrdma
open Lib

/-! ## The region at the peer -/

def RmrObj.Empty (rmr : RmrObj) : Prop := ∀ k, rmr.sgList k = ⟨0, 0⟩

def CmdDev.EmptyAt (dev : CmdDev) (key : UInt32) : Prop :=
    ∀ rmr, dev.rmrs key = some rmr → rmr.Empty

def CmdDev.Backs (cmdDev : CmdDev) (dev : Dev) : Prop :=
  ∀ key m, dev.rmrLook key = some m → ∃ rmr, cmdDev.rmrs key = some rmr ∧ m.addr = rmr.addr ∧
    m.sgList = (List.range rmr.sgCount.toNat).map rmr.sgList

section
variable {env : RegMrEnv} {pdKey access : UInt32} {start length virtAddr : UInt64}
    {mr : MrObj} {peer : CmdDev}
  {cb : MrCmdCb}

variable {ownMws : Fin 2 → OwnMw} {elem : MrElem}

lemma mrBufMapDma_access {range : DmaRange} (h : mrBufMapDma ownMws range access = .ok elem) :
    elem.accessFlags = access := by
  simp only [mrBufMapDma] at h
  generalize (if ntcSegmentValid (ownMws 0).size (range.addr - (ownMws 0).base) range.len then
    (0 : Fin 2) else 1) = mwIdx at h
  split at h
  · rw [← Except.ok.inj h]
  · split at h
    · cases h
    · rw [← Except.ok.inj h]

lemma mapElems_access {ranges : List DmaRange} {elems : List MrElem}
    (h : mapElems ownMws access ranges = .ok elems) :
    elems.length = ranges.length ∧ ∀ elem ∈ elems, elem.accessFlags = access := by
  induction ranges generalizing elems with
  | nil =>
    rw [← Except.ok.inj h]
    exact ⟨rfl, nofun⟩
  | cons range rest ih =>
    rw [mapElems] at h
    cases helem : mrBufMapDma ownMws range access with
    | error => rw [helem] at h; exact absurd h nofun
    | ok =>
      rw [helem] at h
      cases hrest : mapElems ownMws access rest with
      | error => rw [hrest] at h; exact absurd h nofun
      | ok =>
        rw [hrest] at h
        obtain ⟨hlen, hall⟩ := ih hrest
        rw [← Except.ok.inj h]
        exact ⟨congrArg (· + 1) hlen, List.forall_mem_cons.mpr ⟨mrBufMapDma_access helem, hall⟩⟩

lemma regUserMr_elems (hok : regUserMr env pdKey start length virtAddr access = .ok mr) :
    mr.sgCount.toNat ≤ mr.sgList.length ∧ ∀ elem ∈ mr.sgList, elem.accessFlags = access := by
  obtain ⟨-, ranges, sgList, key, -, hmap, -, rfl⟩ := regUserMr_ok hok
  obtain ⟨hlen, hall⟩ := mapElems_access hmap
  refine ⟨?_, hall⟩
  rw [hlen, Nat.toUInt32_eq, UInt32.toNat_ofNat']
  exact Nat.mod_le _ _

lemma MrElem.makeDesc_closed (h : elem.accessFlags &&& accessRemoteWrite = 0) :
    elem.makeDesc.chanAddr = 0 := by
  simp [MrElem.makeDesc, h]

lemma mapSgs_empty {ntc : NtcDev} {check : Bool} {descs : Nat → RemoteBufDesc} {pos n i : Nat}
    {sgList : Nat → RemoteBuf} (hdescs : ∀ j, j < i + n → (descs j).chanAddr = 0)
    (hempty : ∀ k, sgList k = ⟨0, 0⟩) (k : Nat) :
    (mapSgs ntc check descs pos n i sgList).2 k = ⟨0, 0⟩ := by
  induction n generalizing i sgList with
  | zero => exact hempty k
  | succ _ ih =>
    have hmap : ntcRemoteBufMap ntc (descs i) = .ok ⟨0, 0⟩ := by
      rw [ntcRemoteBufMap, if_pos (hdescs i (by omega))]
    rw [mapSgs, if_neg (by simp [hempty]), hmap]
    refine ih (fun j hj => hdescs j (by omega)) fun k' => ?_
    rw [Function.update_apply]
    split
    · rfl
    · exact hempty k'

lemma MrCmdCb.descList_closed {old : Nat → RemoteBufDesc} {i : Nat}
    (hclosed : ∀ elem ∈ cb.mr.sgList, elem.accessFlags &&& accessRemoteWrite = 0)
    (hle : cb.sgPos.toNat + cb.sgCount.toNat ≤ cb.mr.sgList.length) (hi : i < cb.sgCount.toNat) :
    (cb.descList old i).chanAddr = 0 := by
  rw [MrCmdCb.descList, if_pos hi, List.getElem?_eq_getElem (by omega)]
  exact MrElem.makeDesc_closed (hclosed _ (List.getElem_mem _))

variable {renv : RecvEnv}

lemma mrCreate_empty {cmd : CmdMrCreate} (h : peer.EmptyAt cmd.mrKey)
    (hdescs : ∀ j, j < cmd.sgCount.toNat → (cmd.sgDescList j).chanAddr = 0) :
    (mrCreate renv peer cmd).2.EmptyAt cmd.mrKey := by
  have hempty : ∀ k,
    (mapSgs peer.ntc false cmd.sgDescList 0 cmd.sgCount.toNat 0 fun _ => ⟨0, 0⟩).2 k =
      ⟨0, 0⟩ := mapSgs_empty (by rwa [Nat.zero_add]) fun _ => rfl
  simp only [mrCreate, rmrInit]
  split
  · exact h
  · split
    · exact h
    · generalize mapSgs peer.ntc false cmd.sgDescList 0 cmd.sgCount.toNat 0
        (fun _ => ⟨0, 0⟩) = res at hempty ⊢
      obtain ⟨rc, sgList⟩ := res
      cases rc with
      | error => exact h
      | ok u =>
        cases renv.vecSet with
        | error => exact h
        | ok =>
          intro rmr hrmr
          dsimp only at hrmr
          rw [Function.update_self] at hrmr
          rw [← Option.some.inj hrmr]
          exact hempty

lemma mrAppend_empty {cmd : CmdMrAppend} (h : peer.EmptyAt cmd.mrKey)
    (hdescs : ∀ j, j < cmd.sgCount.toNat → (cmd.sgDescList j).chanAddr = 0) :
    (mrAppend peer cmd).2.EmptyAt cmd.mrKey := by
  cases hrmr : peer.rmrs cmd.mrKey with
  | none =>
    simp only [mrAppend, hrmr]
    exact h
  | some rmr =>
    simp only [mrAppend, hrmr]
    split
    · exact h
    · intro rmr' hrmr'
      dsimp only at hrmr'
      rw [Function.update_self] at hrmr'
      rw [← Option.some.inj hrmr']
      exact mapSgs_empty (by rwa [Nat.zero_add]) (h rmr hrmr)

lemma cmdRecv_empty {cmd : Cmd} {slot : Rsp}
    (hclosed : ∀ elem ∈ cb.mr.sgList, elem.accessFlags &&& accessRemoteWrite = 0)
    (hle : cb.sgPos.toNat + cb.sgCount.toNat ≤ cb.mr.sgList.length) (h : peer.EmptyAt cb.mr.key) :
    (cmdRecv renv peer (mrEnablePrep cb cmd) slot).dev.EmptyAt cb.mr.key := by
  by_cases hpos : cb.sgPos = 0
  · obtain ⟨hop, hcmd⟩ := mrEnablePrep_zero hpos cmd
    rw [cmdRecv_mrCreate hop, cmdRecvMrCreate, CmdDone.reply_dev, hcmd]
    exact mrCreate_empty h fun j hj => MrCmdCb.descList_closed hclosed hle hj
  · obtain ⟨hop, hcmd⟩ := mrEnablePrep_pos hpos cmd
    rw [cmdRecv_mrAppend hop, cmdRecvMrAppend, CmdDone.reply_dev, hcmd]
    exact mrAppend_empty h fun j hj => MrCmdCb.descList_closed hclosed hle hj

lemma mrStep_empty {s t : MrExchange} {act : MrAct} (hcount : mr.sgCount.toNat ≤ mr.sgList.length)
    (hclosed : ∀ elem ∈ mr.sgList, elem.accessFlags &&& accessRemoteWrite = 0)
    (h : s.Sound mr ∧ s.peer.EmptyAt mr.key) (hstep : mrStep mr.key s act t) :
    t.Sound mr ∧ t.peer.EmptyAt mr.key := by
  obtain ⟨hsound, hempty⟩ := h
  refine ⟨mrStep_sound hsound hstep, ?_⟩
  cases act with
  | other =>
    obtain ⟨hrmr, rfl⟩ := hstep
    intro rmr hget
    exact hempty rmr (hrmr ▸ hget)
  | exchange =>
    obtain ⟨cb, hcb, rfl⟩ := hstep
    obtain ⟨rfl, hle, -, -⟩ := hsound cb hcb
    exact cmdRecv_empty hclosed (by omega) hempty

end

/-! ## The write -/

/-- The number of bytes that `ntrdma_qp_rdma_write` takes from an entry. -/
def SendWqe.payloadLen (wqe : SendWqe) : Nat :=
  if isInlineFlag wqe.flags then (wqe.tail.take wqe.count.toNat).length else sndTotal wqe.sndSgList

section
variable {dev : Dev} {key : UInt32}

lemma skip_empty {l : List RemoteBuf} (h : ∀ b ∈ l, b.size = 0) (off : UInt64) :
    (skip RemoteBuf.size off l).2 = [] := by
  induction l generalizing off with
  | nil => rfl
  | cons _ _ ih =>
    obtain ⟨hb, hl⟩ := List.forall_mem_cons.mp h
    rw [skip, if_pos (by rw [hb]; exact UInt64.zero_le)]
    exact ih hl _

lemma rcvCursorUpdate_empty (h : ∀ m, dev.rmrLook key = some m → ∀ b ∈ m.sgList, b.size = 0)
    (hkey : key ≠ reservedDmaLkey) (addr : UInt64) :
    ∃ c, rcvCursorUpdate dev (rcvCursorInit [.direct ⟨addr, 0xFFFFFFFF, key⟩] 0) =
      (.fail .einval, c) := by
  have hskip : rcvSgListSkip 0 [.direct ⟨addr, 0xFFFFFFFF, key⟩] =
    (0, [.direct ⟨addr, 0xFFFFFFFF, key⟩]) := rfl
  have hrem : (rcvCursorInit [.direct ⟨addr, 0xFFFFFFFF, key⟩] 0).rcvRem = 0 := rfl
  rw [rcvCursorUpdate, if_neg (not_not.mpr hrem)]
  simp only [rcvCursorInit, hskip, RcvSge.remoteKey]
  rw [cursorLook_none, if_neg hkey]
  cases hlook : dev.rmrLook key with
  | none => exact ⟨_, rfl⟩
  | some m =>
    simp only [RcvCursor.nextIoOffUpdate, RcvCursor.enter, skip_empty (h m hlook)]
    exact ⟨_, rfl⟩

lemma qpRdmaWrite_empty (h : ∀ m, dev.rmrLook key = some m → ∀ b ∈ m.sgList, b.size = 0)
    {wqe : SendWqe} (hkey : wqe.rdmaSge.lkey = key) (hlen : 0 < wqe.payloadLen) (chan : Chan) :
    ∃ e, qpRdmaWrite dev chan wqe = (.error e, wqe, chan) := by
  cases hres : ibSgeReserved wqe.rdmaSge with
  | true =>
    rw [qpRdmaWrite, if_pos hres]
    exact ⟨_, rfl⟩
  | false =>
    have hne : key ≠ reservedDmaLkey := by
      rintro rfl
      rw [ibSgeReserved, hkey, beq_self_eq_true] at hres
      cases hres
    obtain ⟨c, hrcv⟩ := rcvCursorUpdate_empty h hne wqe.rdmaSge.addr
    rw [SendWqe.payloadLen] at hlen
    simp only [qpRdmaWrite, hres, hkey]
    cases hinline : isInlineFlag wqe.flags with
    | true =>
      rw [if_pos hinline] at hlen
      have hdata : (wqe.tail.take wqe.count.toNat).isEmpty = false := by
        rw [List.isEmpty_eq_false_iff]
        exact List.ne_nil_of_length_pos hlen
      have hzip : zipRdmaImm dev chan [.direct ⟨wqe.rdmaSge.addr, 0xFFFFFFFF, key⟩]
          (wqe.tail.take wqe.count.toNat) 0 = (.error .einval, chan) := by
        simp only [zipRdmaImm, zipRdmaImmRounds, hdata, hrcv]
        rfl
      simp only [hzip]
      exact ⟨_, rfl⟩
    | false =>
      rw [if_neg (by rw [hinline]; exact Bool.false_ne_true)] at hlen
      have hzip : ∀ dmaWait, ∃ e, zipRdma dev chan [.direct ⟨wqe.rdmaSge.addr, 0xFFFFFFFF, key⟩]
          wqe.sndSgList 0 dmaWait = (.error e, chan) := by
        intro dmaWait
        have hsnd := sndCursorUpdate_spec (sndCursorInit_wf dev wqe.sndSgList)
        simp only [zipRdma, zipRdmaRounds, hrcv]
        generalize sndCursorUpdate dev (sndCursorInit wqe.sndSgList) = res at hsnd ⊢
        cases hsnd with
        | done h =>
          rw [← length_sndLocs dev, show sndLocs dev wqe.sndSgList = [] from h] at hlen
          exact absurd hlen (Nat.lt_irrefl 0)
        | fail => exact ⟨_, rfl⟩
        | more => exact ⟨_, rfl⟩
      obtain ⟨e, hzip⟩ := hzip (if isSignaled wqe.flags then .wait else .dontWait)
      simp only [Bool.false_eq_true, if_false, hzip]
      exact ⟨e, rfl⟩

end

lemma Builds.payloadLen {qp : Qp} {umem : UInt64 → Option UInt8} {wr : SendWr} {wqe : SendWqe}
    (h : Builds qp umem wr wqe) (hpos : 0 < sndTotal wr.sgList) : 0 < wqe.payloadLen := by
  obtain ⟨-, -, -, hinl, hsgl⟩ := h.spec
  rw [SendWqe.payloadLen]
  cases his : wqe.isInline with
  | true =>
    obtain ⟨hcount, htail⟩ := hinl his
    have hlen : wqe.tail.length = sndTotal wr.sgList := by
      have := congrArg List.length htail
      simpa [sndTotal, List.length_flatMap] using this
    obtain ⟨-, hflag⟩ := Bool.and_eq_true_iff.mp his
    rw [if_pos hflag, List.length_take, hcount, hlen, Nat.min_self]
    exact hpos
  | false =>
    obtain ⟨hcount, htail⟩ := hsgl his
    split
    · -- the list is taken for inline data; it has at least one entry
      have hne : 0 < wr.sgList.length := by
        refine List.length_pos_of_ne_nil fun hnil => ?_
        rw [hnil] at hpos
        exact Nat.lt_irrefl 0 hpos
      have hlen : wqe.tail.length = 16 * wr.sgList.length := by
        rw [htail, List.length_flatMap]
        simp [Nat.mul_comm]
      rw [List.length_take, hcount, hlen]
      omega
    · rw [sndSgList_encode htail hcount]
      exact hpos

/-- RDMA writes to a region without `IB_ACCESS_REMOTE_WRITE` fail and make no request, as entries of
any kind and as those built for requests. -/
theorem rdmaWrite_refused {env : RegMrEnv} {pdKey access : UInt32} {start length virtAddr : UInt64}
    {mr : MrObj} (hok : regUserMr env pdKey start length virtAddr access = .ok mr)
    (haccess : access &&& accessRemoteWrite = 0) {peer : CmdDev} (hfresh : peer.rmrs mr.key = none)
    {s : MrExchange} (hrun : Reaches (mrStep mr.key) ⟨some (mrEnableCb mr), peer⟩ s) {dev : Dev}
    (hdev : s.peer.Backs dev) (chan : Chan) :
    (∀ wqe, wqe.rdmaSge.lkey = mr.key → 0 < wqe.payloadLen →
      ∃ e, qpRdmaWrite dev chan wqe = (.error e, wqe, chan)) ∧
    ∀ qp umem wr wqe recvKey, Builds qp umem wr wqe →
      sendOpcodeIsRdma wr.opcode = true → wr.rkey = mr.key →
      0 < sndTotal wr.sgList →
      ∃ e, qpRdmaWrite dev chan { wqe with recvKey } = (.error e, { wqe with recvKey }, chan) := by
  obtain ⟨hcount, hflags⟩ := regUserMr_elems hok
  have hclosed : ∀ elem ∈ mr.sgList, elem.accessFlags &&& accessRemoteWrite = 0 := by
    intro elem helem
    rw [hflags elem helem, haccess]
  have hinv : s.Sound mr ∧ s.peer.EmptyAt mr.key := by
    refine hrun.invariant (I := fun s => s.Sound mr ∧ s.peer.EmptyAt mr.key) ⟨?_, ?_⟩
      fun s act t hs hstep => mrStep_empty hcount hclosed hs hstep
    · intro cb hcb
      rw [← Option.some.inj hcb]
      exact mrEnableCb_sound mr peer
    · intro rmr hrmr
      rw [hfresh] at hrmr
      cases hrmr
  have hsize : ∀ m, dev.rmrLook mr.key = some m → ∀ b ∈ m.sgList, b.size = 0 := by
    intro m hlook b hb
    obtain ⟨rmr, hrmr, -, hlist⟩ := hdev mr.key m hlook
    rw [hlist, List.mem_map] at hb
    obtain ⟨k, -, rfl⟩ := hb
    rw [hinv.2 rmr hrmr k]
  refine ⟨fun wqe hkey hlen => qpRdmaWrite_empty hsize hkey hlen chan, ?_⟩
  intro qp umem wr wqe recvKey hbuilds hrdma hkey hlen
  obtain ⟨hsge, -⟩ := hbuilds.spec.2.2.1 hrdma
  have hlkey : ({ wqe with recvKey } : SendWqe).rdmaSge.lkey = mr.key := by
    rw [hsge]
    exact hkey
  exact qpRdmaWrite_empty hsize hlkey (hbuilds.payloadLen hlen) chan

def readOnlyMr : MrObj := ⟨1, 0, 0x5, 0x7000, 16, 1, [⟨⟨16, 0x1000⟩, 0, 0, 0x5⟩]⟩

def readOnlyPeer : CmdDev :=
  (cmdRecv easyEnv idleDev (mrEnablePrep (mrEnableCb readOnlyMr) emptyCmd) successSlot).dev

def readOnlyDev : Dev where
  ntc := idleDev.ntc
  mrLook key := if key = 2 then some ⟨0x2000, 0x7, [⟨16, 0xA000⟩], by decide⟩ else none
  rmrLook key := if key = 1 then some ⟨0x7000, [⟨0, 0⟩], by decide⟩ else none

theorem rdmaWrite_refused_readOnly :
    ∃ e, qpRdmaWrite readOnlyDev freshChan ⟨9, wrRdmaWrite, 0, 0, ⟨0x7000, 0, 1⟩, 0, 0, 1,
        IbSge.encode ⟨0x2000, 4, 2⟩⟩ =
      (.error e, ⟨9, wrRdmaWrite, 0, 0, ⟨0x7000, 0, 1⟩, 0, 0, 1,
        IbSge.encode ⟨0x2000, 4, 2⟩⟩, freshChan) := by
  have hok : regUserMr pageEnv 0 0x7000 16 0x7000 0x5 = .ok readOnlyMr := rfl
  have hrun : Reaches (mrStep 1) ⟨some (mrEnableCb readOnlyMr), idleDev⟩ ⟨none, readOnlyPeer⟩ :=
    Reaches.refl.snoc (a := .exchange easyEnv emptyCmd successSlot) ⟨_, rfl, rfl⟩
  have hdev : readOnlyPeer.Backs readOnlyDev := by
    intro key m hlook
    simp only [readOnlyDev, Option.ite_none_right_eq_some, Option.some.injEq] at hlook
    obtain ⟨rfl, rfl⟩ := hlook
    exact ⟨_, rfl, rfl, rfl⟩
  exact (rdmaWrite_refused hok (by decide) rfl hrun hdev freshChan).1 _ rfl (by decide)

end Ntrdma
