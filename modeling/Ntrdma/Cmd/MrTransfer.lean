import Ntrdma.Cmd.MrCreate

/-!
# The transfer of a region

The elements of a region reach the peer in several commands: one `MR_CREATE` with the first of them,
then `MR_APPEND` until none is left. The position is kept in the callback, which
`ntrdma_mr_enable_cmpl` queues again. The results hold for commands of any capacity.
-/

namespace Ntrdma
open Lib

/-! ## Commands -/

def MrCaps.recv (caps : MrCaps) (env : RecvEnv) (dev : CmdDev) (cmd : Cmd) (slot : Rsp) : CmdDone :=
  if cmd.hdr.op = cmdMrCreate then
    .reply (slot.head cmd.hdr.cmdId cmdMrCreate cmd.mrCreate.mrKey)
      (mrCreate env dev cmd.mrCreate caps)
  else .reply (slot.head cmd.hdr.cmdId cmdMrAppend cmd.mrAppend.mrKey)
    (mrAppend dev cmd.mrAppend caps)

def Cmd.sgDescs (cmd : Cmd) : List RemoteBufDesc :=
  if cmd.hdr.op = cmdMrCreate then (List.range cmd.mrCreate.sgCount.toNat).map
    cmd.mrCreate.sgDescList
  else (List.range cmd.mrAppend.sgCount.toNat).map cmd.mrAppend.sgDescList

/-- The elements `rmr->sg_list[pos + i]` of the region that the handler of a command writes. -/
def Cmd.sgIndices (cmd : Cmd) : List Nat :=
  if cmd.hdr.op = cmdMrCreate then List.range cmd.mrCreate.sgCount.toNat
  else (List.range cmd.mrAppend.sgCount.toNat).map (cmd.mrAppend.sgPos.toNat + ·)

/-! ## The transfer as a system -/

/-- A region on its way: the next command, the peer, and the commands so far with descriptors. -/
structure MrTransfer where
  cb : Option MrCmdCb
  peer : CmdDev
  commands : Nat
  sent : List (RemoteBufDesc × NtcDev)

def MrCaps.transferStep (caps : MrCaps) (key : UInt32) (s : MrTransfer) : MrAct → MrTransfer → Prop
  | .exchange env cmd slot, t => ∃ cb, s.cb = some cb ∧
      (caps.recv env s.peer (mrEnablePrep cb cmd) slot).rsp.hdr.status = 0 ∧
      t = ⟨mrEnableCmpl cb (caps.recv env s.peer (mrEnablePrep cb cmd) slot).rsp caps,
        (caps.recv env s.peer (mrEnablePrep cb cmd) slot).dev, s.commands + 1,
        s.sent ++ (mrEnablePrep cb cmd).sgDescs.map fun desc => (desc, s.peer.ntc)⟩
  | .other peer, t => peer.rmrs key = s.peer.rmrs key ∧ t = { s with peer }

def MrCaps.start (caps : MrCaps) (mr : MrObj) (peer : CmdDev) : MrTransfer :=
  ⟨some (mrEnableCb mr caps), peer, 0, []⟩

lemma driverCaps_start (mr : MrObj) (peer : CmdDev) : (driverCaps.start mr peer).cb = some
    (mrEnableCb mr) := rfl

lemma driverCaps_step {key : UInt32} {s t : MrTransfer} {act : MrAct}
    (hstep : driverCaps.transferStep key s act t) :
    mrStep key ⟨s.cb, s.peer⟩ act ⟨t.cb, t.peer⟩ := by
  cases act with
  | other =>
    obtain ⟨hrmr, rfl⟩ := hstep
    exact ⟨hrmr, rfl⟩
  | exchange env cmd slot =>
    obtain ⟨cb, hcb, -, rfl⟩ := hstep
    have hrecv : driverCaps.recv env s.peer (mrEnablePrep cb cmd) slot =
        cmdRecv env s.peer (mrEnablePrep cb cmd) slot := by
      by_cases hpos : cb.sgPos = 0
      · obtain ⟨hop, -⟩ := mrEnablePrep_zero hpos cmd
        rw [cmdRecv_mrCreate hop, MrCaps.recv, if_pos hop]
        rfl
      · obtain ⟨hop, -⟩ := mrEnablePrep_pos hpos cmd
        rw [cmdRecv_mrAppend hop, MrCaps.recv, if_neg (by rw [hop]; decide)]
        rfl
    exact ⟨cb, hcb, by rw [hrecv]⟩

/-! ## What a command does -/

section
variable {caps : MrCaps} {mr : MrObj} {peer : CmdDev} {cb : MrCmdCb} {s t : MrTransfer}

variable {ntc : NtcDev} {check : Bool} {descs : Nat → RemoteBufDesc}

lemma mapSgs_ok {pos n i : Nat} {sgList sgList' : Nat → RemoteBuf}
    (h : mapSgs ntc check descs pos n i sgList = (.ok (), sgList')) :
    (∀ j, i ≤ j → j < i + n → ntcRemoteBufMap ntc (descs j) = .ok (sgList' (pos + j))) ∧
      ∀ k, k < pos + i ∨ pos + i + n ≤ k → sgList' k = sgList k := by
  induction n generalizing i sgList with
  | zero =>
    obtain rfl := congrArg Prod.snd h
    exact ⟨fun j hlo hhi => absurd hhi (by omega), fun k _ => rfl⟩
  | succ _ ih =>
    rw [mapSgs] at h
    split at h
    · exact absurd (congrArg Prod.fst h) nofun
    · cases hmap : ntcRemoteBufMap ntc (descs i) with
      | error => rw [hmap] at h; exact absurd (congrArg Prod.fst h) nofun
      | ok =>
        rw [hmap] at h
        obtain ⟨hmapped, hframe⟩ := ih h
        refine ⟨fun j hlo hhi => ?_, fun k hk => ?_⟩
        · rcases Nat.eq_or_lt_of_le hlo with rfl | hlt
          · rw [hframe _ (by omega), Function.update_self]
            exact hmap
          · exact hmapped j hlt (by omega)
        · rw [hframe k (by omega), Function.update_of_ne (by omega)]

/-- What the peer has after a command with status zero: what it had, and the elements of the
command. -/
structure RmrObj.Holds (rmr : RmrObj) (mr : MrObj)
    (sent : List (RemoteBufDesc × NtcDev)) : Prop where
  sgCount : rmr.sgCount = mr.sgCount
  mapped : ∀ (i : Nat) desc ntc, sent[i]? = some (desc, ntc) →
    ntcRemoteBufMap ntc desc = .ok (rmr.sgList i)

variable {rmr : RmrObj} {sent : List (RemoteBufDesc × NtcDev)}

lemma RmrObj.Holds.append {sgList : Nat → RemoteBuf} {n : Nat} (h : rmr.Holds mr sent)
    (hmap : mapSgs ntc check descs sent.length n 0 rmr.sgList = (.ok (), sgList)) :
    { rmr with sgList }.Holds mr (sent ++ ((List.range n).map descs).map fun desc =>
      (desc, ntc)) := by
  obtain ⟨hmapped, hframe⟩ := mapSgs_ok hmap
  refine ⟨h.sgCount, fun i desc ntc' hi => ?_⟩
  rcases Nat.lt_or_ge i sent.length with hlt | hge
  · rw [List.getElem?_append_left hlt] at hi
    dsimp only
    rw [hframe i (by omega)]
    exact h.mapped i desc ntc' hi
  · rw [List.getElem?_append_right hge, List.map_map, List.getElem?_map,
      Option.map_eq_some_iff] at hi
    obtain ⟨j, hj, heq⟩ := hi
    obtain ⟨hlt, rfl⟩ := List.getElem?_eq_some_iff.mp hj
    rw [List.length_range] at hlt
    rw [List.getElem_range] at heq
    obtain ⟨rfl, rfl⟩ := Prod.mk.inj heq
    have := hmapped (i - sent.length) (Nat.zero_le _) (by omega)
    rw [Nat.add_sub_cancel' hge] at this
    exact this

lemma mrEnablePrep_sgDescs (hle : cb.sgPos.toNat + cb.sgCount.toNat ≤ cb.mr.sgList.length)
    (cmd : Cmd) :
    (mrEnablePrep cb cmd).sgDescs =
      ((cb.mr.sgList.map MrElem.makeDesc).drop cb.sgPos.toNat).take cb.sgCount.toNat := by
  have hdescs : ∀ old, (List.range cb.sgCount.toNat).map (cb.descList old) =
      ((cb.mr.sgList.map MrElem.makeDesc).drop cb.sgPos.toNat).take cb.sgCount.toNat := by
    intro old
    refine List.ext_getElem ?_ fun i hi _ => ?_
    · rw [List.length_map, List.length_range, List.length_take, List.length_drop, List.length_map]
      omega
    rw [List.length_map, List.length_range] at hi
    rw [List.getElem_map, List.getElem_range, List.getElem_take,
      List.getElem_drop, List.getElem_map,
      MrCmdCb.descList, if_pos hi, List.getElem?_eq_getElem (by omega)]
  by_cases hpos : cb.sgPos = 0
  · obtain ⟨hop, hcmd⟩ := mrEnablePrep_zero hpos cmd
    rw [Cmd.sgDescs, if_pos hop, hcmd]
    exact hdescs _
  · obtain ⟨hop, hcmd⟩ := mrEnablePrep_pos hpos cmd
    rw [Cmd.sgDescs, if_neg (by rw [hop]; decide), hcmd]
    exact hdescs _

lemma mrEnablePrep_sgIndices (cmd : Cmd) :
    (mrEnablePrep cb cmd).sgIndices = (List.range cb.sgCount.toNat).map (cb.sgPos.toNat + ·) := by
  by_cases hpos : cb.sgPos = 0
  · obtain ⟨hop, hcmd⟩ := mrEnablePrep_zero hpos cmd
    rw [Cmd.sgIndices, if_pos hop, hcmd, hpos]
    simp
  · obtain ⟨hop, hcmd⟩ := mrEnablePrep_pos hpos cmd
    rw [Cmd.sgIndices, if_neg (by rw [hop]; decide), hcmd]

variable {env : RecvEnv}

lemma mrAppend_ok {cmd : CmdMrAppend} (hrmr : peer.rmrs cmd.mrKey = some rmr)
    (hok : (mrAppend peer cmd caps).1 = .ok ()) :
    ∃ sgList, mapSgs peer.ntc true cmd.sgDescList cmd.sgPos.toNat cmd.sgCount.toNat 0 rmr.sgList =
        (.ok (), sgList) ∧
      (mrAppend peer cmd caps).2.rmrs cmd.mrKey = some { rmr with sgList } := by
  simp only [mrAppend, hrmr] at hok ⊢
  generalize sanityMrAppend cmd rmr.sgCount caps = sane at hok ⊢
  cases sane with
  | error => cases hok
  | ok => exact ⟨_, Prod.ext hok rfl, Function.update_self ..⟩

lemma MrCaps.recv_holds {cmd : Cmd} {slot : Rsp} (heq : cb.mr = mr)
    (hpos : cb.sgPos.toNat = sent.length)
    (hregion : sent ≠ [] → ∃ rmr, peer.rmrs mr.key = some rmr ∧ rmr.Holds mr sent)
    (hstatus : (caps.recv env peer (mrEnablePrep cb cmd) slot).rsp.hdr.status = 0) :
    ∃ rmr, (caps.recv env peer (mrEnablePrep cb cmd) slot).dev.rmrs mr.key = some rmr ∧
      rmr.Holds mr (sent ++ (mrEnablePrep cb cmd).sgDescs.map fun desc => (desc, peer.ntc)) := by
  by_cases hzero : cb.sgPos = 0
  · obtain ⟨hop, hcmd⟩ := mrEnablePrep_zero hzero cmd
    rw [MrCaps.recv, if_pos hop] at hstatus ⊢
    obtain ⟨-, sgList, hmap, hrmr⟩ := mrCreate_ok (CmdDone.reply_status hstatus)
    rw [CmdDone.reply_dev, Cmd.sgDescs, if_pos hop]
    rw [hcmd, heq] at hmap hrmr ⊢
    obtain rfl : sent = [] := List.length_eq_zero_iff.mp (by rw [← hpos, hzero]; rfl)
    have hnone : (rmrInit mr.pdKey mr.access mr.addr mr.len mr.sgCount).Holds mr [] := ⟨rfl, nofun⟩
    exact ⟨_, hrmr, hnone.append hmap⟩
  · obtain ⟨hop, hcmd⟩ := mrEnablePrep_pos hzero cmd
    have hop' : (mrEnablePrep cb cmd).hdr.op ≠ cmdMrCreate := by
      rw [hop]
      decide
    obtain ⟨rmr, hrmr, hholds⟩ := hregion (by
      rintro rfl
      exact hzero (UInt32.toNat_inj.mp hpos))
    rw [MrCaps.recv, if_neg hop'] at hstatus ⊢
    obtain ⟨sgList, hmap, hrmr'⟩ := mrAppend_ok (by rw [hcmd, heq]; exact hrmr)
      (CmdDone.reply_status hstatus)
    rw [CmdDone.reply_dev, Cmd.sgDescs, if_neg hop']
    rw [hcmd, heq] at hmap hrmr' ⊢
    rw [hpos] at hmap
    exact ⟨_, hrmr', hholds.append hmap⟩

/-! ## What a transfer keeps -/

/-- The next command goes on where the last one ended; there is none once all elements were sent. -/
structure MrTransfer.Inv (s : MrTransfer) (mr : MrObj) : Prop where
  commands : s.commands ≤ s.sent.length
  sent : s.sent.map Prod.fst = (mr.sgList.map MrElem.makeDesc).take s.sent.length
  next : ∀ cb, s.cb = some cb → cb.mr = mr ∧ cb.sgPos.toNat = s.sent.length ∧ 0 < cb.sgCount.toNat ∧
    cb.sgPos.toNat + cb.sgCount.toNat ≤ mr.sgCount.toNat
  last : s.cb = none → s.sent.length = mr.sgCount.toNat
  region : s.sent ≠ [] → ∃ rmr, s.peer.rmrs mr.key = some rmr ∧ rmr.Holds mr s.sent

lemma MrCaps.start_inv (caps : MrCaps) (hn : 0 < mr.sgCount) (peer : CmdDev) :
    (caps.start mr peer).Inv mr where
  commands := Nat.le_refl 0
  sent := rfl
  next := by
    rintro cb ⟨rfl⟩
    have hcreate := caps.create_pos
    rw [UInt32.lt_iff_toNat_lt] at hn hcreate
    refine ⟨rfl, rfl, ?_⟩
    simp only [mrEnableCb, UInt32.toNat_zero, Nat.zero_add]
    split <;> rename_i h
    · exact ⟨hcreate, (UInt32.lt_iff_toNat_lt.mp h).le⟩
    · exact ⟨hn, Nat.le_refl _⟩
  last := nofun
  region := fun h => absurd rfl h

lemma mrEnableCmpl_cases (caps : MrCaps) {rsp : Rsp} (hstatus : rsp.hdr.status = 0)
    (hle : cb.sgPos.toNat + cb.sgCount.toNat ≤ cb.mr.sgCount.toNat) :
    (mrEnableCmpl cb rsp caps = none ∧ cb.sgPos.toNat + cb.sgCount.toNat = cb.mr.sgCount.toNat) ∨
      ∃ cb', mrEnableCmpl cb rsp caps = some cb' ∧ cb'.mr = cb.mr ∧
        cb'.sgPos.toNat = cb.sgPos.toNat + cb.sgCount.toNat ∧ 0 < cb'.sgCount.toNat ∧
        cb'.sgPos.toNat + cb'.sgCount.toNat ≤ cb.mr.sgCount.toNat := by
  have hmax := cb.mr.sgCount.toNat_lt
  have hadd : (cb.sgPos + cb.sgCount).toNat = cb.sgPos.toNat + cb.sgCount.toNat := by
    rw [UInt32.toNat_add, Nat.mod_eq_of_lt (by omega)]
  rw [mrEnableCmpl, if_neg (not_not.mpr hstatus)]
  dsimp only
  split <;> rename_i hstop
  · rw [ne_eq, ← UInt32.toNat_inj, hadd] at hstop
    have hleft : (cb.mr.sgCount - (cb.sgPos + cb.sgCount)).toNat =
        cb.mr.sgCount.toNat - (cb.sgPos.toNat + cb.sgCount.toNat) := by
      rw [toNat_sub32 (by omega), hadd]
    have happend := caps.append_pos
    rw [UInt32.lt_iff_toNat_lt] at happend
    refine .inr ⟨_, rfl, rfl, hadd, ?_⟩
    dsimp only
    rw [hadd]
    split <;> rename_i hcount
    · rw [gt_iff_lt, UInt32.lt_iff_toNat_lt] at hcount
      exact ⟨happend, by omega⟩
    · omega
  · rw [not_not, ← UInt32.toNat_inj, hadd] at hstop
    exact .inl ⟨rfl, hstop⟩

lemma MrTransfer.Inv.step {act : MrAct} (h : s.Inv mr) (hlen : mr.sgList.length = mr.sgCount.toNat)
    (hstep : caps.transferStep mr.key s act t) : t.Inv mr := by
  cases act with
  | other =>
    obtain ⟨hrmr, rfl⟩ := hstep
    refine { h with region := ?_ }
    dsimp only
    rw [hrmr]
    exact h.region
  | exchange env cmd slot =>
    obtain ⟨cb, hcb, hstatus, rfl⟩ := hstep
    obtain ⟨rfl, hpos, hcount, hle⟩ := h.next cb hcb
    have hregion := MrCaps.recv_holds rfl hpos h.region hstatus
    have hdescs := mrEnablePrep_sgDescs (show cb.sgPos.toNat + _ ≤ _ by omega) cmd
    have hcases := mrEnableCmpl_cases caps hstatus hle
    generalize caps.recv env s.peer (mrEnablePrep cb cmd) slot = res at hregion hcases ⊢
    have hsent : (s.sent ++ (mrEnablePrep cb cmd).sgDescs.map fun desc =>
      (desc, s.peer.ntc)).length =
        cb.sgPos.toNat + cb.sgCount.toNat := by
      rw [List.length_append, List.length_map, hdescs, List.length_take,
        List.length_drop, List.length_map]
      omega
    have hcommands := h.commands
    refine ⟨by dsimp only; omega, ?_, fun cb' hcb' => ?_, fun hnone => ?_, fun _ => hregion⟩
    · dsimp only
      have hfst : Prod.fst ∘ (fun desc : RemoteBufDesc => (desc, s.peer.ntc)) = id := rfl
      rw [hsent, List.map_append, h.sent, List.map_map, hfst, List.map_id,
        hdescs, List.take_add, hpos]
    · dsimp only at hcb' ⊢
      rw [hsent]
      obtain ⟨hnone, -⟩ | ⟨cb'', hsome, hrest⟩ := hcases
      · rw [hnone] at hcb'
        cases hcb'
      · obtain rfl := Option.some.inj (hsome.symm.trans hcb')
        exact hrest
    · dsimp only at hnone ⊢
      rw [hsent]
      obtain ⟨-, hall⟩ | ⟨cb'', hsome, -⟩ := hcases
      · exact hall
      · rw [hsome] at hnone
        cases hnone

end

structure MrTransfer.Exact (s : MrTransfer) (mr : MrObj) : Prop where
  /-- There are no more commands than elements. -/
  ends : s.commands ≤ mr.sgCount.toNat
  /-- What was sent are the descriptors of the first elements, each once. -/
  once : s.sent.map Prod.fst = (mr.sgList.map MrElem.makeDesc).take s.sent.length
  /-- The next command writes elements of the region that were not written yet, and the peer has a
  region of this size if it is not the one to be created. -/
  inside : ∀ cb, s.cb = some cb → ∀ cmd,
    (∀ k ∈ (mrEnablePrep cb cmd).sgIndices, s.sent.length ≤ k ∧ k < mr.sgCount.toNat) ∧
    if (mrEnablePrep cb cmd).hdr.op = cmdMrCreate then
      (mrEnablePrep cb cmd).mrCreate.sgCap = mr.sgCount
    else ∃ rmr, s.peer.rmrs mr.key = some rmr ∧ rmr.sgCount = mr.sgCount
  /-- When there is no next command, all elements were sent, and each is mapped at its place. -/
  complete : s.cb = none → s.sent.map Prod.fst = mr.sgList.map MrElem.makeDesc ∧
    ∃ rmr, s.peer.rmrs mr.key = some rmr ∧ rmr.sgCount = mr.sgCount ∧
      ∀ (i : Nat) elem, mr.sgList[i]? = some elem → ∃ ntc, s.sent[i]? = some (elem.makeDesc, ntc) ∧
        ntcRemoteBufMap ntc elem.makeDesc = .ok (rmr.sgList i)

/-- If all its commands are answered with status zero, the transfer of a region is exact. -/
theorem mrTransfer_exact (caps : MrCaps) {mr : MrObj} (hn : 0 < mr.sgCount)
    (hlen : mr.sgList.length = mr.sgCount.toNat) {peer : CmdDev} {s : MrTransfer}
    (hrun : Reaches (caps.transferStep mr.key) (caps.start mr peer) s) : s.Exact mr := by
  have h : s.Inv mr := hrun.invariant (I := fun s => s.Inv mr) (caps.start_inv hn peer)
    fun s act t hs hstep => hs.step hlen hstep
  have hsent : s.sent.length ≤ mr.sgCount.toNat := by
    have := congrArg List.length h.sent
    rw [List.length_map, List.length_take, List.length_map] at this
    omega
  refine ⟨Nat.le_trans h.commands hsent, h.sent, fun cb hcb cmd =>
    ⟨fun k hk => ?_, ?_⟩, fun hnone => ?_⟩
  · obtain ⟨-, hpos, -, hle⟩ := h.next cb hcb
    rw [mrEnablePrep_sgIndices, List.mem_map] at hk
    obtain ⟨i, hi, rfl⟩ := hk
    rw [List.mem_range] at hi
    omega
  · obtain ⟨rfl, hpos, -, hle⟩ := h.next cb hcb
    by_cases hzero : cb.sgPos = 0
    · obtain ⟨hop, hcmd⟩ := mrEnablePrep_zero hzero cmd
      rw [if_pos hop, hcmd]
    · obtain ⟨hop, -⟩ := mrEnablePrep_pos hzero cmd
      rw [if_neg (by rw [hop]; decide)]
      obtain ⟨rmr, hrmr, hholds⟩ := h.region (by
        intro hnil
        rw [hnil] at hpos
        exact hzero (UInt32.toNat_inj.mp hpos))
      exact ⟨rmr, hrmr, hholds.sgCount⟩
  · have hall := h.last hnone
    have hdescs : s.sent.map Prod.fst = mr.sgList.map MrElem.makeDesc := by
      rw [h.sent, List.take_of_length_le (by rw [List.length_map]; omega)]
    rw [UInt32.lt_iff_toNat_lt] at hn
    obtain ⟨rmr, hrmr, hholds⟩ := h.region (List.ne_nil_of_length_pos (by rw [hall]; exact hn))
    refine ⟨hdescs, rmr, hrmr, hholds.sgCount, fun i elem hi => ?_⟩
    have hget : (s.sent.map Prod.fst)[i]? = some elem.makeDesc := by
      rw [hdescs, List.getElem?_map, hi]
      rfl
    rw [List.getElem?_map, Option.map_eq_some_iff] at hget
    obtain ⟨⟨desc, ntc⟩, hsome, rfl⟩ := hget
    exact ⟨ntc, hsome, hholds.mapped i _ ntc hsome⟩

def twoMr : MrObj := ⟨1, 0, 0x7, 0x7000, 32, 2,
    [⟨⟨16, 0x1000⟩, 0, 0, 0x7⟩, ⟨⟨16, 0x3000⟩, 0, 0, 0x7⟩]⟩

def mappedDev : CmdDev :=
  { idleDev with ntc := ⟨fun _ => ⟨0x100000, 0x100000, 0, 0x100000⟩, fun ptr _ => some ptr⟩ }

def oneCaps : MrCaps := ⟨1, 1, by decide, by decide⟩

theorem mrTransfer_exact_two :
    ∃ s, Reaches (oneCaps.transferStep 1) (oneCaps.start twoMr mappedDev) s ∧
      s.cb = none ∧ s.commands = 2 ∧ s.Exact twoMr := by
  have hfirst : Reaches (oneCaps.transferStep 1) (oneCaps.start twoMr mappedDev) _ :=
    Reaches.refl.snoc (a := .exchange easyEnv emptyCmd successSlot) ⟨_, rfl, rfl, rfl⟩
  have hrun : Reaches (oneCaps.transferStep 1) (oneCaps.start twoMr mappedDev) _ :=
    hfirst.snoc (a := .exchange easyEnv emptyCmd successSlot) ⟨_, rfl, rfl, rfl⟩
  exact ⟨_, hrun, rfl, rfl, mrTransfer_exact oneCaps (by decide) rfl hrun⟩

end Ntrdma
