import Ntrdma.Cmd.Recv
import Ntrdma.Lib.Run

/-!
# Memory regions that the peer accepts

Model of `ntrdma_reg_user_mr` as far as `ntrdma_res_add`, which enables the new region, and of the
commands that describe it to the peer: one `MR_CREATE`, and after each success an `MR_APPEND` for
the next elements (`ntrdma_mr_enable_cb`, `ntrdma_mr_enable_prep`, `ntrdma_mr_enable_cmpl`).

The address and the access flags of a region are not checked here, but the peer refuses an address
that is not aligned and flags whose sum it does not know.
-/

namespace Ntrdma
open Lib

/-! ## The elements of a region -/

/-- An entry of the scatter list of `struct ib_umem`, by its DMA addresses. -/
structure DmaRange where
  addr : UInt64
  len : UInt64

/-- The inner loop of `ntc_umem_sgl`: the entries that go on where a range ends are joined to it. -/
def joinFrom (range : DmaRange) : List DmaRange → List DmaRange
  | [] => [range]
  | next :: rest =>
    if next.addr != range.addr + range.len then range :: joinFrom next rest
    else joinFrom ⟨range.addr, range.len + next.len⟩ rest

/-- The outer loop of `ntc_umem_sgl` over the joined ranges. -/
def takeRanges (length offset total : UInt64) : List DmaRange → List DmaRange
  | [] => []
  | range :: rest =>
    if range.len ≤ offset then takeRanges length (offset - range.len) total rest
    else
      let dmaLen := range.len - offset
      let taken := total + dmaLen
      if taken > length then [⟨range.addr + offset, dmaLen - (taken - length)⟩]
      else if taken = length then [⟨range.addr + offset, dmaLen⟩]
      else ⟨range.addr + offset, dmaLen⟩ :: takeRanges length 0 taken rest

/-- The ranges that `ntc_umem_sgl` stores for a region, and `ntc_umem_count` counts. -/
def umemRanges (length offset : UInt64) : List DmaRange → List DmaRange
  | [] => []
  | sg :: rest => takeRanges length offset 0 (joinFrom sg rest)

structure OwnMw where
  base : UInt64
  size : UInt64

/-- An element of a region with its window and the access to it (C `struct ntc_mr_buf`). -/
structure MrElem where
  buf : MrBuf
  mwIdx : Fin 2
  mwBase : UInt64
  accessFlags : UInt32
  deriving DecidableEq, Repr

def mrBufMapDma (ownMws : Fin 2 → OwnMw) (range : DmaRange) (accessFlags : UInt32) :
    Except Errno MrElem :=
  let inside (i : Fin 2) := ntcSegmentValid (ownMws i).size (range.addr - (ownMws i).base) range.len
  let mwIdx : Fin 2 := if inside 0 then 0 else 1
  let elem : MrElem := ⟨⟨range.len, range.addr⟩, mwIdx, (ownMws mwIdx).base, accessFlags⟩
  if accessFlags &&& accessRemoteWrite == 0 then .ok elem
  else if !inside 0 && !inside 1 then .error .einval
  else .ok elem

def MrElem.makeDesc (elem : MrElem) : RemoteBufDesc :=
  if elem.buf.dmaAddr = 0 || elem.accessFlags &&& accessRemoteWrite == 0 then ⟨0, elem.buf.size⟩
  else
    let value := ((1 : UInt64) <<< 63) ||| (elem.mwIdx.val.toUInt64 <<< 62) |||
      ((elem.buf.dmaAddr - elem.mwBase) &&& 0x1FFFFFFFFFFFFFFF)
    ⟨value, elem.buf.size⟩

/-! ## Registration -/

def devMaxMr : Nat := 0x400

/-- A local memory region as the control path sees it (C `struct ntrdma_mr`). -/
structure MrObj where
  key : UInt32
  pdKey : UInt32
  access : UInt32
  addr : UInt64
  len : UInt64
  sgCount : UInt32
  sgList : List MrElem

/-- What the kernel answers while a region is registered. -/
structure RegMrEnv where
  mrNum : Nat
  ioPfnSegment : Option DmaRange
  umemGet : Except Errno (List DmaRange)
  kmalloc : Bool
  ownMws : Fin 2 → OwnMw
  key : Except Errno UInt32

def isCanonical (addr : UInt64) : Bool :=
  addr &&& 0xffff800000000000 == 0 || addr &&& 0xffff800000000000 == 0xffff800000000000

/-- The device memory behind the whole region, where `ntc_get_io_pfn_segment` finds it. -/
def ioSegment (env : RegMrEnv) (length : UInt64) : Option DmaRange :=
  match env.ioPfnSegment with
  | some segment => if segment.len ≥ length then some ⟨segment.addr, length⟩ else none
  | none => none

def regRanges (env : RegMrEnv) (start length : UInt64) : Except Errno (List DmaRange) :=
  match ioSegment env length with
  | some range => .ok [range]
  | none =>
    match env.umemGet with
    | .error e => .error e
    | .ok sgl => .ok (umemRanges length (start &&& 0xfff) sgl)

def mapElems (ownMws : Fin 2 → OwnMw) (accessFlags : UInt32) : List DmaRange →
    Except Errno (List MrElem)
  | [] => .ok []
  | range :: rest =>
    match mrBufMapDma ownMws range accessFlags with
    | .error e => .error e
    | .ok elem =>
      match mapElems ownMws accessFlags rest with
      | .error e => .error e
      | .ok elems => .ok (elem :: elems)

/-- C `ntrdma_reg_user_mr`, as far as the region is added to the device. -/
def regUserMr (env : RegMrEnv) (pdKey : UInt32) (start length virtAddr : UInt64) (access : UInt32) :
    Except Errno MrObj :=
  if length > ibMrLimitBytes then .error .einval
  else if env.mrNum ≥ devMaxMr then .error .etoomanyrefs
  else if !isCanonical virtAddr then .error .einval
  else
    match regRanges env start length with
    | .error e => .error e
    | .ok ranges =>
      if !env.kmalloc then .error .enomem
      else
        match mapElems env.ownMws access ranges with
        | .error e => .error (if (ioSegment env length).isSome then e else .efault)
        | .ok sgList =>
          match env.key with
          | .error e => .error e
          | .ok key => .ok ⟨key, pdKey, access, virtAddr, length, ranges.length.toUInt32, sgList⟩

/-! ## The commands -/

structure MrCmdCb where
  mr : MrObj
  sgPos : UInt32
  sgCount : UInt32

def mrEnableCb (mr : MrObj) (caps : MrCaps := driverCaps) : MrCmdCb :=
  ⟨mr, 0, if mr.sgCount > caps.create then caps.create else mr.sgCount⟩

def MrCmdCb.descList (cb : MrCmdCb) (old : Nat → RemoteBufDesc) : Nat → RemoteBufDesc :=
  fun i =>
    if i < cb.sgCount.toNat then
      match cb.mr.sgList[cb.sgPos.toNat + i]? with
      | some elem => elem.makeDesc
      | none => old i
    else old i

def mrEnablePrep (cb : MrCmdCb) (cmd : Cmd) : Cmd :=
  if cb.sgPos = 0 then
    { cmd with
      hdr := { cmd.hdr with op := cmdMrCreate }
      mrCreate :=
        { mrKey := cb.mr.key
          pdKey := cb.mr.pdKey
          access := cb.mr.access
          mrAddr := cb.mr.addr
          mrLen := cb.mr.len
          sgCap := cb.mr.sgCount
          sgCount := cb.sgCount
          sgDescList := cb.descList cmd.mrCreate.sgDescList } }
  else
    { cmd with
      hdr := { cmd.hdr with op := cmdMrAppend }
      mrAppend :=
        { mrKey := cb.mr.key
          sgPos := cb.sgPos
          sgCount := cb.sgCount
          sgDescList := cb.descList cmd.mrAppend.sgDescList } }

/-- C `ntrdma_mr_enable_cmpl`: the next command, or none once the exchange is over. -/
def mrEnableCmpl (cb : MrCmdCb) (rsp : Rsp) (caps : MrCaps := driverCaps) : Option MrCmdCb :=
  if rsp.hdr.status ≠ 0 then none
  else
    let stop := cb.sgPos + cb.sgCount
    if stop ≠ cb.mr.sgCount then
      let count := cb.mr.sgCount - stop
      some ⟨cb.mr, stop, if count > caps.append then caps.append else count⟩
    else none

/-! ## The exchange with the peer -/

/-- A region being enabled: the command to be sent next, and the peer. -/
structure MrExchange where
  cb : Option MrCmdCb
  peer : CmdDev

/-- The next command of a region is prepared and handled, or something else happens to the peer. -/
inductive MrAct where
  | exchange (env : RecvEnv) (cmd : Cmd) (slot : Rsp)
  | other (peer : CmdDev)

/-- The steps of a region being enabled. Nothing else touches the region of this key. -/
def mrStep (key : UInt32) (s : MrExchange) : MrAct → MrExchange → Prop
  | .exchange env cmd slot, t => ∃ cb, s.cb = some cb ∧
      t = ⟨mrEnableCmpl cb (cmdRecv env s.peer (mrEnablePrep cb cmd) slot).rsp,
        (cmdRecv env s.peer (mrEnablePrep cb cmd) slot).dev⟩
  | .other peer, t => peer.rmrs key = s.peer.rmrs key ∧ t = { s with peer }

def Cmd.MrSane (cmd : Cmd) (peer : CmdDev) : Prop :=
  if cmd.hdr.op = cmdMrCreate then sanityMrCreate cmd.mrCreate = .ok ()
  else ∃ rmr, peer.rmrs cmd.mrAppend.mrKey = some rmr ∧
    sanityMrAppend cmd.mrAppend rmr.sgCount = .ok ()

def regCount (env : RegMrEnv) (start length : UInt64) : UInt32 :=
  match regRanges env start length with
  | .error _ => 0
  | .ok ranges => ranges.length.toUInt32

/-- What `ntrdma_reg_user_mr` makes of its arguments. -/
structure MrObj.Of (mr : MrObj) (length virtAddr : UInt64) (access count : UInt32) : Prop where
  addr : mr.addr = virtAddr
  access : mr.access = access
  len : mr.len ≤ ibMrLimitBytes
  sgCount : mr.sgCount = count

section
variable {env : RegMrEnv} {pdKey access : UInt32} {start length virtAddr : UInt64} {mr : MrObj}

lemma regUserMr_ok (hok : regUserMr env pdKey start length virtAddr access = .ok mr) :
    length ≤ ibMrLimitBytes ∧ ∃ ranges sgList key, regRanges env start length = .ok ranges ∧
      mapElems env.ownMws access ranges = .ok sgList ∧ env.key = .ok key ∧
      mr = ⟨key, pdKey, access, virtAddr, length, ranges.length.toUInt32, sgList⟩ := by
  simp only [regUserMr] at hok
  split at hok
  · cases hok
  rename_i hlen
  split at hok
  · cases hok
  split at hok
  · cases hok
  split at hok
  · cases hok
  rename_i ranges hranges
  split at hok
  · cases hok
  split at hok
  · cases hok
  rename_i sgList hmap
  split at hok
  · cases hok
  rename_i key hkey
  exact ⟨UInt64.not_lt.mp hlen, ranges, sgList, key, hranges, hmap, hkey, (Except.ok.inj hok).symm⟩

lemma regUserMr_of (hok : regUserMr env pdKey start length virtAddr access = .ok mr) :
    mr.Of length virtAddr access (regCount env start length) := by
  obtain ⟨hlen, ranges, sgList, key, hranges, -, -, rfl⟩ := regUserMr_ok hok
  refine ⟨rfl, rfl, hlen, ?_⟩
  rw [regCount, hranges]

end

/-! ## What the exchange keeps -/

/-- The elements of a command are elements of the region and fit into it. -/
structure MrCmdCb.Sound (mr : MrObj) (peer : CmdDev) (cb : MrCmdCb) : Prop where
  eq : cb.mr = mr
  le : cb.sgPos.toNat + cb.sgCount.toNat ≤ mr.sgCount.toNat
  create : cb.sgPos = 0 → cb.sgCount ≤ driverCaps.create ∧ (cb.sgCount = 0 → mr.sgCount = 0)
  append : cb.sgPos ≠ 0 → cb.sgCount ≤ driverCaps.append ∧ mr.sgCount ≤ ibMrLimitPages ∧
    ∃ rmr, peer.rmrs mr.key = some rmr ∧ rmr.sgCount = mr.sgCount

def MrExchange.Sound (mr : MrObj) (s : MrExchange) : Prop :=
    ∀ cb, s.cb = some cb → cb.Sound mr s.peer

section
variable {mr : MrObj} {peer : CmdDev} {cb : MrCmdCb}

lemma MrCmdCb.Sound.sgCount_le (h : cb.Sound mr peer) : cb.sgCount ≤ mr.sgCount := by
  rw [UInt32.le_iff_toNat_le]
  have := h.le
  omega

lemma mrEnableCb_sound (mr : MrObj) (peer : CmdDev) : (mrEnableCb mr).Sound mr peer := by
  refine ⟨rfl, ?_, fun _ => ?_, fun h => absurd rfl h⟩
  · simp only [mrEnableCb, UInt32.toNat_zero, Nat.zero_add]
    split <;> rename_i h
    · exact (UInt32.lt_iff_toNat_lt.mp h).le
    · exact Nat.le_refl _
  · simp only [mrEnableCb]
    split <;> rename_i h
    · exact ⟨UInt32.le_refl _, fun h => absurd h (by decide)⟩
    · exact ⟨UInt32.not_lt.mp h, id⟩

variable {cmd : CmdMrCreate}

lemma sanityMrCreate_iff (hcount : cmd.sgCount ≤ driverCaps.create) (hcap : cmd.sgCount ≤ cmd.sgCap)
    (hlen : cmd.mrLen ≤ ibMrLimitBytes) :
    sanityMrCreate cmd = .ok () ↔
      cmd.mrAddr % intelAlign = 0 ∧ cmd.access ≤ maxSumAccessFlags ∧
        cmd.sgCap ≤ ibMrLimitPages := by
  simp only [sanityMrCreate, gt_iff_lt, UInt32.not_lt.mpr hcount, UInt32.not_lt.mpr hcap,
    UInt64.not_lt.mpr hlen, decide_false, Bool.or_false, decide_eq_true_eq,
      if_false, bne_iff_ne, ne_eq]
  constructor
  · intro hpass
    split at hpass
    · cases hpass
    · split at hpass
      · cases hpass
      · split at hpass
        · cases hpass
        · exact ⟨not_not.mp ‹_›, UInt32.not_lt.mp ‹_›, UInt32.not_lt.mp ‹_›⟩
  · rintro ⟨haddr, haccess, hpages⟩
    rw [if_neg (UInt32.not_lt.mpr hpages), if_neg (not_not.mpr haddr),
      if_neg (UInt32.not_lt.mpr haccess)]

lemma sanityMrCreate_pages (hsane : sanityMrCreate cmd = .ok ()) : cmd.sgCap ≤ ibMrLimitPages := by
  by_contra hpages
  simp only [sanityMrCreate, gt_iff_lt, UInt32.not_le.mp hpages, decide_true,
    Bool.true_or, if_true] at hsane
  cases hsane

lemma sanityMrAppend_ok {cmd : CmdMrAppend} {rmrSgCount : UInt32}
    (hcount : cmd.sgCount ≤ driverCaps.append)
    (hle : cmd.sgPos.toNat + cmd.sgCount.toNat ≤ rmrSgCount.toNat)
    (hpages : rmrSgCount ≤ ibMrLimitPages) : sanityMrAppend cmd rmrSgCount = .ok () := by
  rw [UInt32.le_iff_toNat_le] at hpages
  have hmax := rmrSgCount.toNat_lt
  have hadd : (cmd.sgPos + cmd.sgCount).toNat = cmd.sgPos.toNat + cmd.sgCount.toNat := by
    rw [UInt32.toNat_add, Nat.mod_eq_of_lt (by omega)]
  have hpos : ¬ cmd.sgPos > ibMrLimitPages := by
    rw [gt_iff_lt, UInt32.lt_iff_toNat_lt]
    omega
  have hover : ¬ cmd.sgPos + cmd.sgCount < cmd.sgPos := by
    rw [UInt32.lt_iff_toNat_lt, hadd]
    omega
  have hend : ¬ cmd.sgPos + cmd.sgCount > rmrSgCount := by
    rw [gt_iff_lt, UInt32.lt_iff_toNat_lt, hadd]
    omega
  simp only [sanityMrAppend, hpos, UInt32.not_lt.mpr hcount, gt_iff_lt, hover,
    decide_false, Bool.or_false]
  rw [if_neg]
  simpa using hend

variable {env : RecvEnv}

/-- A creation that succeeds was checked, and the peer has the region with its first elements
mapped. -/
lemma mrCreate_ok {caps : MrCaps} (hok : (mrCreate env peer cmd caps).1 = .ok ()) :
    sanityMrCreate cmd caps = .ok () ∧
      ∃ sgList, mapSgs peer.ntc false cmd.sgDescList 0 cmd.sgCount.toNat 0
        (fun _ => ⟨0, 0⟩) = (.ok (), sgList) ∧
        (mrCreate env peer cmd caps).2.rmrs cmd.mrKey =
          some ⟨cmd.pdKey, cmd.access, cmd.mrAddr, cmd.mrLen, cmd.sgCap, sgList⟩ := by
  simp only [mrCreate, rmrInit] at hok ⊢
  generalize sanityMrCreate cmd caps = sane at hok ⊢
  cases sane with
  | error => cases hok
  | ok u =>
    dsimp only at hok ⊢
    split at hok
    · cases hok
    next halloc =>
      rw [if_neg halloc]
      generalize mapSgs peer.ntc false cmd.sgDescList 0 cmd.sgCount.toNat 0
        (fun _ => ⟨0, 0⟩) = res at hok ⊢
      obtain ⟨rc, sgList⟩ := res
      cases rc with
      | error => cases hok
      | ok u =>
        generalize env.vecSet = vecSet at hok ⊢
        cases vecSet with
        | error => cases hok
        | ok => exact ⟨rfl, sgList, rfl, Function.update_self ..⟩

lemma mrAppend_rmrs (cmd : CmdMrAppend) {rmr : RmrObj} (hrmr : peer.rmrs cmd.mrKey = some rmr) :
    ∃ rmr', (mrAppend peer cmd).2.rmrs cmd.mrKey = some rmr' ∧ rmr'.sgCount = rmr.sgCount := by
  simp only [mrAppend, hrmr]
  split
  · exact ⟨rmr, hrmr, rfl⟩
  · exact ⟨_, Function.update_self .., rfl⟩

variable {rsp : Rsp}

lemma CmdDone.reply_status {res : Except Errno Unit × CmdDev}
    (h : (CmdDone.reply rsp res).rsp.hdr.status = 0) : res.1 = .ok () := by
  obtain ⟨rc, dev⟩ := res
  cases rc with
  | ok => rfl
  | error => exact absurd (show (~~~0 : UInt32) = 0 from h) (by decide)

lemma CmdDone.reply_dev (rsp : Rsp) (res : Except Errno Unit × CmdDev) :
    (CmdDone.reply rsp res).dev = res.2 := by
  obtain ⟨rc, dev⟩ := res
  cases rc <;> rfl

variable {slot : Rsp}

lemma cmdRecv_mrCreate {cmd : Cmd} (hop : cmd.hdr.op = cmdMrCreate) :
    cmdRecv env peer cmd slot = cmdRecvMrCreate env peer cmd.hdr cmd.mrCreate slot := by
  rw [cmdRecv_eq, hop]
  rfl

lemma cmdRecv_mrAppend {cmd : Cmd} (hop : cmd.hdr.op = cmdMrAppend) :
    cmdRecv env peer cmd slot = cmdRecvMrAppend peer cmd.hdr cmd.mrAppend slot := by
  rw [cmdRecv_eq, hop]
  rfl

lemma mrEnableCmpl_some {cb' : MrCmdCb} (h : mrEnableCmpl cb rsp = some cb') :
    rsp.hdr.status = 0 ∧ cb.sgPos + cb.sgCount ≠ cb.mr.sgCount ∧ cb'.mr = cb.mr ∧
      cb'.sgPos = cb.sgPos + cb.sgCount ∧ cb'.sgCount ≤ driverCaps.append ∧
      cb'.sgCount ≤ cb.mr.sgCount - (cb.sgPos + cb.sgCount) := by
  simp only [mrEnableCmpl] at h
  split at h
  · cases h
  next hstatus =>
    split at h
    next hstop =>
      rw [← Option.some.inj h]
      refine ⟨not_not.mp hstatus, hstop, rfl, rfl, ?_⟩
      dsimp only
      split <;> rename_i hcount
      · exact ⟨UInt32.le_refl _, UInt32.le_of_lt hcount⟩
      · exact ⟨UInt32.not_lt.mp hcount, UInt32.le_refl _⟩
    · cases h

/-- A prepared command is a creation or goes on with a region that the peer has. -/
lemma mrEnablePrep_zero (hpos : cb.sgPos = 0) (cmd : Cmd) :
    (mrEnablePrep cb cmd).hdr.op = cmdMrCreate ∧
      (mrEnablePrep cb cmd).mrCreate = ⟨cb.mr.key, cb.mr.pdKey, cb.mr.access, cb.mr.addr, cb.mr.len,
        cb.mr.sgCount, cb.sgCount, cb.descList cmd.mrCreate.sgDescList⟩ := by
  rw [mrEnablePrep, if_pos hpos]
  exact ⟨rfl, rfl⟩

lemma mrEnablePrep_pos (hpos : cb.sgPos ≠ 0) (cmd : Cmd) :
    (mrEnablePrep cb cmd).hdr.op = cmdMrAppend ∧
      (mrEnablePrep cb cmd).mrAppend = ⟨cb.mr.key, cb.sgPos, cb.sgCount,
        cb.descList cmd.mrAppend.sgDescList⟩ := by
  rw [mrEnablePrep, if_neg hpos]
  exact ⟨rfl, rfl⟩

lemma MrCmdCb.Sound.answered {cmd : Cmd} (h : cb.Sound mr peer)
    (hstatus : (cmdRecv env peer (mrEnablePrep cb cmd) slot).rsp.hdr.status = 0) :
    mr.sgCount ≤ ibMrLimitPages ∧
      ∃ rmr, (cmdRecv env peer (mrEnablePrep cb cmd) slot).dev.rmrs mr.key = some rmr ∧
        rmr.sgCount = mr.sgCount := by
  by_cases hpos : cb.sgPos = 0
  · obtain ⟨hop, hcmd⟩ := mrEnablePrep_zero hpos cmd
    rw [cmdRecv_mrCreate hop, cmdRecvMrCreate] at hstatus ⊢
    obtain ⟨hsane, sgList, -, hrmr⟩ := mrCreate_ok (CmdDone.reply_status hstatus)
    rw [CmdDone.reply_dev]
    rw [hcmd, h.eq] at hrmr hsane ⊢
    exact ⟨sanityMrCreate_pages hsane, _, hrmr, rfl⟩
  · obtain ⟨hop, hcmd⟩ := mrEnablePrep_pos hpos cmd
    obtain ⟨-, hpages, rmr, hrmr, hcount⟩ := h.append hpos
    rw [cmdRecv_mrAppend hop, cmdRecvMrAppend, CmdDone.reply_dev, hcmd, h.eq]
    obtain ⟨rmr', hrmr', hcount'⟩ := mrAppend_rmrs ⟨mr.key, cb.sgPos, cb.sgCount,
      cb.descList cmd.mrAppend.sgDescList⟩ hrmr
    exact ⟨hpages, rmr', hrmr', hcount'.trans hcount⟩

lemma mrStep_sound {s t : MrExchange} {act : MrAct} (h : s.Sound mr)
    (hstep : mrStep mr.key s act t) : t.Sound mr := by
  cases act with
  | other =>
    obtain ⟨hrmr, rfl⟩ := hstep
    intro cb hcb
    have hsound := h cb hcb
    refine ⟨hsound.eq, hsound.le, hsound.create, fun hpos => ?_⟩
    rw [hrmr]
    exact hsound.append hpos
  | exchange =>
    obtain ⟨cb, hcb, rfl⟩ := hstep
    intro cb' hcb'
    have hsound := h cb hcb
    obtain ⟨hstatus, hstop, heq, hpos, hcount, hleft⟩ := mrEnableCmpl_some hcb'
    obtain ⟨hpages, hrmr⟩ := hsound.answered hstatus
    rw [hsound.eq] at hstop hleft
    have hle := hsound.le
    have hmax := mr.sgCount.toNat_lt
    have hadd : (cb.sgPos + cb.sgCount).toNat = cb.sgPos.toNat + cb.sgCount.toNat := by
      rw [UInt32.toNat_add, Nat.mod_eq_of_lt (by omega)]
    rw [UInt32.le_iff_toNat_le, UInt32.toNat_sub_of_le _ _
      (by rw [UInt32.le_iff_toNat_le]; omega)] at hleft
    refine ⟨heq.trans hsound.eq, by rw [hpos]; omega, fun hzero => ?_,
      fun _ => ⟨hcount, hpages, hrmr⟩⟩
    -- a command that starts at zero again had no elements, and neither has the region
    rw [hpos, ← UInt32.toNat_inj, hadd, UInt32.toNat_zero] at hzero
    have hsgPos : cb.sgPos = 0 := by rw [← UInt32.toNat_inj, UInt32.toNat_zero]; omega
    have hsgCount : cb.sgCount = 0 := by rw [← UInt32.toNat_inj, UInt32.toNat_zero]; omega
    refine absurd ?_ hstop
    rw [(hsound.create hsgPos).2 hsgCount, hsgPos, hsgCount]
    rfl

lemma MrCmdCb.Sound.sane (h : cb.Sound mr peer) (haddr : mr.addr % intelAlign = 0)
    (haccess : mr.access ≤ maxSumAccessFlags) (hlen : mr.len ≤ ibMrLimitBytes)
    (hpages : mr.sgCount ≤ ibMrLimitPages) (cmd : Cmd) : (mrEnablePrep cb cmd).MrSane peer := by
  by_cases hpos : cb.sgPos = 0
  · obtain ⟨hop, hcmd⟩ := mrEnablePrep_zero hpos cmd
    rw [Cmd.MrSane, if_pos hop, hcmd, h.eq]
    exact (sanityMrCreate_iff (h.create hpos).1 h.sgCount_le hlen).mpr ⟨haddr, haccess, hpages⟩
  · obtain ⟨hop, hcmd⟩ := mrEnablePrep_pos hpos cmd
    obtain ⟨hcount, -, rmr, hrmr, heq⟩ := h.append hpos
    rw [Cmd.MrSane, if_neg (by rw [hop]; decide), hcmd, h.eq]
    refine ⟨rmr, hrmr, sanityMrAppend_ok hcount ?_ ?_⟩ <;> rw [heq]
    · exact h.le
    · exact hpages

end

/-- Every command passes the check of the peer exactly if the address is aligned, the access flags
are not too large, and there are no more elements than the largest region has pages. -/
theorem regUserMr_sane_iff {env : RegMrEnv} {pdKey access : UInt32} {start length virtAddr : UInt64}
    {mr : MrObj} (hok : regUserMr env pdKey start length virtAddr access = .ok mr) (peer : CmdDev) :
    (∀ s, Reaches (mrStep mr.key) ⟨some (mrEnableCb mr), peer⟩ s → ∀ cb, s.cb = some cb → ∀ cmd,
      (mrEnablePrep cb cmd).MrSane s.peer) ↔
      virtAddr % intelAlign = 0 ∧ access ≤ maxSumAccessFlags ∧
        regCount env start length ≤ ibMrLimitPages := by
  have hmr := regUserMr_of hok
  rw [← hmr.addr, ← hmr.access, ← hmr.sgCount]
  have hstart := mrEnableCb_sound mr peer
  constructor
  · intro hall
    have hzero : (mrEnableCb mr).sgPos = 0 := rfl
    obtain ⟨hop, hcmd⟩ := mrEnablePrep_zero hzero emptyCmd
    have hsane := hall _ .refl _ rfl emptyCmd
    rw [Cmd.MrSane, if_pos hop, hcmd] at hsane
    exact (sanityMrCreate_iff (hstart.create rfl).1 hstart.sgCount_le hmr.len).mp hsane
  · rintro ⟨haddr, haccess, hpages⟩ s hrun cb hcb cmd
    have hsound : s.Sound mr := by
      refine hrun.invariant (I := MrExchange.Sound mr) ?_ fun s act t hs hstep =>
        mrStep_sound hs hstep
      intro cb hcb
      rw [← Option.some.inj hcb]
      exact hstart
    exact (hsound cb hcb).sane haddr haccess hmr.len hpages cmd

def pageEnv : RegMrEnv where
  mrNum := 1
  ioPfnSegment := none
  umemGet := .ok [⟨0x1000, 0x1000⟩]
  kmalloc := true
  ownMws _ := ⟨0, 0x100000⟩
  key := .ok 1

def pageMr (offset : UInt64) (access : UInt32) : MrObj :=
  ⟨1, 0, access, 0x7000 + offset, 16, 1, [⟨⟨16, 0x1000 + offset⟩, 0, 0, access⟩]⟩

/-- A region at a multiple of eight, and one with the flags for local writes and huge pages, are
refused. -/
theorem regUserMr_refused :
    (regUserMr pageEnv 0 0x7008 16 0x7008 0x7 = .ok (pageMr 8 0x7) ∧
      sanityMrCreate (mrEnablePrep (mrEnableCb (pageMr 8 0x7))
        emptyCmd).mrCreate = .error .einval) ∧
    regUserMr pageEnv 0 0x7010 16 0x7010 0x81 = .ok (pageMr 16 0x81) ∧
      sanityMrCreate (mrEnablePrep (mrEnableCb (pageMr 16 0x81)) emptyCmd).mrCreate =
        .error .einval :=
  ⟨⟨rfl, by decide⟩, rfl, by decide⟩

theorem regUserMr_sane_iff_aligned :
    regUserMr pageEnv 0 0x7010 16 0x7010 0x7 = .ok (pageMr 16 0x7) ∧
    ∀ s, Reaches (mrStep 1) ⟨some (mrEnableCb (pageMr 16 0x7)), idleDev⟩ s →
      ∀ cb, s.cb = some cb → ∀ cmd,
      (mrEnablePrep cb cmd).MrSane s.peer := by
  have hok : regUserMr pageEnv 0 0x7010 16 0x7010 0x7 = .ok (pageMr 16 0x7) := rfl
  exact ⟨hok, (regUserMr_sane_iff hok idleDev).mpr ⟨by decide, by decide, by decide⟩⟩

end Ntrdma
