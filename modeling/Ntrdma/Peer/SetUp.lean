import Ntrdma.Cmd.Recv

/-!
# Values a host sets up from what its peer sends

Model of the second phase of the hello (`ntrdma_hello.c`, with the preparation of the command rings
and of the ethernet rings), of what a QP_CREATE command sets up and of what its response sets up:
the doorbells of the peer that the host will ring, and the rings that it will consume. The ethernet
rings are compiled in with `NTRDMA_FULL_ETH` only.

Every check on a doorbell compares with `>` where the table `dev->vbell.peer` has
`NTRDMA_DEV_VBELL_COUNT` entries, the response is not checked at all, and the hello is not asked for
a capacity or for an index that the freshly zeroed command ring agrees with.
-/

namespace Ntrdma

def maxCmds : UInt32 := 16

def maxWqes : UInt32 := 4096

def v1Magic : UInt32 := 0x3ce4dbd8

def v1P2Magic : UInt32 := 0x1a1530f1

structure CmdHelloInfo where
  sendRspBufDesc : RemoteBufDesc
  sendConsShift : UInt64
  sendCap : UInt32
  sendIdx : UInt32
  sendVbellIdx : UInt32
  recvVbellIdx : UInt32

structure EthHelloInfo where
  rxCap : UInt32
  rxIdx : UInt32
  rxCqeBufDesc : RemoteBufDesc
  rxConsBufDesc : RemoteBufDesc
  vbellIdx : UInt32

structure HelloPhase2 where
  versionMagic : UInt32
  phaseMagic : UInt32
  vbellNtcBufDesc : RemoteBufDesc
  vbellCount : UInt32
  cmdInfo : CmdHelloInfo
  ethInfo : EthHelloInfo

/-- A ring that the host consumes, with the producer index that it will find in its buffer. -/
structure RingSetUp where
  cap : UInt32
  cons : UInt32
  prod : UInt32

/-- What a message sets up: the entries of `dev->vbell.peer` that the host will use, and its
rings. -/
structure SetUp where
  vbells : List UInt32
  rings : List RingSetUp

structure SetUpEnv where
  recv : RecvEnv
  dev : CmdDev
  fullEth : Bool
  sizesFit : Bool
  vbellEnabled : Bool
  cmdRecvBufs : Except Errno Unit
  ethTxBufs : Except Errno Unit

/-! ## The messages -/

/-- C `ntrdma_dev_vbell_enable`, which does nothing where the doorbells are enabled. -/
def devVbellEnable (env : SetUpEnv) (vbellNtcBufDesc : RemoteBufDesc) : Except Errno Unit :=
  if env.vbellEnabled then .ok ()
  else
    match ntcRemoteBufMap env.dev.ntc vbellNtcBufDesc with
    | .error e => .error e
    | .ok _ => .ok ()

/-- C `ntrdma_dev_cmd_hello_prep`. The producer index is in the ring's own buffer, which
`ntc_export_buf_zalloc` clears. -/
def devCmdHelloPrep (env : SetUpEnv) (peerInfo : CmdHelloInfo) : Except Errno SetUp :=
  if peerInfo.sendVbellIdx > devVbellCount || peerInfo.recvVbellIdx > devVbellCount then .error .eio
  else if peerInfo.sendCap > maxCmds then .error .eio
  else
    match ntcRemoteBufMap env.dev.ntc peerInfo.sendRspBufDesc with
    | .error e => .error e
    | .ok _ =>
      match env.cmdRecvBufs with
      | .error e => .error e
      | .ok () =>
        .ok ⟨[peerInfo.sendVbellIdx, peerInfo.recvVbellIdx],
          [⟨peerInfo.sendCap, peerInfo.sendIdx, 0⟩]⟩

def devEthHelloPrep (env : SetUpEnv) (peerInfo : EthHelloInfo) : Except Errno SetUp :=
  if !env.fullEth then .ok ⟨[], []⟩
  else if peerInfo.vbellIdx > devVbellCount then .error .enomem
  else if peerInfo.rxCap > maxWqes || peerInfo.rxIdx > maxWqes then .error .enomem
  else
    match ntcRemoteBufMap env.dev.ntc peerInfo.rxCqeBufDesc with
    | .error e => .error e
    | .ok _ =>
      match ntcRemoteBufMap env.dev.ntc peerInfo.rxConsBufDesc with
      | .error e => .error e
      | .ok _ =>
        match env.ethTxBufs with
        | .error e => .error e
        | .ok () => .ok ⟨[peerInfo.vbellIdx], [⟨peerInfo.rxCap, peerInfo.rxIdx, peerInfo.rxIdx⟩]⟩

def devHelloPhase2 (env : SetUpEnv) (info : HelloPhase2) : Except Errno SetUp :=
  if !env.sizesFit then .error .einval
  else if info.versionMagic ≠ v1Magic then .error .einval
  else if info.phaseMagic ≠ v1P2Magic then .error .einval
  else if info.vbellCount > devVbellCount then .error .einval
  else if info.vbellCount.toUInt64 > info.vbellNtcBufDesc.size / 4 then .error .einval
  else do
    devVbellEnable env info.vbellNtcBufDesc
    let cmd ← devCmdHelloPrep env info.cmdInfo
    let eth ← devEthHelloPrep env info.ethInfo
    return ⟨cmd.vbells ++ eth.vbells, cmd.rings ++ eth.rings⟩

def rqpSetUp (cmd : CmdQpCreate) : SetUp :=
  let rqp := (rqpInit cmd).rqp
  ⟨[cmd.cmplVbellIdx],
    [⟨rqp.sendCap, rqp.sendCons, rqp.sendProd⟩, ⟨rqp.recvCap, rqp.recvCons, rqp.recvProd⟩]⟩

/-- C `ntrdma_qp_enable_cmpl`: what the status of the command becomes, or what is set up. -/
def qpEnableCmpl (env : SetUpEnv) (rsp : Rsp) : Except UInt32 SetUp :=
  if rsp.hdr.status ≠ 0 then .error rsp.hdr.status
  else
    match ntcRemoteBufMap env.dev.ntc rsp.recvWqeBufDesc with
    | .error e => .error e.status
    | .ok _ =>
      match ntcRemoteBufMap env.dev.ntc rsp.sendWqeBufDesc with
      | .error e => .error e.status
      | .ok _ => .ok ⟨[rsp.sendVbellIdx], []⟩

inductive PeerMsg where
  | hello (info : HelloPhase2)
  | qpCreate (cmd : CmdQpCreate)
  | qpCreateRsp (rsp : Rsp)

def PeerMsg.accept (env : SetUpEnv) : PeerMsg → Option SetUp
  | hello info =>
    match devHelloPhase2 env info with
    | .error _ => none
    | .ok setUp => some setUp
  | qpCreate cmd =>
    match Ntrdma.qpCreate env.recv env.dev cmd with
    | .error _ => none
    | .ok _ => some (rqpSetUp cmd)
  | qpCreateRsp rsp =>
    match qpEnableCmpl env rsp with
    | .error _ => none
    | .ok setUp => some setUp

/-! ## What the checks leave open -/

/-- The ring has room, its index is valid, and it is empty. -/
structure RingSetUp.Fresh (ring : RingSetUp) : Prop where
  cap_pos : 1 ≤ ring.cap
  cons_lt : ring.cons.toNat < 2 * ring.cap.toNat
  empty : ring.cons = ring.prod

/-- Every doorbell is in the table, and every ring is fresh. -/
structure SetUp.InRange (setUp : SetUp) : Prop where
  vbells : ∀ idx ∈ setUp.vbells, idx < devVbellCount
  rings : ∀ ring ∈ setUp.rings, ring.Fresh

def PeerMsg.Bounded (fullEth : Bool) : PeerMsg → Prop
  | hello info =>
    info.cmdInfo.sendVbellIdx ≠ devVbellCount ∧ info.cmdInfo.recvVbellIdx ≠ devVbellCount ∧
      info.cmdInfo.sendCap ≠ 0 ∧ info.cmdInfo.sendIdx = 0 ∧
      (fullEth → info.ethInfo.vbellIdx ≠ devVbellCount ∧
        info.ethInfo.rxIdx.toNat < 2 * info.ethInfo.rxCap.toNat)
  | qpCreate cmd => cmd.cmplVbellIdx ≠ devVbellCount
  | qpCreateRsp rsp => rsp.sendVbellIdx < devVbellCount

section
variable {env : SetUpEnv} {setUp : SetUp}

/-- What passes `idx > NTRDMA_DEV_VBELL_COUNT` is in the table unless it is the count itself. -/
lemma vbell_lt_iff {idx : UInt32} (h : ¬ idx > devVbellCount) :
    idx < devVbellCount ↔ idx ≠ devVbellCount := by
  rw [gt_iff_lt, UInt32.lt_iff_toNat_lt] at h
  rw [UInt32.lt_iff_toNat_lt, ne_eq, ← UInt32.toNat_inj]
  omega

lemma SetUp.inRange_append {vbells vbells' : List UInt32} {rings rings' : List RingSetUp} :
    (SetUp.mk (vbells ++ vbells') (rings ++ rings')).InRange ↔
      (SetUp.mk vbells rings).InRange ∧ (SetUp.mk vbells' rings').InRange := by
  constructor
  · intro h
    exact ⟨⟨fun _ hm => h.vbells _ (List.mem_append_left _ hm), fun _ hm =>
      h.rings _ (List.mem_append_left _ hm)⟩,
      ⟨fun _ hm => h.vbells _ (List.mem_append_right _ hm), fun _ hm =>
        h.rings _ (List.mem_append_right _ hm)⟩⟩
  · rintro ⟨h, h'⟩
    exact ⟨fun _ hm => (List.mem_append.mp hm).elim (h.vbells _) (h'.vbells _),
      fun _ hm => (List.mem_append.mp hm).elim (h.rings _) (h'.rings _)⟩

variable {cap idx : UInt32}

lemma RingSetUp.fresh_iff : (RingSetUp.mk cap idx idx).Fresh ↔ idx.toNat < 2 * cap.toNat := by
  constructor
  · exact fun h => h.cons_lt
  · intro h
    refine ⟨?_, h, rfl⟩
    rw [UInt32.le_iff_toNat_le, UInt32.toNat_one]
    dsimp only
    omega

lemma RingSetUp.fresh_zero_iff : (RingSetUp.mk cap idx 0).Fresh ↔ cap ≠ 0 ∧ idx = 0 := by
  constructor
  · intro h
    refine ⟨?_, h.empty⟩
    rintro rfl
    exact Nat.not_lt_zero _ h.cons_lt
  · rintro ⟨hcap, rfl⟩
    rw [RingSetUp.fresh_iff, UInt32.toNat_zero]
    have : cap.toNat ≠ 0 := fun h0 => hcap (UInt32.toNat_inj.mp h0)
    omega

lemma devCmdHelloPrep_inRange_iff {peerInfo : CmdHelloInfo}
    (h : devCmdHelloPrep env peerInfo = .ok setUp) :
    setUp.InRange ↔ peerInfo.sendVbellIdx ≠ devVbellCount ∧ peerInfo.recvVbellIdx ≠ devVbellCount ∧
      peerInfo.sendCap ≠ 0 ∧ peerInfo.sendIdx = 0 := by
  unfold devCmdHelloPrep at h
  split at h
  · cases h
  next hvbells =>
    simp only [Bool.or_eq_true, decide_eq_true_eq, not_or] at hvbells
    split at h
    · cases h
    · split at h
      · cases h
      · split at h
        · cases h
        · obtain rfl := Except.ok.inj h
          rw [← vbell_lt_iff hvbells.1, ← vbell_lt_iff hvbells.2, ← RingSetUp.fresh_zero_iff]
          constructor
          · intro hin
            exact ⟨hin.vbells _ (by simp), hin.vbells _ (by simp), hin.rings _ (by simp)⟩
          · rintro ⟨hsend, hrecv, hring⟩
            exact ⟨by simpa using ⟨hsend, hrecv⟩, by simpa using hring⟩

lemma devEthHelloPrep_inRange_iff {peerInfo : EthHelloInfo}
    (h : devEthHelloPrep env peerInfo = .ok setUp) :
    setUp.InRange ↔ (env.fullEth → peerInfo.vbellIdx ≠ devVbellCount ∧
      peerInfo.rxIdx.toNat < 2 * peerInfo.rxCap.toNat) := by
  unfold devEthHelloPrep at h
  split at h
  next hoff =>
    obtain rfl := Except.ok.inj h
    simp only [Bool.not_eq_true'] at hoff
    rw [hoff]
    exact ⟨fun _ => nofun, fun _ => ⟨nofun, nofun⟩⟩
  next hon =>
    simp only [Bool.not_eq_true', Bool.not_eq_false] at hon
    split at h
    · cases h
    next hvbell =>
      split at h
      · cases h
      · split at h
        · cases h
        · split at h
          · cases h
          · split at h
            · cases h
            · obtain rfl := Except.ok.inj h
              rw [← vbell_lt_iff hvbell, ← RingSetUp.fresh_iff]
              constructor
              · exact fun hin _ => ⟨hin.vbells _ (by simp), hin.rings _ (by simp)⟩
              · intro hin
                obtain ⟨hlt, hring⟩ := hin hon
                exact ⟨by simpa using hlt, by simpa using hring⟩

lemma devHelloPhase2_ok {info : HelloPhase2} (h : devHelloPhase2 env info = .ok setUp) :
    ∃ cmd eth, devCmdHelloPrep env info.cmdInfo = .ok cmd ∧
      devEthHelloPrep env info.ethInfo = .ok eth ∧
      setUp = ⟨cmd.vbells ++ eth.vbells, cmd.rings ++ eth.rings⟩ := by
  unfold devHelloPhase2 at h
  iterate 5
    split at h
    · cases h
  cases hvbell : devVbellEnable env info.vbellNtcBufDesc with
  | error => rw [hvbell] at h; exact absurd h nofun
  | ok =>
    rw [hvbell] at h
    cases hcmd : devCmdHelloPrep env info.cmdInfo with
    | error => rw [hcmd] at h; exact absurd h nofun
    | ok cmd =>
      rw [hcmd] at h
      cases heth : devEthHelloPrep env info.ethInfo with
      | error => rw [heth] at h; exact absurd h nofun
      | ok eth =>
        rw [heth] at h
        exact ⟨cmd, eth, rfl, rfl, (Except.ok.inj h).symm⟩

variable {cmd : CmdQpCreate}

lemma qpCreateSanity_ok (h : qpCreateSanity cmd = .ok ()) :
    cmd.sendRingIdx.toNat < 2 * cmd.sendWqeCap.toNat ∧
      cmd.recvRingIdx.toNat < 2 * cmd.recvWqeCap.toNat ∧
      ¬ cmd.cmplVbellIdx > devVbellCount := by
  unfold qpCreateSanity at h
  split at h
  · cases h
  · split at h
    · cases h
    next hsend =>
      split at h
      · cases h
      next hrecv =>
        split at h
        · cases h
        next hvbell =>
          simp only [Bool.or_eq_true, decide_eq_true_eq, not_or,
            gt_iff_lt, ge_iff_le, UInt32.not_lt,
            UInt32.not_le] at hsend hrecv
          -- doubling a capacity can only wrap to a smaller bound
          have double_lt : ∀ {cap idx : UInt32}, idx < 2 * cap → idx.toNat < 2 * cap.toNat := by
            intro cap idx hlt
            rw [UInt32.lt_iff_toNat_lt, UInt32.toNat_mul] at hlt
            exact hlt.trans_le (Nat.mod_le _ _)
          exact ⟨double_lt hsend.2, double_lt hrecv.2, hvbell⟩

lemma qpCreate_inRange_iff (h : qpCreateSanity cmd = .ok ()) :
    (rqpSetUp cmd).InRange ↔ cmd.cmplVbellIdx ≠ devVbellCount := by
  obtain ⟨hsend, hrecv, hvbell⟩ := qpCreateSanity_ok h
  rw [← vbell_lt_iff hvbell]
  constructor
  · exact fun hin => hin.vbells _ (by simp [rqpSetUp])
  · intro hlt
    refine ⟨by simpa [rqpSetUp] using hlt, fun ring hring => ?_⟩
    simp only [rqpSetUp, rqpInit, List.mem_cons, List.not_mem_nil, or_false] at hring
    obtain rfl | rfl := hring
    · exact RingSetUp.fresh_iff.mpr hsend
    · exact RingSetUp.fresh_iff.mpr hrecv

lemma qpCreate_sanity {done : RqpBufs × CmdDev} (h : qpCreate env.recv env.dev cmd = .ok done) :
    qpCreateSanity cmd = .ok () := by
  unfold qpCreate at h
  split at h
  · cases h
  next hok => exact hok

lemma qpEnableCmpl_inRange_iff {rsp : Rsp} (h : qpEnableCmpl env rsp = .ok setUp) :
    setUp.InRange ↔ rsp.sendVbellIdx < devVbellCount := by
  unfold qpEnableCmpl at h
  split at h
  · cases h
  · split at h
    · cases h
    · split at h
      · cases h
      · obtain rfl := Except.ok.inj h
        exact ⟨fun hin => hin.vbells _ (by simp), fun hlt => ⟨by simpa using hlt, nofun⟩⟩

end

/-- What is accepted from the peer is in range exactly if the message keeps to what the checks do
not ask for. -/
theorem accept_inRange_iff {env : SetUpEnv} {msg : PeerMsg} {setUp : SetUp}
    (h : msg.accept env = some setUp) : setUp.InRange ↔ msg.Bounded env.fullEth := by
  cases msg with
  | hello =>
    simp only [PeerMsg.accept] at h
    split at h
    · cases h
    next hok =>
      cases h
      obtain ⟨cmd, eth, hcmd, heth, rfl⟩ := devHelloPhase2_ok hok
      rw [SetUp.inRange_append, devCmdHelloPrep_inRange_iff hcmd, devEthHelloPrep_inRange_iff heth]
      simp only [PeerMsg.Bounded, and_assoc]
  | qpCreate =>
    simp only [PeerMsg.accept] at h
    split at h
    · cases h
    next hok =>
      cases h
      exact qpCreate_inRange_iff (qpCreate_sanity hok)
  | qpCreateRsp =>
    simp only [PeerMsg.accept] at h
    split at h
    · cases h
    next hok =>
      cases h
      exact qpEnableCmpl_inRange_iff hok

def easySetUpEnv (fullEth : Bool) : SetUpEnv :=
    ⟨easyEnv, idleDev, fullEth, true, true, .ok (), .ok ()⟩

def helloOf (vbellIdx sendCap idx : UInt32) : PeerMsg :=
  .hello ⟨v1Magic, v1P2Magic, ⟨0, 8⟩, 2, ⟨⟨0, 0⟩, 0, sendCap, idx, vbellIdx, vbellIdx⟩,
    ⟨1, idx, ⟨0, 0⟩, ⟨0, 0⟩, vbellIdx⟩⟩

def createOf (cmplVbellIdx : UInt32) : PeerMsg :=
  .qpCreate ⟨1, 0, 2, 1, 1, 1, 1, 1, 0, 1, ⟨0, 0⟩, 0, cmplVbellIdx⟩

def createdOf (sendVbellIdx : UInt32) : PeerMsg :=
  .qpCreateRsp ⟨⟨cmdQpCreate, 0, 0⟩, 1, sendVbellIdx, ⟨0, 0⟩, 0, ⟨0, 0⟩, 0⟩

/-- The doorbell after the last is accepted from all three messages, and so is a ring without
entries, or one that starts after an entry nobody wrote. -/
theorem accept_out_of_range :
    (∃ setUp, (helloOf devVbellCount 16 0).accept (easySetUpEnv false) = some setUp ∧
      ¬ setUp.InRange) ∧
      (∃ setUp, (helloOf 1 0 0).accept (easySetUpEnv false) = some setUp ∧ ¬ setUp.InRange) ∧
      (∃ setUp, (helloOf 1 16 1).accept (easySetUpEnv false) = some setUp ∧ ¬ setUp.InRange) ∧
      (∃ setUp, (createOf devVbellCount).accept (easySetUpEnv false) = some setUp ∧
        ¬ setUp.InRange) ∧
      ∃ setUp, (createdOf (~~~0)).accept (easySetUpEnv false) = some setUp ∧ ¬ setUp.InRange := by
  refine ⟨⟨_, rfl, fun h => ?_⟩, ⟨_, rfl, fun h => ?_⟩,
    ⟨_, rfl, fun h => ?_⟩, ⟨_, rfl, fun h => ?_⟩,
    ⟨_, rfl, fun h => ?_⟩⟩
  · exact absurd (h.vbells _ (List.mem_cons_self ..)) (by decide)
  · exact absurd (h.rings _ (List.mem_cons_self ..)).cap_pos (by decide)
  · exact absurd (h.rings _ (List.mem_cons_self ..)).empty (by decide)
  · exact absurd (h.vbells _ (List.mem_cons_self ..)) (by decide)
  · exact absurd (h.vbells _ (List.mem_cons_self ..)) (by decide)

theorem accept_inRange_iff_hello :
    (∃ setUp, (helloOf 1 16 0).accept (easySetUpEnv true) = some setUp ∧ setUp.InRange) ∧
      ∃ setUp, (createOf 7).accept (easySetUpEnv false) = some setUp ∧ setUp.InRange :=
  ⟨⟨_, rfl,
    (accept_inRange_iff (show (helloOf 1 16 0).accept (easySetUpEnv true) = some _ from rfl)).mpr
      ⟨by decide, by decide, by decide, by decide, fun _ => ⟨by decide, by decide⟩⟩⟩,
    ⟨_, rfl,
      (accept_inRange_iff (show (createOf 7).accept (easySetUpEnv false) = some _ from rfl)).mpr
      (show (7 : UInt32) ≠ devVbellCount by decide)⟩⟩

end Ntrdma
