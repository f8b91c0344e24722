import Ntrdma.Qp.Order
import Ntrdma.Recv.Sync

/-!
# What a receive leaves alone

A receive is followed from its posting (`ntrdma_ib_recv_to_wqe`) over the transfer by the peer
(`ntrdma_zip_rdma`) to its completion (`ntrdma_recv_done`). The transfer writes the bytes that were
sent and no others, into the memory of the application or into shadow buffers. The completion copies
every shadow buffer back as a whole, however much was sent (`copiedBack`).

What the peer writes at a DMA address of its own arrives at an address here, which is a parameter
(`route`).
-/

namespace Ntrdma
open Lib

/-! ## Copying back -/

def RcvSge.shadowBytes : RcvSge → List UInt64
  | .direct _ => []
  | .shadow sh _ => span sh.expBuf.dmaAddr sh.expBuf.size.toNat

/-- The bytes of the elements from the start of each, the first shortened by an offset. -/
def elemStarts (off : UInt64) : List MrBuf → List UInt64
  | [] => []
  | b :: l => span b.dmaAddr (b.size - off).toNat ++ bytes MrBuf.size MrBuf.dmaAddr l

/-- The bytes that a copy of `n` bytes to a region goes to: the elements are filled from their
start, the first one as far as the offset of the target leaves room. -/
def memcpyDests (dev : Dev) (targetKey : UInt32) (targetAddr : UInt64) (n : Nat) : List UInt64 :=
  match dev.mrLook targetKey with
  | none => []
  | some mr =>
    let r := skip MrBuf.size (targetAddr - mr.addr) mr.sgList
    (elemStarts r.1 r.2).take n

def RcvSge.dests (dev : Dev) : RcvSge → List UInt64
  | .direct _ => []
  | .shadow sh _ =>
    match sh.target with
    | .dma buf => span buf.dmaAddr sh.expBuf.size.toNat
    | .mr localKey localAddr => memcpyDests dev localKey localAddr sh.expBuf.size.toNat

lemma elemStarts_zero (l : List MrBuf) : elemStarts 0 l = bytes MrBuf.size MrBuf.dmaAddr l := by
  cases l with
  | nil => rfl
  | cons => rw [elemStarts, UInt64.sub_zero, bytes_cons]

lemma zipMemcpyLoop_dests {l : List MrBuf} {off : UInt64} {src : List UInt8}
    (hlt : src.length < 2 ^ 64) :
    (zipMemcpyLoop l off src).2.map Prod.fst = (elemStarts off l).take src.length := by
  induction l generalizing off src with
  | nil => rw [elemStarts, List.take_nil]; rfl
  | cons b _ ih =>
    simp only [zipMemcpyLoop]
    split
    next hempty => rw [List.isEmpty_iff.mp hempty]; rfl
    next =>
      have hsize : (min (UInt64.ofNat src.length) (b.size - off)).toNat =
          min src.length (b.size - off).toNat := by
        rw [UInt64.toNat_min, UInt64.toNat_ofNat_of_lt' hlt]
      have hdrop : (src.drop (min src.length (b.size - off).toNat)).length =
          src.length - (b.size - off).toNat := by
        rw [List.length_drop]
        omega
      have hfirst : (span b.dmaAddr (b.size - off).toNat).take src.length =
          span b.dmaAddr (min src.length (b.size - off).toNat) := by
        rw [List.take_eq_take_min, length_span, span_take (Nat.min_le_right ..)]
      rw [hsize, List.map_append, ih (by omega), hdrop, elemStarts_zero,
        elemStarts, List.take_append,
        length_span, hfirst, List.map_fst_zip (by simp)]

lemma zipMemcpy_dests (dev : Dev) (targetKey : UInt32) (targetAddr : UInt64) {src : List UInt8}
    (hlt : src.length < 2 ^ 64) : (zipMemcpy dev targetKey targetAddr src).2.map Prod.fst =
      memcpyDests dev targetKey targetAddr src.length := by
  simp only [zipMemcpy, memcpyDests]
  split
  next hempty =>
    rw [List.isEmpty_iff.mp hempty]
    cases dev.mrLook targetKey with
    | none => rfl
    | some => rfl
  next =>
    cases dev.mrLook targetKey with
    | none => rfl
    | some => exact zipMemcpyLoop_dests hlt

lemma shadowSync_dests (dev : Dev) (mem : UInt64 → UInt8) (shadow : Shadow) (desc : RemoteBufDesc) :
    (shadowSync dev mem shadow).2.map Prod.fst = (RcvSge.shadow shadow desc).dests dev := by
  have hlen : (shadow.expBuf.content mem).length = shadow.expBuf.size.toNat := by
    rw [ExportBuf.content, List.length_map, length_span]
  simp only [shadowSync, RcvSge.dests]
  cases shadow.target with
  | dma =>
    dsimp only
    rw [List.map_fst_zip (by rw [length_span]), hlen]
  | mr =>
    dsimp only
    rw [zipMemcpy_dests _ _ _ (hlen ▸ shadow.expBuf.size.toNat_lt), hlen]

variable {dev : Dev}

lemma shadowSync_congr {mem mem' : UInt64 → UInt8} {shadow : Shadow}
    (h : ∀ a ∈ span shadow.expBuf.dmaAddr shadow.expBuf.size.toNat, mem a = mem' a) :
    shadowSync dev mem shadow = shadowSync dev mem' shadow := by
  have hsrc : shadow.expBuf.content mem = shadow.expBuf.content mem' := List.map_congr_left h
  simp only [shadowSync, hsrc]

section
variable {dev : Dev} {l : List RcvSge}

variable {a : UInt64}

lemma recvSglSync_outside (h : a ∉ l.flatMap (RcvSge.dests dev)) (rc : Except Errno Unit)
    (mem : UInt64 → UInt8) : (recvSglSync dev l rc mem).2 a = mem a := by
  induction l generalizing rc mem with
  | nil => rfl
  | cons sge _ ih =>
    rw [List.flatMap_cons, List.mem_append, not_or] at h
    cases sge with
    | direct => exact ih h.2 rc mem
    | shadow =>
      rw [← shadowSync_dests dev mem] at h
      rw [recvSglSync, ih h.2, applyStores_outside h.1]

lemma recvSglSync_congr {mem mem' : UInt64 → UInt8} (hfresh : a ∉ l.flatMap RcvSge.shadowBytes)
    (hagree : ∀ b, b ≠ a → mem b = mem' b) (h : mem a = mem' a ∨ a ∈ l.flatMap (RcvSge.dests dev))
    (rc rc' : Except Errno Unit) :
    (recvSglSync dev l rc mem).2 a = (recvSglSync dev l rc' mem').2 a := by
  induction l generalizing rc rc' mem mem' with
  | nil => exact h.resolve_right List.not_mem_nil
  | cons sge _ ih =>
    rw [List.flatMap_cons, List.mem_append, not_or] at hfresh
    rw [List.flatMap_cons, List.mem_append] at h
    cases sge with
    | direct => exact ih hfresh.2 hagree (h.imp_right fun h => h.resolve_left List.not_mem_nil) _ _
    | shadow shadow =>
      have hsame : shadowSync dev mem shadow = shadowSync dev mem' shadow :=
        shadowSync_congr fun b hb => hagree b fun heq => hfresh.1 (heq ▸ hb)
      simp only [recvSglSync, ← hsame]
      refine ih hfresh.2 (fun b hb => applyStores_congr (.inl (hagree b hb))) ?_ _ _
      rw [← shadowSync_dests dev mem] at h
      rcases h with h | h | h
      · exact .inl (applyStores_congr (.inl h))
      · exact .inl (applyStores_congr (.inr h))
      · exact .inr h

end

/-! ## Posting -/

/-- The bytes that the memory of a posted entry is written back to as a whole, when it has a
shadow. -/
def copiedBack (dev : Dev) (sge : IbSge) : List UInt64 :=
  if rcvDirect dev sge then []
  else if ibSgeReserved sge then span sge.addr sge.length.toNat
  else memcpyDests dev sge.lkey sge.addr sge.length.toNat

def RcvSge.bufLocs (dev : Dev) : RcvSge → List (Option UInt64)
  | .direct sge => sndSgeLocs dev sge
  | .shadow sh _ => (span sh.expBuf.dmaAddr sh.expBuf.size.toNat).map some

structure PostedSge (dev : Dev) (sge : IbSge) (rcvSge : RcvSge) : Prop where
  dests : rcvSge.dests dev = copiedBack dev sge
  length : (rcvSge.bufLocs dev).length = (sndSgeLocs dev sge).length
  locs : rcvSge.bufLocs dev = sndSgeLocs dev sge ∨ rcvSge.bufLocs dev = rcvSge.shadowBytes.map some

lemma ibRecvToSge_ok {alloc : ShadowAlloc} {sge : IbSge} {rcvSge : RcvSge}
    (h : ibRecvToSge dev alloc sge = .ok rcvSge) : PostedSge dev sge rcvSge := by
  simp only [ibRecvToSge] at h
  split at h
  next hdirect =>
    cases h
    exact ⟨by rw [copiedBack, if_pos hdirect]; rfl, rfl, .inl rfl⟩
  next hdirect =>
    cases alloc with
    | noShadow => cases h
    | noBuf => cases h
    | ok =>
      cases h
      refine ⟨?_, ?_, .inr rfl⟩
      · rw [copiedBack, if_neg hdirect]
        cases hres : ibSgeReserved sge with
        | true => simp [RcvSge.dests, rcvShadow, hres]
        | false => simp [RcvSge.dests, rcvShadow, hres]
      · simp [RcvSge.bufLocs, rcvShadow]

variable {alloc : Nat → ShadowAlloc} {rcvSgList : List RcvSge}

lemma ibRecvToSgl_ok {l : List IbSge} (h : ibRecvToSgl dev alloc l = .ok rcvSgList) :
    List.Forall₂ (PostedSge dev) l rcvSgList := by
  induction l generalizing alloc rcvSgList with
  | nil =>
    cases h
    exact .nil
  | cons _ _ ih =>
    simp only [ibRecvToSgl] at h
    split at h
    · cases h
    next rcvSge hone =>
      split at h
      · cases h
      next rest hrest =>
        cases h
        exact .cons (ibRecvToSge_ok hone) (ih hrest)

lemma ibRecvToWqe_ok {sgCap : UInt32} {wqe wqe' : RecvWqe} {wr : RecvWr}
    (h : ibRecvToWqe dev sgCap alloc wqe wr = (.ok (), wqe')) :
    List.Forall₂ (PostedSge dev) wr.sgList wqe'.rcvSgList := by
  simp only [ibRecvToWqe] at h
  split at h
  · cases h
  · split at h
    · cases h
    next rcvSgList hsgl =>
      cases h
      exact ibRecvToSgl_ok hsgl

section
variable {dev : Dev} {l : List IbSge} {rcvSgList : List RcvSge}

lemma posted_dests (h : List.Forall₂ (PostedSge dev) l rcvSgList) :
    rcvSgList.flatMap (RcvSge.dests dev) = l.flatMap (copiedBack dev) := by
  induction h with
  | nil => rfl
  | cons hone _ ih => rw [List.flatMap_cons, List.flatMap_cons, hone.dests, ih]

lemma posted_locs {i : Nat} {a : UInt64} (h : List.Forall₂ (PostedSge dev) l rcvSgList)
    (ha : (rcvSgList.flatMap (RcvSge.bufLocs dev))[i]? = some (some a)) :
    (sndLocs dev l)[i]? = some (some a) ∨ a ∈ rcvSgList.flatMap RcvSge.shadowBytes := by
  induction h generalizing i with
  | nil => cases ha
  | @cons _ _ _ _ hone _ ih =>
    rw [List.flatMap_cons, List.getElem?_append] at ha
    rw [sndLocs_cons, List.getElem?_append, List.flatMap_cons, List.mem_append, ← hone.length]
    split at ha
    next hlt =>
      rcases hone.locs with hlocs | hlocs
      · rw [hlocs] at ha
        exact .inl (by rw [if_pos hlt, ha])
      · rw [hlocs] at ha
        have hmem := List.mem_of_getElem? ha
        exact .inr (.inl (by simpa using hmem))
    next hge =>
      rw [if_neg hge]
      exact (ih ha).imp_right .inr

end

/-! ## A whole receive -/

/-- Where the peer finds a byte of a receive list, its writes arrive at the place that this host
takes the byte from. -/
def Linked (peer dev : Dev) (route : UInt64 → UInt64) (rcvSgList : List RcvSge) : Prop :=
  ∀ (i : Nat) (a : UInt64), (rcvLocs peer rcvSgList)[i]? = some (some a) →
    (rcvSgList.flatMap (RcvSge.bufLocs dev))[i]? = some (some (route a))

def arrived (route : UInt64 → UInt64) (peerMem mem : UInt64 → UInt8) (reqs : List DmaReq) :
    UInt64 → UInt8 :=
  applyStores mem ((reqs.flatMap (DmaReq.stores peerMem)).map (Prod.map route id))

/-- A byte of the receive buffers behind the first `n` bytes of the list, and none of them. -/
def Behind (dev : Dev) (sgList : List IbSge) (n : Nat) (a : UInt64) : Prop :=
  some a ∈ (sndLocs dev sgList).drop n ∧ some a ∉ (sndLocs dev sgList).take n

section
variable {peer dev : Dev} {route : UInt64 → UInt64}
    {peerMem mem : UInt64 → UInt8} {chan chan' : Chan}
  {sgList : List IbSge} {rcvSgList : List RcvSge} {sndSgList : List IbSge} {rdmaLen : UInt32}
  {reqs : List DmaReq} {a : UInt64}

lemma arrived_behind (hposted : List.Forall₂ (PostedSge dev) sgList rcvSgList)
    (hzip : ZipDone peer chan chan' rcvSgList sndSgList 0 rdmaLen)
    (hlog : chan'.log = chan.log ++ reqs) (hlinked : Linked peer dev route rcvSgList)
    (hfresh : a ∉ rcvSgList.flatMap RcvSge.shadowBytes)
    (ha : some a ∉ (sndLocs dev sgList).take rdmaLen.toNat) :
    arrived route peerMem mem reqs a = mem a := by
  obtain ⟨hlen, reqs', hlog', hwithin, hcount, hmoves⟩ := hzip
  obtain rfl : reqs' = reqs := List.append_cancel_left (hlog'.symm.trans hlog)
  refine applyStores_outside fun hmem => ?_
  rw [stores_mem fun req hreq => ?_, List.map_map, List.map_map, List.mem_map] at hmem
  · obtain ⟨⟨s, r⟩, hmove, rfl⟩ := hmem
    obtain ⟨i, hi⟩ := List.mem_iff_getElem?.mp hmove
    have hlt : i < rdmaLen.toNat := by
      rw [hlen, ← hcount]
      exact (List.getElem?_eq_some_iff.mp hi).1
    have hloc := (hmoves i s r hi).2
    rw [UInt32.toNat_zero, Nat.zero_add] at hloc
    rcases posted_locs hposted (hlinked i r hloc) with happ | hshadow
    · refine ha (List.mem_of_getElem? (i := i) ?_)
      rw [List.getElem?_take_of_lt hlt]
      exact happ
    · exact hfresh hshadow
  · obtain ⟨-, ⟨sge, -, b, off, -, hsrc, -⟩, -⟩ := hwithin req hreq
    exact ⟨_, hsrc⟩

end

lemma sendWorkPush_send {chan chan' : Chan} {rqp : Rqp} {wqe wqe' : SendWqe} {recvWqe : RecvWqe}
    (hop : wqe.opCode = wrSend ∨ wqe.opCode = wrSendInv ∨ wqe.opCode = wrSendWithImm)
    (h : sendWorkPush dev chan rqp wqe (some recvWqe) = (.ok (), wqe', chan')) :
    ZipDone dev chan chan' recvWqe.rcvSgList wqe.sndSgList 0 (sendRecvLen wqe') := by
  have hpush : wrCodePushData wqe.opCode = true ∧ wrCodeIsRdma wqe.opCode = false := by
    rcases hop with hop | hop | hop <;> rw [hop] <;> decide
  simp only [sendWorkPush, hpush, Bool.not_true, Bool.false_eq_true, if_false, Option.map_some,
    Option.getD_some] at h
  split at h
  · split at h
    · cases h
    next hzip =>
      cases h
      rw [sendRecvLen, if_pos hop]
      exact zipRdma_done hzip
  · cases h

/-- The bytes behind those that were sent are kept exactly if no shadow is copied back to them. -/
theorem recvDone_frame_iff {peer dev : Dev} {route : UInt64 → UInt64} {sgCap : UInt32}
    {alloc : Nat → ShadowAlloc} {wqe recvWqe : RecvWqe} {wr : RecvWr} {chan chan' : Chan}
    {rqp : Rqp} {sendWqe sendWqe' : SendWqe} {reqs : List DmaReq} (peerMem : UInt64 → UInt8)
    (cqe : Cqe) (hpost : ibRecvToWqe dev sgCap alloc wqe wr = (.ok (), recvWqe))
    (hop : sendWqe.opCode = wrSend ∨ sendWqe.opCode = wrSendInv ∨ sendWqe.opCode = wrSendWithImm)
    (hsend : sendWorkPush peer chan rqp sendWqe (some recvWqe) = (.ok (), sendWqe', chan'))
    (hlog : chan'.log = chan.log ++ reqs) (hlinked : Linked peer dev route recvWqe.rcvSgList)
    (hfresh : ∀ a ∈ recvWqe.rcvSgList.flatMap RcvSge.shadowBytes, some a ∉ sndLocs dev wr.sgList) :
    (∀ mem a, Behind dev wr.sgList (sendRecvLen sendWqe').toNat a →
        (recvDone dev (arrived route peerMem mem reqs) cqe recvWqe sendWqe').mem a = mem a) ↔
      ∀ a ∈ wr.sgList.flatMap (copiedBack dev),
        ¬ Behind dev wr.sgList (sendRecvLen sendWqe').toNat a := by
  have hposted := ibRecvToWqe_ok hpost
  have hzip := sendWorkPush_send hop hsend
  have hfresh' : ∀ a, Behind dev wr.sgList (sendRecvLen sendWqe').toNat a →
      a ∉ recvWqe.rcvSgList.flatMap RcvSge.shadowBytes :=
    fun a ha hmem => hfresh a hmem (List.mem_of_mem_drop ha.1)
  rw [← posted_dests hposted]
  constructor
  · intro hframe a hdest ha
    -- the value that is stored does not depend on the byte, so some byte is not kept
    let after (mem : UInt64 → UInt8) : UInt8 :=
      (recvDone dev (arrived route peerMem mem reqs) cqe recvWqe sendWqe').mem a
    let mem : UInt64 → UInt8 := fun _ => 0
    have hsame : after (Function.update mem a (after mem + 1)) = after mem := by
      refine recvSglSync_congr (hfresh' a ha)
        (fun b hb => applyStores_congr (.inl ?_)) (.inr hdest) _ _
      exact Function.update_of_ne hb _ _
    have hkept := hframe (Function.update mem a (after mem + 1)) a ha
    rw [Function.update_self] at hkept
    have hne : after mem = after mem + 1 := hsame.symm.trans hkept
    simp at hne
  · intro hcond mem a ha
    have hdone := recvSglSync_outside (fun hdest => hcond a hdest ha) (.ok ())
      (arrived route peerMem mem reqs)
    exact hdone.trans (arrived_behind hposted hzip hlog hlinked (hfresh' a ha) ha.2)

/-! ## A short send -/

lemma Linked.of_map {peer dev : Dev} {route : UInt64 → UInt64}
    (h : (rcvLocs peer rcvSgList).map (Option.map route) = rcvSgList.flatMap (RcvSge.bufLocs dev)) :
    Linked peer dev route rcvSgList := by
  intro i a ha
  rw [← h, List.getElem?_map, ha]
  rfl

def twoMrDev : Dev where
  ntc := ⟨fun _ => ⟨0, 0, 0, 0⟩, fun _ _ => none⟩
  mrLook key :=
    if key = 1 then some ⟨0x1000, 0, [⟨8, 0xA000⟩], onePageMr.fits⟩
    else if key = 2 then some ⟨0x2000, accessRemoteWrite, [⟨8, 0xB000⟩], by decide⟩
    else none
  rmrLook _ := none

def twoMrPeer : Dev where
  ntc := ⟨fun _ => ⟨0x1000, 0x100, 0, 0x100⟩, fun addr _ => some addr⟩
  mrLook key := if key = 1 then some ⟨0x10, 0, [⟨4, 0xA0⟩], by decide⟩ else none
  rmrLook key := if key = 2 then some ⟨0x2000, [⟨8, 0x3000⟩], by decide⟩ else none

def twoMrRoute (a : UInt64) : UInt64 := if a < 0x2000 then a - 0x1008 +
    0x5000 else a - 0x3000 + 0xB000

def twoMrWr : RecvWr := ⟨7, [⟨0x1000, 2, 1⟩, ⟨0x2000, 4, 2⟩]⟩

def twoMrRecv : RecvWqe :=
    ⟨7, wrRecv, 0, [.shadow ⟨.mr 1 0x1000, ⟨2, 0x5000⟩⟩ ⟨8, 2⟩, .direct ⟨0x2000, 4, 2⟩]⟩

def shortSend (n : UInt32) : SendWqe := ⟨0, wrSend, 0, 0,
    ⟨0, 0, 0⟩, 0, 0, 1, IbSge.encode ⟨0x10, n, 1⟩⟩

def sentShort (n : UInt32) : SendWqe := { shortSend n with rdmaSge := ⟨0, n, 0⟩ }

def twoSgeRqp : Rqp := { Rqp.fresh 4 with recvWqeSgCap := 2 }

def shortReq (n : UInt64) : DmaReq := ⟨0x1008, .mem 0xA0, n, false⟩

lemma twoMr_posted :
    ibRecvToWqe twoMrDev 2 (fun _ => .ok 0x5000 8) ⟨0, 0, 0, []⟩ twoMrWr =
      (.ok (), twoMrRecv) := by decide

lemma twoMr_linked : Linked twoMrPeer twoMrDev twoMrRoute twoMrRecv.rcvSgList := .of_map (by decide)

lemma twoMr_fresh : ∀ a ∈ twoMrRecv.rcvSgList.flatMap RcvSge.shadowBytes,
    some a ∉ sndLocs twoMrDev twoMrWr.sgList := by
  intro a ha
  have hmem : a = 0x5000 ∨ a = 0x5001 := by
    rw [show twoMrRecv.rcvSgList.flatMap RcvSge.shadowBytes = [0x5000, 0x5001] by decide] at ha
    simpa using ha
  rcases hmem with rfl | rfl <;> decide

/-- One byte is sent into the first entry, and its second byte is overwritten from the shadow
buffer. -/
theorem recvDone_overwrites : ∃ chan',
    ibRecvToWqe twoMrDev 2 (fun _ => .ok 0x5000 8) ⟨0, 0, 0, []⟩ twoMrWr = (.ok (), twoMrRecv) ∧
      sendWorkPush twoMrPeer freshChan twoSgeRqp (shortSend 1) (some twoMrRecv) =
        (.ok (), sentShort 1, chan') ∧
      chan'.log = freshChan.log ++ [shortReq 1] ∧
      Linked twoMrPeer twoMrDev twoMrRoute twoMrRecv.rcvSgList ∧
      (∀ a ∈ twoMrRecv.rcvSgList.flatMap RcvSge.shadowBytes,
        some a ∉ sndLocs twoMrDev twoMrWr.sgList) ∧
      Behind twoMrDev twoMrWr.sgList (sendRecvLen (sentShort 1)).toNat 0xA001 ∧
      (recvDone twoMrDev (arrived twoMrRoute (fun _ => 0x11)
        (fun a => if a = 0x5001 then 0xEE else 0)
        [shortReq 1]) ⟨0, 0, 0, 0, 0, 0⟩ twoMrRecv (sentShort 1)).mem 0xA001 = 0xEE :=
  ⟨_, twoMr_posted, rfl, rfl, twoMr_linked, twoMr_fresh, ⟨by decide, by decide⟩, by decide⟩

theorem recvDone_frame_iff_full : Behind twoMrDev twoMrWr.sgList 2 0xB000 ∧
    ∀ mem a, Behind twoMrDev twoMrWr.sgList 2 a →
      (recvDone twoMrDev (arrived twoMrRoute (fun _ => 0x11) mem [shortReq 2])
        ⟨0, 0, 0, 0, 0, 0⟩ twoMrRecv
        (sentShort 2)).mem a = mem a := by
  refine ⟨⟨by decide, by decide⟩, ?_⟩
  have hsend : sendWorkPush twoMrPeer freshChan twoSgeRqp (shortSend 2) (some twoMrRecv) =
      (.ok (), sentShort 2,
        (sendWorkPush twoMrPeer freshChan twoSgeRqp (shortSend 2) (some twoMrRecv)).2.2) :=
    rfl
  have hiff := recvDone_frame_iff (fun _ => 0x11) ⟨0, 0, 0, 0, 0, 0⟩ twoMr_posted (.inl rfl) hsend
    (show _ = _ ++ [shortReq 2] from rfl) twoMr_linked twoMr_fresh
  refine hiff.mpr fun a ha hbehind => ?_
  have hmem : a = 0xA000 ∨ a = 0xA001 := by
    rw [show twoMrWr.sgList.flatMap (copiedBack twoMrDev) = [0xA000, 0xA001] by decide] at ha
    simpa using ha
  rcases hmem with rfl | rfl <;> exact absurd hbehind.2 (by decide)

end Ntrdma
