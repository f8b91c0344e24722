import Mathlib.Tactic

/-!
# DMA requests and remote buffers

Model of the part of `ntc.h` the data path stands on: buffers, the translation of a descriptor
received from the peer into a remote buffer (`ntc_peer_addr`, `ntc_remote_buf_map`), the bounds
check `ntc_segment_valid`, and the requests that are appended to a DMA channel (`ntc_req_memcpy`,
`ntc_req_imm`).

A channel records the requests it accepted, in order. Whether the DMA engine takes a request is
outside the driver, so a channel carries the outcome of every request it will be given. Mapping a
PCIe address for the DMA engine (`dma_map_resource`) belongs to the kernel and is a parameter of
`NtcDev`. Debug output, performance counters and the retry counters of `ntc_req_memcpy` are left
out.

C → Lean naming, in all modules (drop the `ntrdma_` prefix): `ntrdma_zip_rdma` → `zipRdma`, `struct
ntrdma_snd_cursor` → `SndCursor`, `MAX_VEC_CAP` → `maxVecCap`, `ntc_req_memcpy` → `ntcReqMemcpy`,
and so on. A definition with such a name is that function, type or constant of the source, with or
without a docstring.
-/

namespace Ntrdma

/-- The error numbers the modelled functions return (negated in the source). -/
inductive Errno where
  | eagain
  | einval
  | enomem
  | eio
  | efault
  | etoomanyrefs
  deriving DecidableEq, Repr

def Errno.status : Errno → UInt32
  | eagain => -11
  | einval => -22
  | enomem => -12
  | eio => -5
  | efault => -14
  | etoomanyrefs => -109

lemma Errno.status_ne_zero (e : Errno) : e.status ≠ 0 := by cases e <;> decide

structure MrBuf where
  size : UInt64
  dmaAddr : UInt64
  deriving DecidableEq, Repr

structure RemoteBuf where
  size : UInt64
  dmaAddr : UInt64
  deriving DecidableEq, Repr

structure LocalBuf where
  size : UInt64
  dmaAddr : UInt64
  deriving DecidableEq, Repr

/-- What the peer is told of a buffer. -/
structure RemoteBufDesc where
  chanAddr : UInt64
  size : UInt64
  deriving DecidableEq, Repr

/-- The bit fields of `union ntc_chan_addr`. -/
def chanAddrOffset (value : UInt64) : UInt64 := value &&& 0x1FFFFFFFFFFFFFFF

def chanAddrIsFlat (value : UInt64) : Bool := (value >>> 61) &&& 1 == 1

instance instNeZeroMws : NeZero 2 := ⟨two_ne_zero⟩

def chanAddrMwIdx (value : UInt64) : Fin 2 := if (value >>> 62) &&& 1 == 1 then 1 else 0

structure PeerMw where
  base : UInt64
  size : UInt64
  deadZoneSize : UInt64
  transLen : UInt64

structure NtcDev where
  peerMws : Fin 2 → PeerMw
  dmaMapResource : UInt64 → UInt64 → Option UInt64

/-- C `ntc_peer_addr`: a peer address, or `0`. -/
def ntcPeerAddr (ntc : NtcDev) (chanAddr : UInt64) : UInt64 :=
  let mw := ntc.peerMws (chanAddrMwIdx chanAddr)
  let offset := chanAddrOffset chanAddr
  if chanAddrIsFlat chanAddr then
    if mw.transLen ≤ offset then 0 else mw.base + offset
  else
    let offset := offset + mw.deadZoneSize
    if mw.size ≤ offset then 0
    else if mw.transLen ≤ offset then 0
    else mw.base + offset

/-- Map a remote buffer (C `ntc_remote_buf_map`). A descriptor without an address maps to an empty
buffer. -/
def ntcRemoteBufMap (ntc : NtcDev) (desc : RemoteBufDesc) : Except Errno RemoteBuf :=
  if desc.chanAddr = 0 then .ok ⟨0, 0⟩
  else
    let ptr := ntcPeerAddr ntc desc.chanAddr
    if ptr = 0 then .error .eio
    else
      match ntc.dmaMapResource ptr desc.size with
      | none => .error .eio
      | some dmaAddr => .ok ⟨desc.size, dmaAddr⟩

def ntcSegmentValid (bufSize bufOffset len : UInt64) : Bool :=
  if bufSize ≤ bufOffset then false
  else if bufSize < len then false
  else if bufSize < bufOffset + len then false
  else true

/-- The bytes of a request: local memory, read when it is carried out, or a copy taken when it was
made (C `ntc_req_imm`). -/
inductive DmaSrc where
  | mem (addr : UInt64)
  | imm (data : List UInt8)
  deriving DecidableEq, Repr

structure DmaReq where
  dst : UInt64
  src : DmaSrc
  len : UInt64
  fence : Bool

/-- What the engine does with a request. A `blocked` one is refused when the caller does not want to
wait. -/
inductive DmaOutcome where
  | accept
  | blocked
  | noMem
  | ioErr
  deriving DecidableEq, Repr

/-- Whether a request may wait for room in the DMA ring (C `enum ntc_dma_memcpy_mode`). -/
inductive DmaWait where
  | dontWait
  | wait
  deriving DecidableEq, Repr

/-- A DMA channel: the outcome of each request, the number of requests made, and those accepted. -/
structure Chan where
  outcome : Nat → DmaOutcome
  made : Nat
  log : List DmaReq

def Chan.Accepts (chan : Chan) : Prop := ∀ n, chan.outcome n = .accept

def Chan.take (chan : Chan) (req : DmaReq) : Chan :=
  { chan with made := chan.made + 1, log := chan.log ++ [req] }

def Chan.refuse (chan : Chan) : Chan := { chan with made := chan.made + 1 }

def ntcReqMemcpy (chan : Chan) (req : DmaReq) (dmaWait : DmaWait) : Except Errno Unit × Chan :=
  if req.len = 0 then (.error .einval, chan)
  else
    match chan.outcome chan.made, dmaWait with
    | .accept, _ => (.ok (), chan.take req)
    | .blocked, .dontWait => (.error .eagain, chan.refuse)
    | .blocked, .wait => (.ok (), chan.take req)
    | .noMem, _ => (.error .enomem, chan.refuse)
    | .ioErr, _ => (.error .eio, chan.refuse)

/-- C `ntc_request_memcpy`; `ntc_mr_request_memcpy_unfenced` has the same body with `fence` false
and a memory region element as its source. -/
def ntcRequestMemcpy (chan : Chan) (dst : RemoteBuf) (dstOffset : UInt64) (srcSize srcAddr : UInt64)
    (srcOffset len : UInt64) (fence : Bool) (dmaWait : DmaWait) : Except Errno Unit × Chan :=
  if ntcSegmentValid srcSize srcOffset len = false then (.error .einval, chan)
  else if ntcSegmentValid dst.size dstOffset len = false then (.error .einval, chan)
  else
    ntcReqMemcpy chan
      { dst := dst.dmaAddr + dstOffset, src := .mem (srcAddr + srcOffset), len, fence } dmaWait

/-- C `sizeof(imm->data_buf)`. -/
def immDataBufSize : Nat := 8

def ntcReqImm (chan : Chan) (dst : UInt64) (data : List UInt8) (fence : Bool) :
    Except Errno Unit × Chan :=
  if data.length = 0 ∨ immDataBufSize < data.length then (.error .einval, chan)
  else
    ntcReqMemcpy chan { dst, src := .imm data, len := .ofNat data.length, fence } .wait

def ntcMrRequestMemcpyUnfencedImm (chan : Chan) (dst : RemoteBuf) (dstOffset : UInt64)
    (data : List UInt8) : Except Errno Unit × Chan :=
  if ntcSegmentValid dst.size dstOffset (.ofNat data.length) = false then (.error .einval, chan)
  else ntcReqImm chan (dst.dmaAddr + dstOffset) data false

lemma ntcSegmentValid_of_le {bufSize bufOffset len : UInt64} (hlen : 0 < len.toNat)
    (h : bufOffset.toNat + len.toNat ≤ bufSize.toNat) :
    ntcSegmentValid bufSize bufOffset len = true := by
  have hb := bufSize.toNat_lt
  simp only [ntcSegmentValid, UInt64.le_iff_toNat_le, UInt64.lt_iff_toNat_lt, UInt64.toNat_add]
  rw [Nat.mod_eq_of_lt (by omega), if_neg (by omega), if_neg (by omega), if_neg (by omega)]

lemma ntcRemoteBufMap_size {ntc : NtcDev} {desc : RemoteBufDesc} {buf : RemoteBuf}
    (h : ntcRemoteBufMap ntc desc = .ok buf) : buf.size = desc.size ∨ buf.size = 0 := by
  simp only [ntcRemoteBufMap] at h
  split at h
  · cases h
    exact .inr rfl
  · split at h
    · cases h
    · split at h
      · cases h
      · cases h
        exact .inl rfl

lemma ntcReqMemcpy_cases (chan : Chan) {req : DmaReq} (dmaWait : DmaWait) (hlen : req.len ≠ 0) :
    ntcReqMemcpy chan req dmaWait = (.ok (), chan.take req) ∨
      (¬ chan.Accepts ∧ ∃ e, ntcReqMemcpy chan req dmaWait = (.error e, chan.refuse)) := by
  cases h : chan.outcome chan.made with
  | accept => exact .inl (by simp [ntcReqMemcpy, hlen, h])
  | blocked =>
    cases dmaWait with
    | wait => exact .inl (by simp [ntcReqMemcpy, hlen, h])
    | dontWait =>
      exact .inr ⟨fun ha => absurd ((ha _).symm.trans h) nofun,
        _, by simp [ntcReqMemcpy, hlen, h]; rfl⟩
  | noMem =>
    exact .inr ⟨fun ha => absurd ((ha _).symm.trans h) nofun,
      _, by simp [ntcReqMemcpy, hlen, h]; rfl⟩
  | ioErr =>
    exact .inr ⟨fun ha => absurd ((ha _).symm.trans h) nofun,
      _, by simp [ntcReqMemcpy, hlen, h]; rfl⟩

variable {dst : RemoteBuf}

lemma ntcRequestMemcpy_cases (chan : Chan) {dstOffset srcSize srcOffset len} (srcAddr : UInt64)
    (fence : Bool) (dmaWait : DmaWait) (hlen : 0 < len.toNat)
    (hsrc : srcOffset.toNat + len.toNat ≤ srcSize.toNat)
    (hdst : dstOffset.toNat + len.toNat ≤ dst.size.toNat) :
    ntcRequestMemcpy chan dst dstOffset srcSize srcAddr srcOffset len fence dmaWait =
        (.ok (), chan.take
          { dst := dst.dmaAddr + dstOffset, src := .mem (srcAddr + srcOffset), len, fence }) ∨
      (¬ chan.Accepts ∧ ∃ e, ntcRequestMemcpy chan dst dstOffset srcSize srcAddr srcOffset len fence
        dmaWait = (.error e, chan.refuse)) := by
  have hne : len ≠ 0 := by
    rintro rfl
    exact absurd hlen (Nat.lt_irrefl 0)
  simp only [ntcRequestMemcpy, ntcSegmentValid_of_le hlen hsrc, ntcSegmentValid_of_le hlen hdst]
  exact ntcReqMemcpy_cases chan dmaWait hne

variable {chan : Chan}

lemma ntcRequestMemcpy_empty {dstOffset srcSize srcAddr srcOffset len} {fence : Bool}
    {dmaWait : DmaWait} (h : dst.size = 0) :
    ntcRequestMemcpy chan dst dstOffset srcSize srcAddr srcOffset len fence dmaWait =
      (.error .einval, chan) := by
  have hinvalid : ntcSegmentValid dst.size dstOffset len = false := by
    simp [ntcSegmentValid, h]
  simp [ntcRequestMemcpy, hinvalid]

@[simp] lemma Chan.take_outcome (chan : Chan) (req : DmaReq) :
    (chan.take req).outcome = chan.outcome := rfl

@[simp] lemma Chan.take_log (chan : Chan) (req : DmaReq) :
    (chan.take req).log = chan.log ++ [req] := rfl

lemma Chan.Accepts.take (ha : chan.Accepts) (req : DmaReq) : (chan.take req).Accepts :=
  ha

@[simp] lemma Chan.refuse_log (chan : Chan) : chan.refuse.log = chan.log := rfl

def applyStores (remote : UInt64 → UInt8) (stores : List (UInt64 × UInt8)) : UInt64 → UInt8 :=
  stores.foldl (fun remote st => Function.update remote st.1 st.2) remote

section
variable {mem mem' : UInt64 → UInt8} {stores : List (UInt64 × UInt8)} {a : UInt64}

lemma applyStores_cons (st : UInt64 × UInt8) :
    applyStores mem (st :: stores) = applyStores (Function.update mem st.1 st.2) stores := rfl

lemma applyStores_outside (h : a ∉ stores.map Prod.fst) : applyStores mem stores a = mem a := by
  induction stores generalizing mem with
  | nil => rfl
  | cons _ _ ih =>
    rw [List.map_cons, List.mem_cons, not_or] at h
    rw [applyStores_cons, ih h.2, Function.update_of_ne h.1]

lemma applyStores_congr (h : mem a = mem' a ∨ a ∈ stores.map Prod.fst) :
    applyStores mem stores a = applyStores mem' stores a := by
  induction stores generalizing mem mem' with
  | nil => exact h.resolve_right List.not_mem_nil
  | cons st _ ih =>
    rw [applyStores_cons, applyStores_cons]
    apply ih
    by_cases heq : a = st.1
    · left
      rw [heq, Function.update_self, Function.update_self]
    · rw [Function.update_of_ne heq, Function.update_of_ne heq]
      rw [List.map_cons, List.mem_cons] at h
      exact h.imp_right fun h => h.resolve_left heq

end

end Ntrdma
