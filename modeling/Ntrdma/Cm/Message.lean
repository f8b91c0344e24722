import Ntrdma.Cmd.Basic
import Ntrdma.Lib.LittleEndian
import Ntrdma.Lib.Segment

/-!
# Messages of the connection manager

Model of what `ntrdma_cm.c` sends and how it is read: the requests that `ntrdma_connect`,
`ntrdma_accept` (through `ntrdma_cmd_send_rep`) and `ntrdma_reject` make, the command that
`ntrdma_iw_cm_gen_perp` prepares from them in a slot of the command ring, and the events that the
handlers of the peer report for it.

IPv6 addresses are copied by four bytes, each of them as if it was a word, and the peer does not
exchange the two addresses as it does for IPv4 (`addressesSurvive_iff`). The size of the private
data is checked by `ntrdma_connect` only, and the handlers take the size in the command as it is
(`slotKept_iff`).

The types of the kernel that are used: `sockaddr_in` and `sockaddr_in6` are two views of one memory,
`iw_cm_conn_param.private_data_len` has 16 bits and `iw_cm_event.private_data_len` has 8. The host
is a little-endian one.
-/

namespace Ntrdma
open Lib

/-! ## Addresses -/

def afInet : UInt32 := 2

def afInet6 : UInt32 := 10

def ntohl (x : UInt32) : UInt32 := UInt32.ofNat (leNat (leBytes 4 x.toNat).reverse)

inductive Family where
  | inet
  | inet6
  deriving DecidableEq, Repr

/-- A socket address (C `struct sockaddr_in`, `struct sockaddr_in6`) without flow information. -/
structure SockAddr where
  family : Family
  sinPort : UInt16
  sinAddr : UInt32
  sin6Addr : Vector UInt8 16
  deriving DecidableEq, Repr

def SockAddr.zero : SockAddr := ⟨.inet, 0, 0, .replicate 16 0⟩

def SockAddr.endpoint (a : SockAddr) : (UInt32 ⊕ Vector UInt8 16) × UInt16 :=
  (match a.family with
    | .inet => .inl a.sinAddr
    | .inet6 => .inr a.sin6Addr, a.sinPort)

/-- C `ntrdma_copy_ip_ntohl`. The source is a pointer to bytes, so four bytes are read. -/
def copyIpNtohl (src : Vector UInt8 16) : Vector UInt32 4 :=
  #v[ntohl src[0].toUInt32, ntohl src[1].toUInt32, ntohl src[2].toUInt32, ntohl src[3].toUInt32]

def copyIpHtonl (dst : Vector UInt8 16) (src : Vector UInt32 4) : Vector UInt8 16 :=
  (((dst.set 0 (ntohl src[0]).toUInt8).set 1 (ntohl src[1]).toUInt8).set 2
    (ntohl src[2]).toUInt8).set 3
    (ntohl src[3]).toUInt8

/-! ## Requests -/

def iwCmReq : UInt32 := 0
def iwCmRep : UInt32 := 1
def iwCmReject : UInt32 := 2

def negEnetunreach : UInt32 := -101

/-- A request for a command (C `struct ntrdma_iw_cm_req`); `priv` is the `priv_len` bytes at
`priv`. -/
structure IwCmReq where
  op : UInt32
  qpn : UInt32
  rqpn : UInt32
  remotePort : UInt32
  localPort : UInt32
  localAddr : Vector UInt32 4
  remoteAddr : Vector UInt32 4
  priv : List UInt8
  ird : UInt32
  status : UInt32
  sinFamily : UInt32

/-- The addresses of a connection (C `struct iw_cm_id`). -/
structure IwCmAddrs where
  localAddr : SockAddr
  remoteAddr : SockAddr

structure IwCmConnParam where
  privateData : List UInt8
  privateData_length : privateData.length < 2 ^ 16
  ird : UInt32
  qpn : UInt32

def sizeofIwCmCmd : Nat := 88

def privateDataMaxLen : Nat := cmdSize.toNat - sizeofIwCmCmd

def connectReq (id : IwCmAddrs) (param : IwCmConnParam) : IwCmReq where
  op := iwCmReq
  qpn := param.qpn
  rqpn := 0
  remotePort := id.remoteAddr.sinPort.toUInt32
  localPort := id.localAddr.sinPort.toUInt32
  localAddr :=
    if id.localAddr.family = .inet6 then copyIpNtohl id.localAddr.sin6Addr
    else #v[ntohl id.localAddr.sinAddr, 0, 0, 0]
  -- the family of the local address decides for both
  remoteAddr :=
    if id.localAddr.family = .inet6 then copyIpNtohl id.remoteAddr.sin6Addr
    else #v[ntohl id.remoteAddr.sinAddr, 0, 0, 0]
  priv := param.privateData
  ird := param.ird
  status := 0
  sinFamily := if id.localAddr.family = .inet6 then afInet6 else afInet

/-- The request of `ntrdma_cmd_send_rep`: addresses exchanged, without names and family. -/
def sendRepReq (localAddr remoteAddr : SockAddr) (qpn rqpn : UInt32) (priv : Option (List UInt8))
    (ird status : UInt32) : IwCmReq where
  op := iwCmRep
  qpn := qpn
  rqpn := rqpn
  remotePort := localAddr.sinPort.toUInt32
  localPort := remoteAddr.sinPort.toUInt32
  localAddr := .replicate 4 0
  remoteAddr := .replicate 4 0
  priv := priv.getD []
  ird := ird
  status := status
  sinFamily := 0

/-- The request of `ntrdma_reject`; `provider_data` is the number of the peer's queue pair. -/
def rejectReq (id : IwCmAddrs) (providerData : UInt32) (pdata : List UInt8) : IwCmReq where
  op := iwCmReject
  qpn := providerData
  rqpn := providerData
  remotePort := id.localAddr.sinPort.toUInt32
  localPort := id.remoteAddr.sinPort.toUInt32
  -- here the address that is called local is the remote one for IPv4 and the local one for IPv6
  localAddr :=
    if id.localAddr.family = .inet6 then copyIpNtohl id.localAddr.sin6Addr
    else #v[ntohl id.remoteAddr.sinAddr, 0, 0, 0]
  remoteAddr :=
    if id.localAddr.family = .inet6 then copyIpNtohl id.remoteAddr.sin6Addr
    else #v[ntohl id.localAddr.sinAddr, 0, 0, 0]
  priv := pdata
  ird := -1
  status := 0
  sinFamily := if id.localAddr.family = .inet6 then afInet6 else afInet

/-! ## Commands -/

structure IwCmCmd where
  cmOp : UInt32
  qpNum : UInt32
  rqpNum : UInt32
  remotePort : UInt32
  localPort : UInt32
  remoteAddr : Vector UInt32 4
  localAddr : Vector UInt32 4
  ird : UInt32
  privLen : UInt32
  status : UInt32
  sinFamily : UInt32

/-- The fields that `ntrdma_iw_cm_gen_perp` fills in. -/
def iwCmGenPerp (req : IwCmReq) : IwCmCmd where
  cmOp := req.op
  qpNum := req.qpn
  rqpNum := req.rqpn
  remotePort := req.remotePort
  localPort := req.localPort
  remoteAddr := req.remoteAddr
  localAddr := req.localAddr
  ird := req.ird
  privLen := UInt32.ofNat req.priv.length
  status := req.status
  sinFamily := req.sinFamily

def wordBytes (words : List UInt32) : List UInt8 := words.flatMap fun w => leBytes 4 w.toNat

/-- What `ntrdma_iw_cm_gen_perp` writes, as offsets into the slot and the bytes that go there. -/
def iwCmWrites (req : IwCmReq) : List (Nat × List UInt8) :=
  let cmd := iwCmGenPerp req
  [(0, wordBytes [cmdIwCm]),
    (16, wordBytes [cmd.cmOp, cmd.qpNum, cmd.rqpNum, cmd.remotePort, cmd.localPort]),
    (76, wordBytes [cmd.status]), (52, wordBytes cmd.localAddr.toList),
    (36, wordBytes cmd.remoteAddr.toList), (80, wordBytes [cmd.sinFamily]),
    (sizeofIwCmCmd, req.priv), (72, wordBytes [cmd.privLen]), (68, wordBytes [cmd.ird])]

/-- The stores of writes into the slot that begins at `slot`. -/
def storesAt (slot : UInt64) (writes : List (Nat × List UInt8)) : List (UInt64 × UInt8) :=
  writes.flatMap fun w => (span (slot + UInt64.ofNat w.1) w.2.length).zip w.2

/-! ## Events -/

inductive IwCmEventKind where
  | connectRequest
  | connectReply
  | established
  | disconnect
  | close
  deriving DecidableEq, Repr

/-- C `struct iw_cm_event`; `privateData` is the offset of the private data in the received slot. -/
structure IwCmEvent where
  event : IwCmEventKind
  status : UInt32
  localAddr : SockAddr
  remoteAddr : SockAddr
  privateData : Option Nat
  privateDataLen : UInt8
  providerData : UInt32
  ird : UInt8

/-- The event of `ntrdma_cm_handle_connect_req`. -/
def connectReqEvent (cmd : IwCmCmd) : IwCmEvent where
  event := .connectRequest
  status := 0
  localAddr :=
    if cmd.sinFamily = afInet6 then
      { SockAddr.zero with
        family := .inet6, sinPort := cmd.remotePort.toUInt16
        sin6Addr := copyIpHtonl (.replicate 16 0) cmd.localAddr }
    else
      { SockAddr.zero with
        family := .inet, sinPort := cmd.remotePort.toUInt16, sinAddr := ntohl cmd.remoteAddr[0] }
  remoteAddr :=
    if cmd.sinFamily = afInet6 then
      { SockAddr.zero with
        family := .inet6, sinPort := cmd.localPort.toUInt16
        sin6Addr := copyIpHtonl (.replicate 16 0) cmd.remoteAddr }
    else
      { SockAddr.zero with
        family := .inet, sinPort := cmd.localPort.toUInt16, sinAddr := ntohl cmd.localAddr[0] }
  privateData := if cmd.privLen = 0 then none else some sizeofIwCmCmd
  privateDataLen := cmd.privLen.toUInt8
  providerData := cmd.qpNum
  ird := cmd.ird.toUInt8

/-- The event of `ntrdma_fire_conn_rep`, for a connection with the mapped addresses `id`. -/
def connRepEvent (id : IwCmAddrs) (cmd : IwCmCmd) : IwCmEvent where
  event := .connectReply
  status := cmd.status
  localAddr := id.localAddr
  remoteAddr := id.remoteAddr
  privateData := if cmd.privLen = 0 then none else some sizeofIwCmCmd
  privateDataLen := if cmd.privLen = 0 then 0 else cmd.privLen.toUInt8
  providerData := 0
  ird := cmd.ird.toUInt8

def negEconnrefused : UInt32 := -111

/-- The event of `ntrdma_fire_reject`: with the size of the private data, but without the data. -/
def rejectEvent (cmd : IwCmCmd) : IwCmEvent where
  event := .connectReply
  status := negEconnrefused
  localAddr := .zero
  remoteAddr := .zero
  privateData := none
  privateDataLen := cmd.privLen.toUInt8
  providerData := 0
  ird := 0

/-- The event that the handler of a command reports (C `ntrdma_cmd_recv_cm`). -/
def recvCmEvent (id : IwCmAddrs) (cmd : IwCmCmd) : Option IwCmEvent :=
  if cmd.cmOp = iwCmReq then some (connectReqEvent cmd)
  else if cmd.cmOp = iwCmRep then
    if cmd.status = negEnetunreach then some (rejectEvent cmd) else some (connRepEvent id cmd)
  else if cmd.cmOp = iwCmReject then some (rejectEvent cmd)
  else none

/-! ## Addresses survive the trip -/

lemma ntohl_ntohl (x : UInt32) : ntohl (ntohl x) = x := by
  have hlen : (leBytes 4 x.toNat).reverse.length = 4 := by simp
  have hlt := leNat_lt (leBytes 4 x.toNat).reverse
  rw [hlen] at hlt
  have hback : leBytes 4 (leNat (leBytes 4 x.toNat).reverse) = (leBytes 4 x.toNat).reverse := by
    conv_lhs => rw [← hlen]
    exact leBytes_leNat _
  rw [ntohl, ntohl, UInt32.toNat_ofNat_of_lt' hlt, hback, List.reverse_reverse,
    leNat_leBytes 4 _ x.toNat_lt, UInt32.ofNat_toNat]

def firstFour (a : Vector UInt8 16) : Vector UInt8 16 :=
  Vector.ofFn fun i => if i.val < 4 then a[i] else 0

lemma copyIpHtonl_copyIpNtohl (a : Vector UInt8 16) :
    copyIpHtonl (.replicate 16 0) (copyIpNtohl a) = firstFour a := by
  ext i hi
  simp only [copyIpHtonl, copyIpNtohl, firstFour, Vector.getElem_set, Vector.getElem_ofFn]
  interval_cases i <;> simp [ntohl_ntohl]

/-- The peer reports the addresses of the connecting side, from its own point of view. -/
def AddressesSurvive (id : IwCmAddrs) (param : IwCmConnParam) : Prop :=
  let event := connectReqEvent (iwCmGenPerp (connectReq id param))
  event.remoteAddr.endpoint = id.localAddr.endpoint ∧
    event.localAddr.endpoint = id.remoteAddr.endpoint

lemma firstFour_firstFour (a : Vector UInt8 16) : firstFour (firstFour a) = firstFour a := by
  ext i hi
  simp only [firstFour, Vector.getElem_ofFn, Fin.getElem_fin]
  split <;> rfl

lemma firstFour_eq_iff (a : Vector UInt8 16) :
    firstFour a = a ↔ ∀ i : Fin 16, 4 ≤ i.val → a[i] = 0 := by
  constructor
  · intro h i hi
    rw [← h]
    simp [firstFour, Nat.not_lt.mpr hi]
  · intro h
    refine Vector.ext fun i hi => ?_
    simp only [firstFour, Vector.getElem_ofFn, Fin.getElem_fin]
    split
    · rfl
    · exact (h ⟨i, hi⟩ (by simpa using ‹¬ i < 4›)).symm

lemma firstFour_swap_iff (a b : Vector UInt8 16) :
    firstFour b = a ∧ firstFour a = b ↔ a = b ∧ ∀ i : Fin 16, 4 ≤ i.val → a[i] = 0 := by
  constructor
  · rintro ⟨hb, ha⟩
    have htwice : firstFour a = a := by
      rw [← hb, firstFour_firstFour]
    exact ⟨htwice.symm.trans ha, (firstFour_eq_iff a).mp htwice⟩
  · rintro ⟨rfl, hzero⟩
    exact ⟨(firstFour_eq_iff a).mpr hzero, (firstFour_eq_iff a).mpr hzero⟩

/-- The addresses arrive exactly for IPv4, and for two equal IPv6 addresses that end with their
fourth byte. -/
theorem addressesSurvive_iff (id : IwCmAddrs) (param : IwCmConnParam) :
    AddressesSurvive id param ↔
      id.localAddr.family = .inet ∧ id.remoteAddr.family = .inet ∨
        id.localAddr.family = .inet6 ∧ id.remoteAddr.family = .inet6 ∧
          id.localAddr.sin6Addr = id.remoteAddr.sin6Addr ∧
          ∀ i : Fin 16, 4 ≤ i.val → id.localAddr.sin6Addr[i] = 0 := by
  rw [← firstFour_swap_iff]
  cases hl : id.localAddr.family <;> cases hr : id.remoteAddr.family <;>
    simp [AddressesSurvive, connectReqEvent, iwCmGenPerp, connectReq, SockAddr.endpoint, hl, hr,
      ntohl_ntohl, copyIpHtonl_copyIpNtohl, afInet, afInet6]

def privateV6 (net host : UInt8) (port : UInt16) : SockAddr :=
  ⟨.inet6, port, 0, #v[0xfd, 0, 0, net, 0, 0, 0, 0, 0, 0, 0, 0, 0, 0, 0, host]⟩

/-- The two addresses are exchanged, and all but the first four bytes of both are lost. -/
theorem addresses_lost_inet6 :
    (connectReqEvent (iwCmGenPerp (connectReq ⟨privateV6 1 7 100, privateV6 2 8 200⟩
        ⟨[], by decide, 0, 0⟩))).remoteAddr = privateV6 2 0 100 ∧
      (connectReqEvent (iwCmGenPerp (connectReq ⟨privateV6 1 7 100, privateV6 2 8 200⟩
        ⟨[], by decide, 0, 0⟩))).localAddr = privateV6 1 0 200 ∧
      ¬ AddressesSurvive ⟨privateV6 1 7 100, privateV6 2 8 200⟩ ⟨[], by decide, 0, 0⟩ :=
  ⟨by decide, by decide, fun h => absurd h.1 (by decide)⟩

/-! ## Slots -/

def KeepsSlot (req : IwCmReq) : Prop :=
  ∀ (slot : UInt64) (mem : UInt64 → UInt8) (a : UInt64), a ∉ span slot cmdSize.toNat →
    applyStores mem (storesAt slot (iwCmWrites req)) a = mem a

/-- The calls that send a command, with what they are given. -/
inductive CmCall where
  | connect (id : IwCmAddrs) (param : IwCmConnParam)
  | accept (id : IwCmAddrs) (param : IwCmConnParam) (providerData : UInt32) (null : Bool)
  | reject (id : IwCmAddrs) (providerData : UInt32) (pdata : { l : List UInt8 // l.length < 2 ^ 8 })

def CmCall.request : CmCall → Except Errno IwCmReq
  | connect id param =>
    if param.privateData.length > privateDataMaxLen then .error .einval
      else .ok (connectReq id param)
  | accept id param providerData null =>
    .ok (sendRepReq id.localAddr id.remoteAddr param.qpn providerData
      (if null then none else some param.privateData) param.ird 0)
  | reject id providerData pdata => .ok (rejectReq id providerData pdata.val)

def CmCall.Fits : CmCall → Prop
  | connect _ _ => True
  | accept _ param _ null => null = true ∨ param.privateData.length ≤ 168
  | reject _ _ pdata => pdata.val.length ≤ 168

def IwCmEvent.DataInside (event : IwCmEvent) : Prop :=
  match event.privateData with
  | none => event.privateDataLen = 0
  | some offset => offset + event.privateDataLen.toNat ≤ cmdSize.toNat

/-- The size that the event keeps is one that the slot has room for; for a rejection, none. -/
def IwCmCmd.LenFits (cmd : IwCmCmd) : Prop :=
  if cmd.cmOp = iwCmReq ∨ cmd.cmOp = iwCmRep ∧ cmd.status ≠ negEnetunreach then
    cmd.privLen.toNat % 256 ≤ 168
  else if cmd.cmOp = iwCmRep ∨ cmd.cmOp = iwCmReject then cmd.privLen.toNat % 256 = 0
  else True

lemma iwCmWrites_inside {req : IwCmReq} {w : Nat × List UInt8} (h : w ∈ iwCmWrites req) :
    w.1 + w.2.length ≤ sizeofIwCmCmd ∨ w = (sizeofIwCmCmd, req.priv) := by
  simp only [iwCmWrites, List.mem_cons, List.not_mem_nil, or_false] at h
  rcases h with rfl | rfl | rfl | rfl | rfl | rfl | rfl | rfl | rfl <;>
    simp [wordBytes, sizeofIwCmCmd]

lemma mem_span {a b : UInt64} {n : Nat} : b ∈ span a n ↔ ∃ j < n, b = a + UInt64.ofNat j := by
  simp [span, eq_comm]

lemma mem_storesAt {slot a : UInt64} {writes : List (Nat × List UInt8)} :
    a ∈ (storesAt slot writes).map Prod.fst ↔
      ∃ w ∈ writes, ∃ j < w.2.length, a = slot + UInt64.ofNat w.1 + UInt64.ofNat j := by
  simp only [storesAt, List.map_flatMap, List.mem_flatMap]
  refine exists_congr fun w => and_congr_right fun _ => ?_
  rw [List.map_fst_zip (by simp), mem_span]

lemma keepsSlot_iff (req : IwCmReq) : KeepsSlot req ↔ req.priv.length ≤ 168 := by
  constructor
  · intro h
    by_contra hlong
    -- the first byte behind the slot is stored to, whatever it held
    have hstored : (256 : UInt64) ∈ (storesAt 0 (iwCmWrites req)).map Prod.fst :=
      mem_storesAt.mpr ⟨(sizeofIwCmCmd, req.priv), by simp [iwCmWrites],
        168, by simpa using hlong, rfl⟩
    have houtside : (256 : UInt64) ∉ span 0 cmdSize.toNat := by
      decide
    have hzero := h 0 (fun _ => 0) 256 houtside
    have hone := h 0 (fun _ => 1) 256 houtside
    rw [applyStores_congr (.inr hstored), hone] at hzero
    exact absurd hzero (by decide)
  · intro hlen slot mem a ha
    apply applyStores_outside
    intro hstored
    obtain ⟨w, hw, j, hj, rfl⟩ := mem_storesAt.mp hstored
    refine ha (mem_span.mpr ⟨w.1 + j, ?_, by rw [UInt64.ofNat_add, UInt64.add_assoc]⟩)
    have hsize : cmdSize.toNat = 256 := by decide
    obtain hinside | rfl := iwCmWrites_inside hw
    · simp only [sizeofIwCmCmd] at hinside
      omega
    · simp only [sizeofIwCmCmd] at hj ⊢
      omega

lemma CmCall.keepsSlot_iff_fits (call : CmCall) :
    (∀ req, call.request = .ok req → KeepsSlot req) ↔ call.Fits := by
  simp only [Ntrdma.keepsSlot_iff]
  cases call with
  | connect =>
    simp only [request, Fits, iff_true]
    intro req h
    split at h
    · cases h
    · next hmax =>
      cases h
      exact Nat.le_of_not_gt hmax
  | accept _ _ _ null => cases null <;> simp [request, Fits, sendRepReq]
  | reject => simp [request, Fits, rejectReq]

lemma IwCmEvent.dataInside_iff (event : IwCmEvent) {cmd : IwCmCmd}
    (hdata : event.privateData = if cmd.privLen = 0 then none else some sizeofIwCmCmd)
    (hlen : event.privateDataLen = cmd.privLen.toUInt8) :
    event.DataInside ↔ cmd.privLen.toNat % 256 ≤ 168 := by
  have hsize : cmdSize.toNat = 256 := by decide
  rw [DataInside, hdata, hlen]
  by_cases hzero : cmd.privLen = 0
  · simp [hzero]
  · simp only [if_neg hzero, UInt32.toNat_toUInt8, hsize, sizeofIwCmCmd]
    omega

lemma connRepEvent_privateDataLen (id : IwCmAddrs) (cmd : IwCmCmd) :
    (connRepEvent id cmd).privateDataLen = cmd.privLen.toUInt8 := by
  simp only [connRepEvent]
  split
  next hzero => rw [hzero]; rfl
  next => rfl

lemma rejectEvent_dataInside (cmd : IwCmCmd) :
    (rejectEvent cmd).DataInside ↔ cmd.privLen.toNat % 256 = 0 := by
  simp only [IwCmEvent.DataInside, rejectEvent]
  rw [← UInt8.toNat_inj, UInt32.toNat_toUInt8]
  rfl

lemma IwCmCmd.dataInside_iff_lenFits (id : IwCmAddrs) (cmd : IwCmCmd) :
    (∀ event, recvCmEvent id cmd = some event → event.DataInside) ↔ cmd.LenFits := by
  by_cases hreq : cmd.cmOp = iwCmReq
  · simpa [recvCmEvent, LenFits, eq_true hreq] using
      (connectReqEvent cmd).dataInside_iff rfl rfl
  · by_cases hrep : cmd.cmOp = iwCmRep
    · by_cases hstatus : cmd.status = negEnetunreach
      · simpa [recvCmEvent, LenFits, hreq, eq_true hrep, eq_true hstatus]
          using rejectEvent_dataInside cmd
      · simpa [recvCmEvent, LenFits, hreq, eq_true hrep, hstatus] using
          (connRepEvent id cmd).dataInside_iff rfl (connRepEvent_privateDataLen id cmd)
    · by_cases hrej : cmd.cmOp = iwCmReject
      · simpa [recvCmEvent, LenFits, hreq, hrep, eq_true hrej] using rejectEvent_dataInside cmd
      · simp [recvCmEvent, LenFits, hreq, hrep, hrej]

/-- A call keeps to its slot exactly where its private data fits behind the command, an event where
the low byte of the size does. -/
theorem slotKept_iff (call : CmCall) (id : IwCmAddrs) (cmd : IwCmCmd) :
    ((∀ req, call.request = .ok req → KeepsSlot req) ↔ call.Fits) ∧
      ((∀ event, recvCmEvent id cmd = some event → event.DataInside) ↔ cmd.LenFits) :=
  ⟨call.keepsSlot_iff_fits, cmd.dataInside_iff_lenFits id⟩

def longParam : IwCmConnParam := ⟨List.replicate 200 7, by rw [List.length_replicate]; omega, 0, 0⟩

/-- An accept with 200 bytes of private data stores byte 168 behind the slot. -/
theorem slot_left_accept :
    (∃ req, (CmCall.accept ⟨.zero, .zero⟩ longParam 0 false).request = .ok req ∧
        applyStores (fun _ => 0) (storesAt 0 (iwCmWrites req)) 256 = 7) ∧
      ∃ event, recvCmEvent ⟨.zero, .zero⟩ ⟨iwCmRep, 0, 0, 0, 0, .replicate 4 0,
        .replicate 4 0, 0, 200, 0,
        0⟩ = some event ∧ event.privateData = some 88 ∧ event.privateDataLen = 200 := by
  refine ⟨⟨_, rfl, ?_⟩, _, rfl, ?_⟩
  · decide +kernel
  · decide

end Ntrdma
