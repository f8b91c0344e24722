import Ntrdma.Qp.Write

/-!
# What an RDMA write carries

The poster decides by `ntrdma_send_wqe_is_inline` (operation code and flag) whether an entry holds
inline data or a list, and the executor `ntrdma_qp_rdma_write` decides by the flag alone. The two
agree, and the bytes written are those of the request, for all requests but a write with immediate
data that has the inline flag: its list is taken for inline data (`carries_iff`).
-/

namespace Ntrdma
open Lib

def DmaReq.payload (mem : UInt64 → UInt8) (req : DmaReq) : List UInt8 :=
  match req.src with
  | .mem a => (span a req.len.toNat).map mem
  | .imm data => data

/-- The bytes the entries of a request denote: user memory if they are to be inlined, and the memory
of their regions if not. -/
def wrBytes (dev : Dev) (umem : UInt64 → Option UInt8) (mem : UInt64 → UInt8) (wr : SendWr) :
    List (Option UInt8) :=
  if isInlineFlag wr.sendFlags then
    wr.sgList.flatMap fun sge => (span sge.addr sge.length.toNat).map umem
  else (sndLocs dev wr.sgList).map (Option.map mem)

/-- `ntrdma_post_send_locked` accepts the request and builds the entry. -/
def Builds (qp : Qp) (umem : UInt64 → Option UInt8) (wr : SendWr) (wqe : SendWqe) : Prop :=
  postSendCheck qp wr = true ∧ postSendBuild qp umem wr = (.ok (), wqe)

/-- Whenever the entry is executed with success, the bytes written are those of the request, and
their number is recorded. -/
def Carries (qp : Qp) (wr : SendWr) : Prop :=
  ∀ umem wqe, Builds qp umem wr wqe → ∀ dev chan mem recvKey wqe' chan',
    qpRdmaWrite dev chan { wqe with recvKey } = (.ok (), wqe', chan') →
      ∃ reqs, chan'.log = chan.log ++ reqs ∧
        (reqs.flatMap (DmaReq.payload mem)).map some = wrBytes dev umem mem wr ∧
        wqe'.rdmaSge.length.toNat = (wrBytes dev umem mem wr).length

/-! ## The entry that is built -/

lemma mapM_eq_some {α β : Type} {f : α → Option β} {l : List α} {bs : List β}
    (h : l.mapM f = some bs) : l.map f = bs.map some := by
  induction l generalizing bs with
  | nil =>
    cases h
    rfl
  | cons _ _ ih =>
    simp only [List.mapM_cons, Option.bind_eq_bind, Option.bind_eq_some_iff, Option.pure_def,
      Option.some.injEq] at h
    obtain ⟨b, hb, bs, hbs, rfl⟩ := h
    simp [hb, ih hbs]

variable {l : List IbSge}

lemma ibSendToWqeSgl_ok {wqe wqe' : SendWqe} (h : ibSendToWqeSgl wqe l = (.ok (), wqe')) :
    wqe' = { wqe with tail := wqe.tail ++ l.flatMap IbSge.encode } := by
  induction l generalizing wqe with
  | nil =>
    cases h
    simp
  | cons _ _ ih =>
    simp only [ibSendToWqeSgl] at h
    split at h
    · cases h
    · rw [ih h]
      simp

variable {wqe : SendWqe}

lemma sndSgList_encode (htail : wqe.tail = l.flatMap IbSge.encode)
    (hcount : wqe.count.toNat = l.length) : wqe.sndSgList = l := by
  rw [SendWqe.sndSgList, hcount]
  apply List.ext_getElem (by simp)
  intro i h1 h2
  have hdrop : ∀ (l : List IbSge) (i : Nat) (h : i < l.length),
      IbSge.decode ((l.flatMap IbSge.encode).drop (sizeofIbSge * i)) = l[i] := by
    intro l
    induction l with
    | nil => exact fun i h => absurd h (Nat.not_lt_zero i)
    | cons sge _ ih =>
      intro i h
      cases i with
      | zero => exact IbSge.decode_encode sge _
      | succ i =>
        have hlen : sizeofIbSge * (i + 1) = sge.encode.length + sizeofIbSge * i := by
          rw [IbSge.length_encode, sizeofIbSge]
          omega
        rw [List.flatMap_cons, hlen, ← List.drop_drop, List.drop_left]
        exact ih i (Nat.lt_of_succ_lt_succ h)
  rw [List.getElem_map, List.getElem_range, SendWqe.sndSge, htail]
  exact hdrop l i h2

lemma ibInlineLen_ok {availableSize tailSize n : UInt64}
    (h : ibInlineLen availableSize tailSize l = .ok n) :
    n.toNat = tailSize.toNat + sndTotal l ∧ (n ≤ availableSize ∨ n = tailSize) := by
  induction l generalizing tailSize with
  | nil =>
    cases h
    exact ⟨rfl, .inr rfl⟩
  | cons sge l ih =>
    have htotal : sndTotal (sge :: l) = sge.length.toNat + sndTotal l := rfl
    simp only [ibInlineLen] at h
    split at h
    next hzero =>
      have hzero : sge.length.toNat = 0 := by rw [← UInt32.toNat_toUInt64, hzero]; rfl
      obtain ⟨hn, hle⟩ := ih h
      exact ⟨by omega, hle⟩
    · split at h
      · cases h
      next hwrap =>
        split at h
        · cases h
        next hfits =>
          obtain ⟨hn, hle⟩ := ih h
          have hadd : (tailSize + sge.length.toUInt64).toNat =
              tailSize.toNat + sge.length.toNat := by
            rw [UInt64.lt_iff_toNat_lt, UInt64.toNat_add, UInt32.toNat_toUInt64] at hwrap
            have := sge.length.toNat_lt
            have := tailSize.toNat_lt
            rw [UInt64.toNat_add, UInt32.toNat_toUInt64]
            omega
          refine ⟨by omega, .inl ?_⟩
          obtain hle | rfl := hle
          · exact hle
          · exact UInt64.not_lt.1 hfits

variable {umem : UInt64 → Option UInt8}

lemma ibInlineCopy_ok {availableSize : Nat} {data data' : List UInt8}
    (htotal : data.length + sndTotal l = availableSize)
    (h : ibInlineCopy umem availableSize data l = (.ok (), data')) :
    data'.map some = data.map some ++
      l.flatMap fun sge => (span sge.addr sge.length.toNat).map umem := by
  induction l generalizing data with
  | nil =>
    cases h
    simp
  | cons sge l ih =>
    have hcons : sndTotal (sge :: l) = sge.length.toNat + sndTotal l := rfl
    have hskip : sge.length.toNat = 0 → data'.map some = data.map some ++
        (l.flatMap fun sge => (span sge.addr sge.length.toNat).map umem) →
        data'.map some = data.map some ++
        (sge :: l).flatMap fun sge => (span sge.addr sge.length.toNat).map umem := by
      intro hzero hl
      rw [hl, List.flatMap_cons, hzero]
      rfl
    simp only [ibInlineCopy] at h
    split at h
    · split at h
      next hzero =>
        have hzero : sge.length.toNat = 0 := by rw [hzero]; rfl
        exact hskip hzero (ih (by omega) h)
      · split at h
        · cases h
        next bs hbs =>
          have hbs := mapM_eq_some hbs
          have hlen : bs.length = sge.length.toNat := by
            have := congrArg List.length hbs
            simpa using this.symm
          rw [ih (by rw [List.length_append]; omega) h, List.flatMap_cons, hbs, List.map_append,
            List.append_assoc]
    · cases h
      have hall : ∀ l : List IbSge, sndTotal l = 0 →
          (l.flatMap fun sge => (span sge.addr sge.length.toNat).map umem) = [] := by
        intro l hl
        rw [← List.length_eq_zero_iff]
        simpa [sndTotal, List.length_flatMap] using hl
      rw [hall _ (by omega), List.append_nil]

variable {qp : Qp} {wr : SendWr}

lemma ibSendToWqe_ok (h : ibSendToWqe qp wr = (.ok (), wqe)) :
    wqe.flags = wr.sendFlags ∧ wqe.opCode = wr.opcode.toUInt16 ∧ wqe.tail = [] ∧
      (sendOpcodeIsRdma wr.opcode = true → wqe.rdmaSge = ⟨wr.remoteAddr, 0, wr.rkey⟩ ∧
        wr.rkey ≠ reservedDmaLkey) ∧
      (wqe.isInline = true → wqe.count.toNat = sndTotal wr.sgList ∧
        wqe.count ≤ qp.sendWqeInlineCap) ∧
      (wqe.isInline = false → wqe.count = .ofNat wr.sgList.length) := by
  simp only [ibSendToWqe] at h
  split at h
  · cases h
  next hkey =>
    have hrdma : sendOpcodeIsRdma wr.opcode = true →
        wr.hdr.rdmaSge = ⟨wr.remoteAddr, 0, wr.rkey⟩ ∧ wr.rkey ≠ reservedDmaLkey := by
      intro hr
      refine ⟨by simp [SendWr.hdr, hr], fun hk => hkey ?_⟩
      simp [SendWr.hdr, ibSgeReserved, hr, hk]
    split at h
    next hinline =>
      split at h
      · cases h
      next n hn =>
        cases h
        obtain ⟨hnat, hle⟩ := ibInlineLen_ok hn
        have hcap : n.toNat ≤ qp.sendWqeInlineCap.toNat := by
          obtain hle | rfl := hle
          · rwa [UInt64.le_iff_toNat_le, UInt32.toNat_toUInt64] at hle
          · exact Nat.zero_le _
        have hlt : n.toNat < 2 ^ 32 := hcap.trans_lt qp.sendWqeInlineCap.toNat_lt
        refine ⟨rfl, rfl, rfl, hrdma, fun _ => ⟨?_, ?_⟩, fun hf => ?_⟩
        · rw [UInt64.toNat_toUInt32, Nat.mod_eq_of_lt hlt, hnat, UInt64.toNat_zero, Nat.zero_add]
        · rwa [UInt32.le_iff_toNat_le, UInt64.toNat_toUInt32, Nat.mod_eq_of_lt hlt]
        · exact absurd (hinline.symm.trans hf) nofun
    next hinline =>
      cases h
      exact ⟨rfl, rfl, rfl, hrdma, fun ht => absurd ht hinline, fun _ => rfl⟩

lemma Builds.spec (h : Builds qp umem wr wqe) : wqe.flags = wr.sendFlags ∧
    wqe.opCode = wr.opcode.toUInt16 ∧
      (sendOpcodeIsRdma wr.opcode = true → wqe.rdmaSge = ⟨wr.remoteAddr, 0, wr.rkey⟩ ∧
        wr.rkey ≠ reservedDmaLkey) ∧
      (wqe.isInline = true → wqe.count.toNat = sndTotal wr.sgList ∧ wqe.tail.map some =
        wr.sgList.flatMap fun sge => (span sge.addr sge.length.toNat).map umem) ∧
      (wqe.isInline = false → wqe.count.toNat = wr.sgList.length ∧
        wqe.tail = wr.sgList.flatMap IbSge.encode) := by
  obtain ⟨hcheck, h⟩ := h
  simp only [postSendBuild] at h
  split at h
  · cases h
  next hdr hhdr =>
    obtain ⟨hflags, hop, htail, hrdma, hinl, hsgl⟩ := ibSendToWqe_ok hhdr
    simp only [postSendFill] at h
    split at h
    next hinline =>
      simp only [ibSendToInlineWqe] at h
      obtain ⟨hrc, rfl⟩ := Prod.mk.inj h
      have hcopy : ibInlineCopy umem hdr.count.toNat [] wr.sgList =
          (.ok (), (ibInlineCopy umem hdr.count.toNat [] wr.sgList).2) := Prod.ext hrc rfl
      obtain ⟨hcount, -⟩ := hinl hinline
      refine ⟨hflags, hop, hrdma, fun _ => ⟨hcount, ?_⟩, fun hf => ?_⟩
      · have := ibInlineCopy_ok (by rw [hcount]; exact Nat.zero_add _) hcopy
        simpa using this
      · exact absurd (hinline.symm.trans hf) nofun
    next hinline =>
      rw [ibSendToWqeSgl_ok h]
      refine ⟨hflags, hop, hrdma, fun ht => absurd ht hinline, fun _ => ⟨?_, by simp [htail]⟩⟩
      simp only [postSendCheck, Bool.and_eq_true, decide_eq_true_eq] at hcheck
      have := qp.sendWqeSgCap.toNat_lt
      dsimp only
      rw [hsgl (by simpa using hinline), UInt32.toNat_ofNat_of_lt' (show _ < 2 ^ 32 by omega)]

lemma Builds.inline_le (h : Builds qp umem wr wqe) (hinline : wqe.isInline = true) :
    wqe.count ≤ qp.sendWqeInlineCap := by
  obtain ⟨-, h⟩ := h
  simp only [postSendBuild] at h
  split at h
  · cases h
  next hdr hhdr =>
    obtain ⟨-, -, -, -, hinl, -⟩ := ibSendToWqe_ok hhdr
    simp only [postSendFill] at h
    split at h
    next hhdrInline =>
      simp only [ibSendToInlineWqe] at h
      obtain ⟨-, rfl⟩ := Prod.mk.inj h
      exact (hinl hhdrInline).2
    next hhdrInline =>
      rw [ibSendToWqeSgl_ok h] at hinline
      exact absurd hinline hhdrInline

/-! ## The write that is executed -/

variable {dev : Dev} {chan chan' : Chan}

lemma qpRdmaWrite_ok {wqe wqe' : SendWqe} (h : qpRdmaWrite dev chan wqe = (.ok (), wqe', chan')) :
    ∃ rdmaLen, wqe' = { wqe with rdmaSge := { wqe.rdmaSge with length := rdmaLen } } ∧
      ((isInlineFlag wqe.flags = true ∧ rdmaLen = wqe.count ∧
          zipRdmaImm dev chan [.direct { wqe.rdmaSge with length := 0xFFFFFFFF }]
            (wqe.tail.take wqe.count.toNat) 0 = (.ok (), chan')) ∨
        (isInlineFlag wqe.flags = false ∧
          zipRdma dev chan [.direct { wqe.rdmaSge with length := 0xFFFFFFFF }] wqe.sndSgList 0
            (if isSignaled wqe.flags then .wait else .dontWait) = (.ok rdmaLen, chan'))) := by
  simp only [qpRdmaWrite] at h
  split at h
  · cases h
  · by_cases hinline : isInlineFlag wqe.flags = true
    · rw [if_pos hinline] at h
      generalize zipRdmaImm dev chan [.direct { wqe.rdmaSge with length := 0xFFFFFFFF }]
        (wqe.tail.take wqe.count.toNat) 0 = r at h
      obtain ⟨rc, c⟩ := r
      cases rc with
      | error => cases h
      | ok =>
        cases h
        exact ⟨_, rfl, .inl ⟨hinline, rfl, rfl⟩⟩
    · rw [if_neg hinline] at h
      generalize zipRdma dev chan [.direct { wqe.rdmaSge with length := 0xFFFFFFFF }]
        wqe.sndSgList 0 (if isSignaled wqe.flags then .wait else .dontWait) = r at h
      obtain ⟨rc, c⟩ := r
      cases rc with
      | error => cases h
      | ok =>
        cases h
        exact ⟨_, rfl, .inr ⟨by simpa using hinline, rfl⟩⟩

lemma payload_imm {mem : UInt64 → UInt8} {reqs : List DmaReq}
    (h : ∀ req ∈ reqs, ∃ data, req.src = .imm data ∧ data.length = req.len.toNat) :
    reqs.flatMap (DmaReq.payload mem) = (reqs.flatMap DmaReq.puts).map Prod.fst := by
  rw [List.map_flatMap]
  apply List.flatMap_congr
  intro req hreq
  obtain ⟨data, hsrc, hlen⟩ := h req hreq
  simp only [DmaReq.payload, DmaReq.puts, hsrc]
  rw [List.map_fst_zip (by rw [length_span, hlen])]

lemma payload_mem {mem : UInt64 → UInt8} {reqs : List DmaReq}
    (h : ∀ req ∈ reqs, ∃ a, req.src = .mem a) :
    reqs.flatMap (DmaReq.payload mem) = ((reqs.flatMap DmaReq.moves).map Prod.fst).map mem := by
  rw [List.map_flatMap, List.map_flatMap]
  apply List.flatMap_congr
  intro req hreq
  obtain ⟨a, hsrc⟩ := h req hreq
  simp only [DmaReq.payload, DmaReq.moves, hsrc]
  rw [List.map_fst_zip (by rw [length_span, length_span])]

lemma zipRdmaImm_payload {rcvSgList : List RcvSge} {sndData : List UInt8} {off : UInt32}
    (mem : UInt64 → UInt8) (hlt : sndData.length < 2 ^ 32)
    (h : zipRdmaImm dev chan rcvSgList sndData off = (.ok (), chan')) :
    ∃ reqs, chan'.log = chan.log ++ reqs ∧ reqs.flatMap (DmaReq.payload mem) = sndData := by
  have hspec := zipRdmaImm_spec dev chan rcvSgList sndData off hlt
  rw [h] at hspec
  obtain ⟨puts, -, hm, reqs, hlog, rfl, himm⟩ := hspec.of_ok
  have hfst := lockstep_fst hm
  rw [List.map_inj_right (fun _ _ => Option.some.inj)] at hfst
  exact ⟨reqs, hlog, by rw [payload_imm himm, hfst]⟩

lemma zipRdma_payload {rcvSgList : List RcvSge} {sndSgList : List IbSge} {off rdmaLen : UInt32}
    {dmaWait : DmaWait} (mem : UInt64 → UInt8)
    (h : zipRdma dev chan rcvSgList sndSgList off dmaWait = (.ok rdmaLen, chan')) :
    ∃ reqs, chan'.log = chan.log ++ reqs ∧
      (reqs.flatMap (DmaReq.payload mem)).map some = (sndLocs dev sndSgList).map (Option.map mem) ∧
      rdmaLen.toNat = sndTotal sndSgList := by
  obtain ⟨htotal, reqs, hlog, hm, -, hwithin⟩ := zipRdma_ok h
  refine ⟨reqs, hlog, ?_, htotal⟩
  rw [payload_mem fun req hreq => (hwithin req hreq).mem, ← lockstep_fst hm]
  simp only [List.map_map]
  rfl

/-- The executor takes the tail for inline data only where the poster stored inline data, or nothing
at all. -/
def SendWr.Consistent (wr : SendWr) : Prop :=
  ¬ (wr.opcode = wrRdmaWriteWithImm.toUInt32 ∧ isInlineFlag wr.sendFlags = true ∧ wr.sgList ≠ [])

lemma carries_of_consistent
    (hop : wr.opcode = wrRdmaWrite.toUInt32 ∨ wr.opcode = wrRdmaWriteWithImm.toUInt32)
    (hwr : wr.Consistent) : Carries qp wr := by
  intro umem wqe hbuild dev chan mem recvKey wqe' chan' hwrite
  obtain ⟨hflags, hopc, -, hinl, hsgl⟩ := hbuild.spec
  obtain ⟨rdmaLen, rfl, ⟨hinline, rfl, hzip⟩ | ⟨hinline, hzip⟩⟩ := qpRdmaWrite_ok hwrite
  · dsimp only at hinline hzip
    have hbytes : wrBytes dev umem mem wr =
        wr.sgList.flatMap fun sge => (span sge.addr sge.length.toNat).map umem := by
      rw [wrBytes, if_pos (hflags ▸ hinline)]
    -- the tail holds inline data, or the list is empty
    have hdata : (wqe.tail.take wqe.count.toNat).map some = wrBytes dev umem mem wr ∧
        wqe.count.toNat = (wrBytes dev umem mem wr).length := by
      rw [hbytes]
      cases his : wqe.isInline with
      | true =>
        obtain ⟨hcount, htail⟩ := hinl his
        have hlen : wqe.tail.length = wqe.count.toNat := by
          have := congrArg List.length htail
          simpa [sndTotal, List.length_flatMap, hcount] using this
        rw [← hlen, List.take_length, htail]
        exact ⟨rfl, by rw [← htail, List.length_map]⟩
      | false =>
        obtain ⟨hcount, htail⟩ := hsgl his
        have hnil : wr.sgList = [] := by
          by_contra hne
          obtain hop | hop := hop
          · simp [SendWqe.isInline, hopc, hop, hinline] at his
          · exact hwr ⟨hop, hflags ▸ hinline, hne⟩
        simp [hcount, htail, hnil]
    have hlt : (wqe.tail.take wqe.count.toNat).length < 2 ^ 32 := by
      have := wqe.count.toNat_lt
      rw [List.length_take]
      omega
    obtain ⟨reqs, hlog, hpay⟩ := zipRdmaImm_payload mem hlt hzip
    exact ⟨reqs, hlog, by rw [hpay, hdata.1], hdata.2⟩
  · dsimp only at hinline hzip
    have his : wqe.isInline = false := by simp [SendWqe.isInline, hinline]
    obtain ⟨hcount, htail⟩ := hsgl his
    have hlist : ({ wqe with recvKey } : SendWqe).sndSgList = wr.sgList :=
      sndSgList_encode htail hcount
    rw [hlist] at hzip
    obtain ⟨reqs, hlog, hpay, hlen⟩ := zipRdma_payload mem hzip
    have hbytes : wrBytes dev umem mem wr = (sndLocs dev wr.sgList).map (Option.map mem) := by
      rw [wrBytes, if_neg (by rw [← hflags, hinline]; exact Bool.false_ne_true)]
    refine ⟨reqs, hlog, by rw [hpay, hbytes], ?_⟩
    rw [hbytes, List.length_map, length_sndLocs]
    exact hlen

/-- A device that has a region of `n` elements of one byte each behind every remote key. -/
def tinyElemDev (addr : UInt64) (n : UInt32) : Dev where
  ntc := ⟨fun _ => ⟨0, 0, 0, 0⟩, fun _ _ => none⟩
  mrLook _ := none
  rmrLook _ := some ⟨addr, List.replicate n.toNat ⟨1, 0⟩, by
    have := n.toNat_lt
    simp only [List.map_replicate, List.sum_replicate, smul_eq_mul, UInt64.toNat_one]
    omega⟩

lemma tinyElemDev_locs {addr : UInt64} {n rkey : UInt32} (hkey : rkey ≠ reservedDmaLkey) :
    (rcvLocs (tinyElemDev addr n) [.direct ⟨addr, 0xFFFFFFFF, rkey⟩]).take n.toNat =
      (List.replicate n.toNat 0).map some := by
  have hn := n.toNat_lt
  have hlen : (0xFFFFFFFF : UInt32).toUInt64.toNat = 2 ^ 32 - 1 := rfl
  have hsum : ((List.replicate n.toNat (⟨1, 0⟩ : RemoteBuf)).map fun b =>
      b.size.toNat).sum = n.toNat := by
    simp
  have hbytes : bytes RemoteBuf.size RemoteBuf.dmaAddr (List.replicate n.toNat ⟨1, 0⟩) =
      List.replicate n.toNat 0 := by
    simp [bytes, List.flatMap_replicate, span]
  rw [rcvLocs_cons, rcvLocs_nil, List.append_nil, rcvSgeLocs,
    if_neg (by simpa [RcvSge.remoteKey] using hkey)]
  simp only [RcvSge.len, RcvSge.sgeAddr, tinyElemDev, hlen]
  rw [← List.map_take, span_take (by omega)]
  refine (span_map_byteAt (by simp; omega)).trans ?_
  rw [UInt64.sub_self, UInt64.toNat_zero, window_zero_left hsum.ge, hbytes]
  simp

lemma zipRdmaImm_tinyElem {addr : UInt64} {n rkey : UInt32} {sndData : List UInt8}
    (hkey : rkey ≠ reservedDmaLkey) (hlen : sndData.length = n.toNat) :
    ∃ chan', zipRdmaImm (tinyElemDev addr n) freshChan
      [.direct ⟨addr, 0xFFFFFFFF, rkey⟩] sndData 0 =
      (.ok (), chan') := by
  have hn := n.toNat_lt
  have hspec := zipRdmaImm_spec (tinyElemDev addr n) freshChan [.direct ⟨addr, 0xFFFFFFFF, rkey⟩]
    sndData 0 (by omega)
  have hshort : ¬ HasLongPiece (tinyElemDev addr n) [.direct ⟨addr, 0xFFFFFFFF, rkey⟩] := by
    rintro ⟨sge, hsge, b, hb, hlong⟩
    cases List.mem_singleton.1 hsge
    cases hb with
    | rmr _ hlook hmem =>
      cases hlook
      rw [List.eq_of_mem_replicate hmem] at hlong
      exact absurd hlong (by decide)
    | expBuf hres => exact hkey hres
  have hroom : (lockstep (sndData.map some) ((rcvLocs (tinyElemDev addr n)
      [.direct ⟨addr, 0xFFFFFFFF, rkey⟩]).drop (0 : UInt32).toNat)).isSome := by
    rw [lockstep_isSome, UInt32.toNat_zero, List.drop_zero, List.length_map, hlen,
      tinyElemDev_locs hkey]
    refine ⟨by simp, ?_, by simp⟩
    rw [rcvLocs_cons, rcvLocs_nil, List.append_nil, length_rcvSgeLocs]
    show n.toNat ≤ 2 ^ 32 - 1
    omega
  generalize zipRdmaImm (tinyElemDev addr n) freshChan
    [.direct ⟨addr, 0xFFFFFFFF, rkey⟩] sndData 0 = r
    at hspec
  cases hspec with
  | ok => exact ⟨_, rfl⟩
  | missing hm =>
    rw [hm] at hroom
    cases hroom
  | excess h => exact absurd h.2 hshort
  | refused h => exact absurd freshChan_accepts h

lemma Builds.of_list {umem umem' : UInt64 → Option UInt8} (h : Builds qp umem wr wqe)
    (his : wqe.isInline = false) : Builds qp umem' wr wqe := by
  obtain ⟨hflags, hopc, -⟩ := h.spec
  obtain ⟨hcheck, h⟩ := h
  refine ⟨hcheck, ?_⟩
  simp only [postSendBuild] at h ⊢
  split at h
  · cases h
  next hdr hhdr =>
    obtain ⟨hflags', hopc', -⟩ := ibSendToWqe_ok hhdr
    have hnot : hdr.isInline = false := by
      rw [SendWqe.isInline, hflags', hopc', ← hflags, ← hopc]
      exact his
    simp only [postSendFill, hnot] at h ⊢
    exact h

lemma consistent_of_carries (hacc : ∃ umem wqe, Builds qp umem wr wqe) (hcarries : Carries qp wr) :
    wr.Consistent := by
  rintro ⟨hopc, hinline, hne⟩
  obtain ⟨umem, wqe, hbuild⟩ := hacc
  obtain ⟨hflags, hop', hrdma, -, hsgl⟩ := hbuild.spec
  have his : wqe.isInline = false := by
    rw [SendWqe.isInline, hop', hopc]
    rfl
  obtain ⟨hcount, htail⟩ := hsgl his
  obtain ⟨hsge, hkey⟩ := hrdma (by rw [hopc]; rfl)
  have hlen : (wqe.tail.take wqe.count.toNat).length = wqe.count.toNat := by
    have : wqe.tail.length = 16 * wr.sgList.length := by
      simp [htail, List.length_flatMap, Nat.mul_comm]
    rw [List.length_take]
    omega
  have hpos : 0 < wr.sgList.length := List.length_pos_iff.2 hne
  obtain ⟨v, data, hdata⟩ := List.exists_cons_of_length_pos (by rw [hlen, hcount]; exact hpos)
  -- user memory that holds another byte than the first one of the stored list
  have hbuild' : Builds qp (fun _ => some (v + 1)) wr wqe := hbuild.of_list his
  obtain ⟨chan', hzip⟩ := @zipRdmaImm_tinyElem wr.remoteAddr wqe.count wr.rkey _ hkey hlen
  have hwrite : qpRdmaWrite (tinyElemDev wr.remoteAddr wqe.count) freshChan
      { wqe with recvKey := wqe.recvKey } = (.ok (), { wqe with rdmaSge :=
        { wqe.rdmaSge with length := wqe.count } }, chan') := by
    simp only [qpRdmaWrite, hsge, hflags, hinline, hzip, ibSgeReserved]
    simp [hkey, Except.map]
  obtain ⟨reqs, hlog, hpay, -⟩ := hcarries _ _ hbuild' _ _ (fun _ => 0) _ _ _ hwrite
  obtain ⟨reqs', hlog', hpay'⟩ := zipRdmaImm_payload (fun _ => 0)
    (by rw [hlen]; exact wqe.count.toNat_lt) hzip
  have hreqs : reqs = reqs' := List.append_cancel_left (hlog.symm.trans hlog')
  rw [hreqs, hpay', hdata, wrBytes, if_pos hinline] at hpay
  have hv : some v ∈ wr.sgList.flatMap fun sge =>
      (span sge.addr sge.length.toNat).map fun _ => some (v + 1) := by
    rw [← hpay]
    simp
  simp at hv

/-- The bytes written are those of the request if and only if the poster and the executor take the
entry for the same. -/
theorem carries_iff {qp : Qp} {wr : SendWr}
    (hop : wr.opcode = wrRdmaWrite.toUInt32 ∨ wr.opcode = wrRdmaWriteWithImm.toUInt32)
    (hacc : ∃ umem wqe, Builds qp umem wr wqe) : Carries qp wr ↔ wr.Consistent :=
  ⟨consistent_of_carries hacc, carries_of_consistent hop⟩

def oneByteWr (opcode : UInt32) : SendWr where
  wrId := 1
  opcode := opcode
  sendFlags := sendInline
  immData := 0
  remoteAddr := 0x20
  rkey := 2
  sgList := [⟨0x1234, 1, 9⟩]

/-- The write with immediate data carries the low byte of the address of the user's buffer instead
of the byte in it. -/
theorem carries_imm_inline :
    ∃ wqe wqe' chan', Builds (.fresh 4) (fun _ => some 7) (oneByteWr 1) wqe ∧
      qpRdmaWrite smallDev freshChan wqe = (.ok (), wqe', chan') ∧
      chan'.log.flatMap (DmaReq.payload fun _ => 0) = [0x34] ∧
      wrBytes smallDev (fun _ => some 7) (fun _ => 0) (oneByteWr 1) = [some 7] ∧
      ¬ Carries (.fresh 4) (oneByteWr 1) := by
  refine ⟨_, _, _, ⟨rfl, rfl⟩, rfl, rfl, rfl, fun h => ?_⟩
  have hacc : ∃ umem wqe, Builds (.fresh 4) umem (oneByteWr 1) wqe := ⟨fun _ => some 7, _, rfl, rfl⟩
  exact consistent_of_carries hacc h ⟨rfl, rfl, by decide⟩

theorem carries_iff_inline : Carries (.fresh 4) (oneByteWr 0) :=
  (carries_iff (.inl rfl) ⟨fun _ => some 7, _, rfl, rfl⟩).2 fun h => absurd h.1 (by decide)

end Ntrdma
