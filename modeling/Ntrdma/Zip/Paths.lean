import Ntrdma.Qp.Order

/-!
# Inline data and scatter/gather entries are written alike

`ntrdma_zip_rdma_imm` and `ntrdma_zip_rdma` share the receive cursor only: one loop ends when its
data are used up, the other one when its send cursor is at the end, and a region of the source
splits a copy further. Both are compared with the copy that goes byte by byte (`Filled`): each
stores the bytes up to the first one that does not exist, and succeeds if there is none
(`zipRdmaImm_filled`, `zipRdma_filled`).  All requests are accepted here, and the data are so short
that each request takes what it is given.
-/

namespace Ntrdma
open Lib

/-- A write to locations succeeds if all of the bytes exist, and stores those up to the first that
does not. -/
structure Filled {α : Type} (mem : UInt64 → UInt8) (chan : Chan) (data : List (Option UInt8))
    (locs : List (Option UInt64)) (r : Except Errno α × Chan) : Prop where
  isOk : r.1.isOk = (lockstep data locs).isSome
  stores : r.2.stores mem = chan.stores mem ++ (lockstepPrefix data locs).map Prod.swap

section
variable {dev : Dev} {chan : Chan} (mem : UInt64 → UInt8)

lemma zipRdmaImm_filled (rcvSgList : List RcvSge) (rcvStartOffset : UInt32) {data : List UInt8}
    (ha : chan.Accepts) (hsize : data.length ≤ immDataBufSize) :
    Filled mem chan (data.map some) ((rcvLocs dev rcvSgList).drop rcvStartOffset.toNat)
      (zipRdmaImm dev chan rcvSgList data rcvStartOffset) := by
  have hle := length_cut_le (data.map some)
  have hbuf : immDataBufSize = 8 := rfl
  rw [List.length_map] at hle
  obtain ⟨hok, reqs, hlog, hputs, himm⟩ :=
    (zipRdmaImm_spec dev chan rcvSgList data rcvStartOffset (by omega)).complete ha (by omega)
  refine ⟨hok, ?_⟩
  rw [Chan.stores_append mem hlog, stores_imm fun req hreq =>
    (himm req hreq).imp fun _ h => h.1, hputs]

lemma zipRdma_filled (rcvSgList : List RcvSge) {sndSgList : List IbSge} (rcvStartOffset : UInt32)
    (dmaWait : DmaWait) (ha : chan.Accepts) (hsize : sndTotal sndSgList < 2 ^ 32) :
    Filled mem chan ((sndLocs dev sndSgList).map (Option.map mem))
      ((rcvLocs dev rcvSgList).drop rcvStartOffset.toNat)
      (zipRdma dev chan rcvSgList sndSgList rcvStartOffset dmaWait) := by
  have hle := length_cut_le (sndLocs dev sndSgList)
  rw [length_sndLocs] at hle
  obtain ⟨hok, reqs, hlog, hmoves, hwithin⟩ :=
    (zipRdma_spec dev chan rcvSgList sndSgList rcvStartOffset dmaWait).2.complete ha (by omega)
  refine ⟨?_, ?_⟩
  · rw [hok, Bool.eq_iff_iff, lockstep_isSome, lockstep_isSome]
    simp
  · rw [Chan.stores_append mem hlog, stores_mem fun req hreq => (hwithin req hreq).mem, hmoves,
      lockstepPrefix_map_left, List.map_map]
    rfl

end

/-- Inline data and an entry with the same bytes are written alike, also where the write fails. -/
theorem zipRdmaImm_agrees (dev : Dev) {chan : Chan} (ha : chan.Accepts) (rcvSgList : List RcvSge)
    (rcvStartOffset : UInt32) {data : List UInt8} (hsize : data.length ≤ 8) (dmaWait : DmaWait)
    (mem : UInt64 → UInt8) {sge : IbSge}
    (hsrc : (sndLocs dev [sge]).map (Option.map mem) = data.map some) :
    (zipRdmaImm dev chan rcvSgList data rcvStartOffset).1.isOk =
        (zipRdma dev chan rcvSgList [sge] rcvStartOffset dmaWait).1.isOk ∧
      (zipRdmaImm dev chan rcvSgList data rcvStartOffset).2.stores mem =
        (zipRdma dev chan rcvSgList [sge] rcvStartOffset dmaWait).2.stores mem := by
  have hlen := congrArg List.length hsrc
  rw [List.length_map, List.length_map, length_sndLocs] at hlen
  have himm : Filled mem chan (data.map some) ((rcvLocs dev rcvSgList).drop rcvStartOffset.toNat)
      (zipRdmaImm dev chan rcvSgList data rcvStartOffset) :=
    zipRdmaImm_filled mem rcvSgList rcvStartOffset ha hsize
  have hzip : Filled mem chan ((sndLocs dev [sge]).map (Option.map mem))
      ((rcvLocs dev rcvSgList).drop rcvStartOffset.toNat)
      (zipRdma dev chan rcvSgList [sge] rcvStartOffset dmaWait) :=
    zipRdma_filled mem rcvSgList rcvStartOffset dmaWait ha (by omega)
  rw [hsrc] at hzip
  exact ⟨himm.isOk.trans hzip.isOk.symm, himm.stores.trans hzip.stores.symm⟩

theorem zipRdmaImm_agrees_twoBytes :
    (zipRdmaImm smallDev freshChan [.direct ⟨0x21, 1, 2⟩] [0xA1, 0xC0] 0).1.isOk = false ∧
      (zipRdma smallDev freshChan [.direct ⟨0x21, 1, 2⟩]
        [⟨0x11, 2, 1⟩] 0 .dontWait).1.isOk = false ∧
      (zipRdmaImm smallDev freshChan [.direct ⟨0x21, 1, 2⟩]
        [0xA1, 0xC0] 0).2.stores UInt64.toUInt8 =
        (zipRdma smallDev freshChan [.direct ⟨0x21, 1, 2⟩] [⟨0x11, 2, 1⟩] 0 .dontWait).2.stores
          UInt64.toUInt8 := by
  have hsrc : (sndLocs smallDev [⟨0x11, 2, 1⟩]).map (Option.map UInt64.toUInt8) =
      [0xA1, 0xC0].map some := by
    decide
  have h := zipRdmaImm_agrees smallDev freshChan_accepts
    [.direct ⟨0x21, 1, 2⟩] 0 (by decide) .dontWait
    UInt64.toUInt8 hsrc
  exact ⟨by decide, h.1.symm.trans (by decide), h.2⟩

end Ntrdma
