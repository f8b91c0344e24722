import Ntrdma.Zip.Basic

/-!
# What a copy leaves in the channel

`ntrdma_zip_rdma` and `ntrdma_zip_rdma_imm` are both compared with the copy that goes byte by byte
(`Lib.lockstep`). `Copied` says what either of them returns and which requests it makes: all of them
if it succeeds, and those up to the first byte that does not exist if it fails for want of that
byte.
-/

namespace Ntrdma
open Lib

/-- The moves of a request that copies from memory. -/
def DmaReq.moves (req : DmaReq) : List (UInt64 × UInt64) :=
  match req.src with
  | .mem a => (span a req.len.toNat).zip (span req.dst req.len.toNat)
  | .imm _ => []

/-- The bytes that a request with immediate data stores. -/
def DmaReq.puts (req : DmaReq) : List (UInt8 × UInt64) :=
  match req.src with
  | .mem _ => []
  | .imm data => data.zip (span req.dst req.len.toNat)

section
variable {α β : Type} (part : DmaReq → List (α × UInt64)) (P : DmaReq → Prop)

/-- Requests for these moves were made, and `P` holds of each of them. -/
def Chan.Sent (chan : Chan) (moves : List (α × UInt64)) (chan' : Chan) : Prop :=
  ∃ reqs, chan'.log = chan.log ++ reqs ∧ reqs.flatMap part = moves ∧ ∀ req ∈ reqs, P req

/-- The result of a copy of `data` to `locs` after `total` bytes. A copy that succeeds returns a
value for its length, and one to which `excess` applies may fail at any byte. -/
inductive Copied (value : Nat → β → Prop) (excess : Nat → Prop) (total : Nat) (chan : Chan)
    (data : List (Option α)) (locs : List (Option UInt64)) : Except Errno β × Chan → Prop where
  | ok {a moves chan'} : value (total + moves.length) a → lockstep data locs = some moves →
    chan.Sent part P moves chan' → Copied value excess total chan data locs (.ok a, chan')
  | missing {e chan'} : lockstep data locs = none →
    chan.Sent part P (lockstepPrefix data locs) chan' →
      Copied value excess total chan data locs (.error e, chan')
  | excess {e chan'} : excess (total + (cut data).length) →
    Copied value excess total chan data locs (.error e, chan')
  | refused {e chan'} : ¬ chan.Accepts → Copied value excess total chan data locs (.error e, chan')

variable {part P} {value : Nat → β → Prop} {excess : Nat → Prop} {total : Nat} {chan chan' : Chan}
  {data data' : List (Option α)} {locs locs' : List (Option UInt64)} {r : Except Errno β × Chan}

lemma Chan.Sent.nil : chan.Sent part P [] chan := ⟨[], (List.append_nil _).symm, rfl, nofun⟩

/-- One request comes before the others. -/
lemma Chan.Sent.take {req : DmaReq} {moves : List (α × UInt64)} (hreq : P req)
    (h : (chan.take req).Sent part P moves chan') : chan.Sent part P (part req ++ moves) chan' := by
  obtain ⟨reqs, hlog, rfl, hP⟩ := h
  rw [Chan.take_log, List.append_assoc, List.singleton_append] at hlog
  exact ⟨req :: reqs, hlog, List.flatMap_cons, List.forall_mem_cons.2 ⟨hreq, hP⟩⟩

namespace Copied

lemma nil {a : β} (h : value total a) : Copied part P value excess total
    chan [] locs (.ok a, chan) :=
  .ok (show value (total + ([] : List (α × UInt64)).length) a from h) rfl .nil

/-- There is no byte to copy from. -/
lemma no_data {e : Errno} (h : cut data = [none]) :
    Copied part P value excess total chan data locs (.error e, chan) :=
  .missing (lockstep_none_left h) (lockstepPrefix_none_left h ▸ .nil)

/-- There is no byte to copy to. -/
lemma no_loc {e : Errno} (hdata : data ≠ []) (h : locs = [] ∨ cut locs = [none]) :
    Copied part P value excess total chan data locs (.error e, chan) :=
  .missing (lockstep_none_right hdata h) (lockstepPrefix_none_right h ▸ .nil)

/-- What comes after the first byte that does not exist does not matter. -/
lemma of_cut (h : Copied part P value excess total chan data locs r) (hdata : cut data = cut data')
    (hlocs : cut locs = cut locs') : Copied part P value excess total chan data' locs' r := by
  have hstep : lockstep data locs = lockstep data' locs' := by
    rw [← lockstep_cut, hdata, hlocs, lockstep_cut]
  cases h with
  | ok ha hm hsent => exact .ok ha (hstep ▸ hm) hsent
  | missing hm hsent =>
    rw [← lockstepPrefix_cut, hdata, hlocs, lockstepPrefix_cut] at hsent
    exact .missing (hstep ▸ hm) hsent
  | excess ho => exact .excess (hdata ▸ ho)
  | refused hna => exact .refused hna

/-- A request for the first bytes comes before the copy of the rest. -/
lemma take {req : DmaReq} {xs : List α} {ys : List UInt64} (hreq : P req)
    (hpart : part req = xs.zip ys) (hlen : xs.length = ys.length)
    (h : Copied part P value excess (total + xs.length) (chan.take req) data locs r) :
    Copied part P value excess total chan (xs.map some ++ data) (ys.map some ++ locs) r := by
  cases h with
  | ok _ hm hsent =>
    refine .ok ?_ (by rw [lockstep_append hlen, hm]; rfl) (hpart ▸ hsent.take hreq)
    rwa [List.length_append, List.length_zip, ← hlen, Nat.min_self, ← Nat.add_assoc]
  | missing hm hsent =>
    refine .missing (by rw [lockstep_append hlen, hm]; rfl) ?_
    rw [lockstepPrefix_append hlen, ← hpart]
    exact hsent.take hreq
  | excess =>
    refine .excess ?_
    rwa [cut_map_some_append, List.length_append, List.length_map, ← Nat.add_assoc]
  | refused hna => exact .refused fun ha => hna (ha.take req)

lemma of_ok {a : β} (h : Copied part P value excess total chan data locs (.ok a, chan')) :
    ∃ moves, value (total + moves.length) a ∧ lockstep data locs = some moves ∧
      chan.Sent part P moves chan' := by
  cases h with
  | ok ha hm hsent => exact ⟨_, ha, hm, hsent⟩

/-- Where nothing else can fail, the copy goes on up to the first byte that does not exist. -/
lemma complete (h : Copied part P value excess total chan data locs r) (ha : chan.Accepts)
    (hover : ¬ excess (total + (cut data).length)) :
    r.1.isOk = (lockstep data locs).isSome ∧ chan.Sent part P (lockstepPrefix data locs) r.2 := by
  cases h with
  | ok _ hm hsent => exact ⟨by rw [hm]; rfl, lockstepPrefix_of_lockstep hm ▸ hsent⟩
  | missing hm hsent => exact ⟨by rw [hm]; rfl, hsent⟩
  | excess ho => exact absurd ho hover
  | refused hna => exact absurd ha hna

end Copied

end

end Ntrdma
