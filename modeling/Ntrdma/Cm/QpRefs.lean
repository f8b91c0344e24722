import Ntrdma.Cm.Connect
import Ntrdma.Lib.RefTrace

/-!
# The queue pair of a connection management command

The handlers of connection management with the references to the queue pair that they take
(`ntrdma_dev_qp_look_and_get`) and give back (`ntrdma_qp_put`). Those of a reject and of a reply
that is handled as one give the reference back only where the queue pair is connecting, and that of
any other reply gives it back before it unlocks the queue pair (`cmHandle_refsKept_iff`).

What a handler does under the lock is what it does in `Ntrdma.Cm.Connect`. The lookups of one
handler may find the queue pair or not, and `qp->cm_id` is read before the lock is taken.
-/

namespace Ntrdma
open Lib

/-- What a handler finds: the queue pair, `cm_id` before the lock, and the connection under it. -/
structure CmFound where
  look : Bool
  lookAgain : Bool
  cmId : Option Nat
  qp : CmQp

section
variable (hasHandler : Nat → Bool) (qpn : UInt32)

/-- C `ntrdma_cm_handle_reject`. The queue pair is used to read `cm_id`, lock, read its state, and
unlock. -/
def cmHandleReject (look : Bool) (cmId : Option Nat) (qp : CmQp) : List (RefEvent UInt32) × CmQp :=
  if !look then ([], qp)
  else if qp.state ≠ .connecting then ([.get qpn, .use qpn, .use qpn, .use qpn], qp)
  else ([.get qpn, .use qpn, .use qpn, .use qpn, .put qpn], qp.handleReject hasHandler cmId)

def cmHandleRep (status : UInt32) (found : CmFound) : List (RefEvent UInt32) × CmQp :=
  if !found.look then ([], found.qp)
  else if status = negEnetunreach then
    let res := cmHandleReject hasHandler qpn found.lookAgain found.cmId found.qp
    ([.get qpn, .use qpn] ++ res.1 ++ [.put qpn], res.2)
  else if found.qp.state ≠ .connecting then ([.get qpn, .use qpn, .use qpn,
    .put qpn, .use qpn], found.qp)
  else if !found.lookAgain then ([.get qpn, .use qpn, .use qpn], found.qp.crash)
  else
    -- `ntrdma_get_qp` takes a reference and gives it back
    ([.get qpn, .use qpn, .use qpn, .get qpn, .put qpn, .use qpn, .put qpn, .use qpn],
      found.qp.handleRep hasHandler found.cmId)

/-- The switch of `ntrdma_cmd_recv_cm`. `ntrdma_cm_handle_connect_req` does not look for a queue
pair. -/
def cmHandle (cmd : IwCmCmd) (found : CmFound) : List (RefEvent UInt32) × CmQp :=
  if cmd.cmOp = iwCmReq then ([], found.qp)
  else if cmd.cmOp = iwCmRep then cmHandleRep hasHandler cmd.rqpNum cmd.status found
  else if cmd.cmOp = iwCmReject then cmHandleReject hasHandler cmd.rqpNum
    found.look found.cmId found.qp
  else ([], found.qp)

end

/-- The queue pair is not found, or the command is handled as a reject while the queue pair is
connecting. -/
def CmFine (cmd : IwCmCmd) (found : CmFound) : Prop :=
  found.look = true →
    (cmd.cmOp = iwCmRep →
      cmd.status = negEnetunreach ∧ (found.lookAgain = true → found.qp.state = .connecting)) ∧
    (cmd.cmOp = iwCmReject → found.qp.state = .connecting)

section
variable {hasHandler : Nat → Bool} {qpn : UInt32} {refs : UInt32 → Nat}

variable {look : Bool}

lemma cmHandleReject_replay (cmId : Option Nat) (qp : CmQp) (h : look = true → 0 < refs qpn) :
    Replay (fun r => 0 < refs r) 0 (cmHandleReject hasHandler qpn look cmId qp).1
      (if look = true ∧ qp.state ≠ .connecting then {qpn} else 0) := by
  rw [cmHandleReject]
  cases look with
  | false => exact .nil
  | true =>
    by_cases hstate : qp.state = .connecting
    · rw [if_neg nofun, if_neg (not_not.2 hstate), if_neg fun hne => hne.2 hstate]
      exact .get (h rfl) (.use (.use (.use (.put .nil))))
    · rw [if_neg nofun, if_pos hstate, if_pos ⟨rfl, hstate⟩]
      exact .get (h rfl) (.use (.use (.use .nil)))

lemma refsKept_iff_of_replay {p : Prop} [Decidable p] {evs : List (RefEvent UInt32)}
    (h : Replay (fun r => 0 < refs r) 0 evs (if p then {qpn} else 0)) :
    RefsKept refs evs ↔ ¬ p := by
  by_cases hp : p
  · rw [if_pos hp] at h
    exact iff_of_false (h.not_refsKept (fun _ => id)
      (Multiset.singleton_ne_zero qpn)) (not_not.2 hp)
  · rw [if_neg hp] at h
    exact iff_of_true (h.refsKept fun _ => id) hp

lemma cmHandleReject_refsKept_iff (cmId : Option Nat) (qp : CmQp) (h : look = true → 0 < refs qpn) :
    RefsKept refs (cmHandleReject hasHandler qpn look cmId qp).1 ↔
      (look = true → qp.state = .connecting) := by
  rw [refsKept_iff_of_replay (cmHandleReject_replay cmId qp h), not_and, not_not]

lemma cmHandleRep_refsKept_iff (status : UInt32) {found : CmFound}
    (h : found.look = true → 0 < refs qpn)
    (hrun : (cmHandleRep hasHandler qpn status found).2.crashed = false) :
    RefsKept refs (cmHandleRep hasHandler qpn status found).1 ↔
      (found.look = true → status = negEnetunreach ∧
        (found.lookAgain = true → found.qp.state = .connecting)) := by
  rw [cmHandleRep] at hrun ⊢
  cases hlook : found.look with
  | false => exact iff_of_true (Replay.nil.refsKept fun _ => id) nofun
  | true =>
    rw [hlook] at hrun
    have hqp := h hlook
    -- what the handler does before the state of the connection matters
    have hstart {evs} {held : Multiset UInt32}
      (hevs : Replay (fun r => 0 < refs r) {qpn} evs held) :
        Replay (fun r => 0 < refs r) 0 (.get qpn :: .use qpn :: evs) held := .get hqp (.use hevs)
    simp only [Bool.not_true, Bool.false_eq_true, if_false, forall_const] at hrun ⊢
    by_cases hstatus : status = negEnetunreach
    · -- what the reject leaves held is held in the end
      have hreject : Replay (fun r => 0 < refs r) (qpn ::ₘ 0)
          (cmHandleReject hasHandler qpn found.lookAgain found.cmId found.qp).1 (qpn ::ₘ _) :=
        (cmHandleReject_replay found.cmId found.qp fun _ => hqp).frame_left {qpn}
      rw [if_pos hstatus, List.append_assoc, List.cons_append, List.cons_append, List.nil_append,
        refsKept_iff_of_replay (hstart (hreject.append (.put .nil))), not_and, not_not]
      exact (and_iff_right hstatus).symm
    · rw [if_neg hstatus] at hrun ⊢
      refine iff_of_false ?_ fun hfine => hstatus hfine.1
      split
      · exact (hstart (.use (.put .nil))).not_refsKept_use (fun _ => id) qpn []
      next hstate =>
        rw [if_neg hstate] at hrun
        split
        next hagain =>
          rw [if_pos hagain] at hrun
          cases hrun
        · exact (hstart (.use (.get hqp (.put (.use (.put .nil)))))).not_refsKept_use
            (fun _ => id) qpn []

end

/-- A handler gives back what it took exactly if it finds nothing or rejects a connecting pair. -/
theorem cmHandle_refsKept_iff (hasHandler : Nat → Bool) (cmd : IwCmCmd) (found : CmFound)
    {refs : UInt32 → Nat} (hrefs : found.look = true → 0 < refs cmd.rqpNum)
    (hrun : (cmHandle hasHandler cmd found).2.crashed = false) :
    RefsKept refs (cmHandle hasHandler cmd found).1 ↔ CmFine cmd found := by
  have hne : iwCmRep ≠ iwCmReject := by decide
  rw [cmHandle] at hrun ⊢
  rw [CmFine]
  by_cases hrep : cmd.cmOp = iwCmRep
  · rw [hrep, if_neg (by decide), if_pos rfl] at hrun ⊢
    simp only [hne, forall_const, false_imp_iff, and_true]
    exact cmHandleRep_refsKept_iff cmd.status hrefs hrun
  · simp only [if_neg hrep] at hrun ⊢
    by_cases hreject : cmd.cmOp = iwCmReject
    · rw [hreject, if_neg (by decide), if_pos rfl]
      simp only [hne.symm, false_imp_iff, true_and, forall_const]
      exact cmHandleReject_refsKept_iff found.cmId found.qp hrefs
    · simp only [hrep, hreject, false_imp_iff, and_true, implies_true, iff_true, if_false, ite_self]
      exact Replay.nil.refsKept fun _ => id

def cmCmdTo (op status : UInt32) : IwCmCmd where
  cmOp := op
  qpNum := 3
  rqpNum := 2
  remotePort := 0
  localPort := 0
  remoteAddr := .replicate 4 0
  localAddr := .replicate 4 0
  ird := 0
  privLen := 0
  status := status
  sinFamily := 2

def cmFoundIn (state : CmState) : CmFound := ⟨true, true, some 5,
    ⟨state, some 5, fun _ => 1, [], false⟩⟩

theorem cmHandle_refsKept_iff_reject :
    RefsKept (fun _ => 1) (cmHandle (fun _ => true) (cmCmdTo iwCmReject 0)
      (cmFoundIn .connecting)).1 :=
  (cmHandle_refsKept_iff _ (cmCmdTo iwCmReject 0) (cmFoundIn .connecting)
    (fun _ => Nat.one_pos) rfl).2
    fun _ => ⟨fun h => absurd h (by decide), fun _ => rfl⟩

/-- A reject for an idle queue pair keeps a reference, and a reply uses the queue pair after its
last one. -/
theorem cmHandle_loses_refs :
    refsAfter (fun _ => 1) (cmHandle (fun _ => true) (cmCmdTo iwCmReject 0)
      (cmFoundIn .idle)).1 2 = 2 ∧
      (cmHandle (fun _ => true) (cmCmdTo iwCmRep 0) (cmFoundIn .connecting)).2.crashed = false ∧
      ∃ evs, (cmHandle (fun _ => true) (cmCmdTo iwCmRep 0) (cmFoundIn .connecting)).1 = evs ++
        [.use 2] ∧
        refsAfter (fun _ => 1) evs 2 = 1 :=
  ⟨by decide, rfl, [.get 2, .use 2, .use 2, .get 2, .put 2, .use 2, .put 2], rfl, by decide⟩

end Ntrdma
