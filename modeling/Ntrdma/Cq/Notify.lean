import Mathlib.Data.Finset.Basic
import Ntrdma.Lib.Run

/-!
# Notifications of a completion queue

Model of `ntrdma_cq_arm` and `ntrdma_cq_cue`. The application asks for a notification by arming the
queue (`ntrdma_req_notify_cq`); a cue calls its completion handler once for every arm so far. A cue
that finds no arm leaves `need_cue`, and the next arm then cues the queue itself, in a second step
outside of the lock: `owing` has the calls that are between the two.

Cues come from the doorbell of the queue (`ntrdma_cq_cue_work`), from the receive side of a queue
pair and from arms, at any time. `ntrdma_destroy_cq_common` takes away the handler and then kills
the queue; what happens after either is not looked at here (`Live`). The doorbell that an arm adds
again is in `Vbell/Doorbell.lean`; here it is one of the reasons for a cue.
-/

namespace Ntrdma
open Lib

/-- What `arm_lock` protects (C `struct ntrdma_cq`). -/
structure CqNotify where
  arm : UInt32
  needCue : Bool
  ibcqValid : Bool

/-- The locked section of `ntrdma_cq_arm`: whether the caller has to cue the queue, and the
queue. -/
def cqArm (cq : CqNotify) : Bool × CqNotify :=
  (cq.needCue, { cq with arm := cq.arm + 1, needCue := false })

/-- C `_ntrdma_cq_cue`: the number of calls of the handler, and the queue. -/
def cqCue (cq : CqNotify) : Nat × CqNotify :=
  if !cq.ibcqValid then (0, cq)
  else
    (cq.arm.toNat, { cq with arm := 0, needCue := if cq.arm = 0 then true else cq.needCue })

/-- The first section of `ntrdma_destroy_cq_common`. -/
def cqInvalidate (cq : CqNotify) : CqNotify := { cq with ibcqValid := false }

/-- The locked section of `ntrdma_cq_vbell_kill`. -/
def cqVbellKill (cq : CqNotify) : CqNotify := { cq with arm := 0, needCue := false }

/-- A completion queue, the calls of `ntrdma_cq_arm` that have yet to cue it, the handler's calls
and the arms. -/
structure NotifySys where
  cq : CqNotify
  owing : Finset Nat
  calls : Nat
  arms : Nat
  wraps : Nat
  killed : Bool

/-- What can happen to the queue. A call of `ntrdma_cq_arm` is known by a number. -/
inductive NotifyAct where
  | arm (call : Nat)
  | selfCue (call : Nat)
  | cue
  | invalidate
  | kill
  deriving DecidableEq, Repr

def NotifyAct.Cues : NotifyAct → Prop
  | .selfCue _ => True
  | .cue => True
  | _ => False

namespace NotifySys

def cued (s : NotifySys) : NotifySys :=
  { s with cq := (cqCue s.cq).2, calls := s.calls + (cqCue s.cq).1 }

def apply (s : NotifySys) : NotifyAct → Option NotifySys
  | .arm call =>
    if call ∈ s.owing then none
    else some
      { s with
        cq := (cqArm s.cq).2
        owing := if (cqArm s.cq).1 then insert call s.owing else s.owing
        arms := s.arms + 1
        wraps := if s.cq.arm.toNat + 1 = 2 ^ 32 then s.wraps + 1 else s.wraps }
  | .selfCue call => if call ∈ s.owing then some
    { s.cued with owing := s.owing.erase call } else none
  | .cue => some s.cued
  | .invalidate => some { s with cq := cqInvalidate s.cq }
  | .kill => some { s with cq := cqVbellKill s.cq, killed := true }

def Step (s : NotifySys) (act : NotifyAct) (t : NotifySys) : Prop := s.apply act = some t

def fresh : NotifySys := ⟨⟨0, false, true⟩, ∅, 0, 0, 0, false⟩

structure Live (s : NotifySys) : Prop where
  valid : s.cq.ibcqValid = true
  notKilled : s.killed = false

/-! ## What one step does -/

def answered (s : NotifySys) : NotifySys :=
  { s with
    cq := ⟨0, if s.cq.arm = 0 then true else s.cq.needCue, true⟩
    calls := s.calls + s.cq.arm.toNat }

inductive Moves (s : NotifySys) : NotifyAct → NotifySys → Prop
  | arm {call} : call ∉ s.owing →
    Moves s (.arm call)
      { s with
        cq := ⟨s.cq.arm + 1, false, true⟩
        owing := if s.cq.needCue then insert call s.owing else s.owing
        arms := s.arms + 1
        wraps := if s.cq.arm.toNat + 1 = 2 ^ 32 then s.wraps + 1 else s.wraps }
  | selfCue {call} : call ∈ s.owing →
    Moves s (.selfCue call) { s.answered with owing := s.owing.erase call }
  | cue : Moves s .cue s.answered

section
variable {s t u : NotifySys} {act : NotifyAct}

lemma Live.cued_eq (h : s.Live) : s.cued = s.answered := by
  simp only [cued, answered, cqCue, h.valid, Bool.not_true, Bool.false_eq_true, if_false]

lemma live_of_cued (h : s.cued.Live) : s.Live := by
  refine ⟨?_, h.notKilled⟩
  by_contra hvalid
  have hcue := h.valid
  simp only [Bool.not_eq_true] at hvalid
  simp only [cued, cqCue, hvalid, Bool.not_false, if_true] at hcue
  cases hcue

lemma moves_of_step (hstep : s.Step act t) (hlive : t.Live) : s.Live ∧ s.Moves act t := by
  cases act with
  | arm =>
    simp only [Step, apply] at hstep
    split at hstep
    · cases hstep
    next hout =>
      cases hstep
      have hvalid : s.cq.ibcqValid = true := hlive.valid
      refine ⟨⟨hvalid, hlive.notKilled⟩, ?_⟩
      simp only [cqArm, hvalid]
      exact .arm hout
  | selfCue =>
    simp only [Step, apply] at hstep
    split at hstep
    next hin =>
      cases hstep
      have hs : s.Live := live_of_cued ⟨hlive.valid, hlive.notKilled⟩
      rw [hs.cued_eq]
      exact ⟨hs, .selfCue hin⟩
    · cases hstep
  | cue =>
    cases hstep
    have hs := live_of_cued hlive
    rw [hs.cued_eq]
    exact ⟨hs, .cue⟩
  | invalidate =>
    cases hstep
    exact absurd hlive.valid Bool.false_ne_true
  | kill =>
    cases hstep
    exact absurd hlive.notKilled.symm Bool.false_ne_true

/-! ## What holds in every run -/

/-- Every arm is answered, waits in `arm`, or was lost with the others when `arm` wrapped around. -/
def Conserved (s : NotifySys) : Prop := s.calls + s.cq.arm.toNat + 2 ^ 32 * s.wraps = s.arms

lemma Conserved.answered (h : s.Conserved) : s.answered.Conserved := by
  simp only [Conserved, NotifySys.answered, UInt32.toNat_zero] at h ⊢
  omega

lemma Conserved.step (h : s.Conserved) (hmoves : s.Moves act t) : t.Conserved := by
  cases hmoves with
  | arm =>
    have hlt := s.cq.arm.toNat_lt
    simp only [Conserved] at h ⊢
    rw [UInt32.toNat_add, UInt32.toNat_one]
    split <;> omega
  | selfCue => exact h.answered
  | cue => exact h.answered

lemma conserved_of_reaches (hrun : Reaches Step fresh s) (hlive : s.Live) : s.Conserved := by
  refine hrun.invariant (I := fun s => s.Live → s.Conserved) (fun _ => rfl) ?_ hlive
  intro s act t h hstep hlive
  obtain ⟨hs, hmoves⟩ := moves_of_step hstep hlive
  exact (h hs).step hmoves

lemma live_of_reaches {step : NotifySys → NotifyAct → NotifySys → Prop}
    (hstep : ∀ s act t, step s act t → s.Step act t) (hrun : Reaches step s t) (hlive : t.Live) :
    s.Live := by
  induction hrun with
  | refl => exact hlive
  | tail _ hlast ih =>
    obtain ⟨act, hact⟩ := hlast
    exact ih (moves_of_step (hstep _ act _ hact) hlive).1

def Waits (s : NotifySys) (act : NotifyAct) (t : NotifySys) : Prop :=
  s.Step act t ∧ ∀ call, act ≠ .arm call

def Leaves (call : Nat) (s : NotifySys) (act : NotifyAct) (t : NotifySys) : Prop :=
  s.Step act t ∧ act ≠ .selfCue call

lemma needCue_of_waits (hrun : Reaches Waits s t) (hlive : t.Live) (hneed : s.cq.needCue = true) :
    t.cq.needCue = true := by
  refine hrun.invariant (I := fun t => t.Live → t.cq.needCue = true) (fun _ => hneed) ?_ hlive
  rintro s act t h ⟨hstep, hnot⟩ hlive
  obtain ⟨hs, hmoves⟩ := moves_of_step hstep hlive
  cases hmoves with
  | @arm call => exact absurd rfl (hnot call)
  | _ =>
    simp only [answered, h hs]
    split <;> rfl

variable {call : Nat}

lemma owing_of_leaves (hrun : Reaches (Leaves call) s t) (hlive : t.Live)
    (howing : call ∈ s.owing) : call ∈ t.owing := by
  refine hrun.invariant (I := fun t => t.Live → call ∈ t.owing) (fun _ => howing) ?_ hlive
  rintro s act t h ⟨hstep, hnot⟩ hlive
  obtain ⟨hs, hmoves⟩ := moves_of_step hstep hlive
  cases hmoves with
  | arm =>
    dsimp only
    split
    · exact Finset.mem_insert_of_mem (h hs)
    · exact h hs
  | @selfCue =>
    refine Finset.mem_erase_of_ne_of_mem ?_ (h hs)
    rintro rfl
    exact hnot rfl
  | cue => exact h hs

lemma arms_le_of_leaves (hrun : Reaches (Leaves call) s t) (hlive : t.Live) : s.arms ≤ t.arms := by
  refine hrun.invariant (I := fun t => t.Live → s.arms ≤ t.arms) (fun _ => le_rfl) ?_ hlive
  rintro u act t h ⟨hstep, -⟩ hlive
  obtain ⟨hu, hmoves⟩ := moves_of_step hstep hlive
  cases hmoves with
  | arm => exact (h hu).trans (Nat.le_succ _)
  | _ => exact h hu

lemma cue_result (hlive : s.Live) (hcues : act.Cues) (hstep : s.Step act t) :
    t.Live ∧ t.cq.arm = 0 ∧ (s.cq.arm = 0 → t.cq.needCue = true) := by
  have hanswered : s.answered.Live := ⟨rfl, hlive.notKilled⟩
  have hneed : s.cq.arm = 0 → s.answered.cq.needCue = true := fun harm => if_pos harm
  cases act with
  | selfCue =>
    simp only [Step, apply, hlive.cued_eq] at hstep
    split at hstep
    · cases hstep
      exact ⟨⟨rfl, hlive.notKilled⟩, rfl, hneed⟩
    · cases hstep
  | cue =>
    simp only [Step, apply, hlive.cued_eq] at hstep
    cases hstep
    exact ⟨hanswered, rfl, hneed⟩
  | _ => exact hcues.elim

end

lemma selfCue_answers {call : Nat} {s : NotifySys} (hrun : Reaches Step fresh s) (hlive : s.Live)
    (howing : call ∈ s.owing) :
    ∃ x, s.Step (.selfCue call) x ∧ x.cq.arm = 0 ∧ (x.wraps = 0 → x.calls = s.arms) := by
  refine ⟨{ s.answered with owing := s.owing.erase call }, ?_, rfl, fun hwraps => ?_⟩
  · rw [Step, apply, if_pos howing, hlive.cued_eq]
  · have hconserved := (conserved_of_reaches hrun hlive).answered
    simp only [Conserved, answered, UInt32.toNat_zero] at hconserved hwraps ⊢
    omega

/-- Calls of the handler and `arm` make up the arms exactly if no arm found the largest number; a
cue without an arm is owed by the next. -/
theorem notifications_conserved_iff {s : NotifySys} (hrun : Reaches Step fresh s) (hlive : s.Live) :
    (s.calls + s.cq.arm.toNat = s.arms ↔ s.wraps = 0) ∧
    (∀ act t, act.Cues → s.Step act t → t.cq.arm = 0) ∧
    (s.cq.arm = 0 → ∀ act t u v w call, act.Cues → s.Step act t → Reaches Waits t u →
      u.Step (.arm call) v → Reaches (Leaves call) v w → w.Live →
      ∃ x, w.Step (.selfCue call) x ∧ x.cq.arm = 0 ∧ (x.wraps = 0 → v.arms ≤ x.calls)) := by
  have hconserved := conserved_of_reaches hrun hlive
  refine ⟨?_, fun act t hcues hstep => (cue_result hlive hcues hstep).2.1, ?_⟩
  · simp only [Conserved] at hconserved
    omega
  intro harm act t u v w call hcues hstep hwaits harmStep hleaves hw
  have hv := live_of_reaches (fun _ _ _ h => h.1) hleaves hw
  obtain ⟨hu, hmoves⟩ := moves_of_step harmStep hv
  have hneed := needCue_of_waits hwaits hu ((cue_result hlive hcues hstep).2.2 harm)
  -- the arm took the need for a cue over
  have howing : call ∈ v.owing := by
    cases hmoves with
    | arm =>
      dsimp only
      rw [hneed, if_pos rfl]
      exact Finset.mem_insert_self call _
  have hrunw : Reaches Step fresh w :=
    (((hrun.snoc hstep).trans (hwaits.mono fun _ _ _ h => h.1)).snoc harmStep).trans
      (hleaves.mono fun _ _ _ h => h.1)
  obtain ⟨x, hx, hzero, hcalls⟩ := selfCue_answers hrunw hw (owing_of_leaves hleaves hw howing)
  exact ⟨x, hx, hzero, fun hwraps => (hcalls hwraps).symm ▸ arms_le_of_leaves hleaves hw⟩

/-- A cue before any arm: the first arm owes a cue, and the handler is called once when it makes
it. -/
theorem early_cue_answered : ∃ s, Reaches Step fresh s ∧ s.cq.arm = 1 ∧ s.arms = 1 ∧
    s.calls + s.cq.arm.toNat = s.arms ∧ ∃ x, s.Step (.selfCue 7) x ∧
      x.cq.arm = 0 ∧ 1 ≤ x.calls := by
  have hlive : fresh.Live := ⟨rfl, rfl⟩
  have h := notifications_conserved_iff .refl hlive
  obtain ⟨x, hx, hzero, hcalls⟩ := h.2.2 rfl .cue _ _ _ _ 7 trivial rfl .refl rfl .refl ⟨rfl, rfl⟩
  have hrun : Reaches Step fresh _ := Reaches.of_foldlM (l := [.cue, .arm 7]) rfl
  refine ⟨_, hrun, rfl, rfl, ?_, x, hx, hzero, hcalls ?_⟩
  · exact (notifications_conserved_iff hrun ⟨rfl, rfl⟩).1.2 rfl
  · cases hx
    rfl

def armedOnly (n : Nat) : NotifySys := ⟨⟨UInt32.ofNat n, false, true⟩, ∅, 0, n, n / 2 ^ 32, false⟩

lemma armedOnly_step (n : Nat) : (armedOnly n).Step (.arm 0) (armedOnly (n + 1)) := by
  have harm : (armedOnly n).cq.arm + 1 = (armedOnly (n + 1)).cq.arm := (UInt32.ofNat_add n 1).symm
  have hwraps : (if (armedOnly n).cq.arm.toNat + 1 = 2 ^ 32 then (armedOnly n).wraps + 1
      else (armedOnly n).wraps) = (armedOnly (n + 1)).wraps := by
    simp only [armedOnly, UInt32.toNat_ofNat']
    split <;> omega
  have hout : 0 ∉ (armedOnly n).owing := Finset.notMem_empty 0
  rw [Step, apply, if_neg hout, hwraps, cqArm, harm]
  rfl

lemma armedOnly_reaches (n : Nat) : Reaches Step fresh (armedOnly n) := by
  induction n with
  | zero => exact .refl
  | succ n ih => exact ih.snoc (armedOnly_step n)

/-- After 2³² arms without a cue, no notification was delivered and none is to be. -/
theorem arms_lost : ∃ s, Reaches Step fresh s ∧ s.Live ∧ s.arms = 2 ^ 32 ∧
    s.calls = 0 ∧ s.cq.arm = 0 ∧
    s.calls + s.cq.arm.toNat ≠ s.arms := by
  have hzero : UInt32.ofNat (2 ^ 32) = 0 := by decide
  refine ⟨armedOnly (2 ^ 32), armedOnly_reaches _, ⟨rfl, rfl⟩, rfl, rfl, hzero, ?_⟩
  simp only [armedOnly, hzero]
  decide

end NotifySys

end Ntrdma
