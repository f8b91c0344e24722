import Ntrdma.Lib.Run

/-!
# Doorbells

Model of a virtual doorbell: the peer writes the number of its rings into a buffer, scanners
(`ntrdma_dev_vbell_work`) carry it over to the head of the doorbell and call back what is armed
there, and a consumer clears the doorbell, processes its ring and arms the doorbell again.

A scanner reads the buffer, compares what it read with the head, and only then takes the lock of the
head to fire, so other scanners can run in between. A scanner that fires late takes the head back to
an older number: a consumer that cleared the doorbell at that number does not see that it rang
since.

C → Lean naming (drop the `ntrdma_` prefix): `ntrdma_vbell_clear` → `vbellClear`,
`ntrdma_vbell_readd` → `vbellReadd`, `ntrdma_vbell_head_fire` → `vbellHeadFire`.
-/

namespace Ntrdma
open Lib

structure VbellHead where
  seq : UInt32
  enabled : Bool

/-- The doorbell of a consumer (C `struct ntrdma_vbell`), in the list of its head while it is
armed. -/
structure Vbell where
  seq : UInt32
  arm : Bool
  enabled : Bool
  alive : Bool
  deriving DecidableEq, Repr

def vbellClear (head : VbellHead) (vbell : Vbell) : Vbell := { vbell with seq := head.seq }

/-- C `ntrdma_vbell_readd`: whether the consumer is called back, and the doorbell. -/
def vbellReadd (head : VbellHead) (vbell : Vbell) : Bool × Vbell :=
  if !vbell.alive then (false, vbell)
  else if vbell.arm then (false, vbell)
  else if vbell.seq != head.seq then (true, { vbell with seq := head.seq })
  else (false, { vbell with arm := true })

/-- C `ntrdma_vbell_head_fire_locked`, as far as this doorbell goes. -/
def vbellHeadFireLocked (head : VbellHead) (vbell : Vbell) : Bool × Vbell :=
  if vbell.arm && vbell.enabled then (true, { vbell with arm := false, seq := head.seq })
    else (false, vbell)

def vbellHeadFire (head : VbellHead) (vbell : Vbell) (vbellVal : UInt32) :
    Bool × VbellHead × Vbell :=
  if !head.enabled then (false, head, vbell)
  else if head.seq == vbellVal then (false, head, vbell)
  else
    let head := { head with seq := vbellVal }
    let (called, vbell) := vbellHeadFireLocked head vbell
    (called, head, vbell)

/-! ## Scanners and the consumer -/

/-- Where a scanner is in `ntrdma_dev_vbell_work`. It keeps the number of rings when it began. -/
inductive Scan where
  | idle
  | began (since : Nat)
  | read (since : Nat) (vbellVal : UInt32)
  | firing (since : Nat) (vbellVal : UInt32)
  deriving DecidableEq, Repr

inductive ConsumerPhase where
  | ready
  | cleared
  | processed
  deriving DecidableEq, Repr

/-- A doorbell. `scanned` is the largest number of rings before a scan that has ended; `noted` that
when the consumer was last called back or read its ring. -/
structure Doorbell where
  buf : UInt32
  head : VbellHead
  vbell : Vbell
  scans : Nat → Scan
  phase : ConsumerPhase
  scanned : Nat
  noted : Nat

inductive DoorbellAct where
  | ring
  | begin (i : Nat)
  | read (i : Nat)
  | compare (i : Nat)
  | fire (i : Nat)
  | clear
  | process
  | readd

namespace Doorbell

def setScan (s : Doorbell) (i : Nat) (scan : Scan) : Doorbell :=
  { s with scans := Function.update s.scans i scan }

def endScan (s : Doorbell) (i since : Nat) : Doorbell :=
  { s.setScan i .idle with scanned := max s.scanned since }

def note (s : Doorbell) (called : Bool) : Doorbell :=
  { s with noted := if called then s.buf.toNat else s.noted }

end Doorbell

/-- The doorbell after an action, where it can happen. The peer rings fewer than 2³² times. -/
def DoorbellAct.apply (s : Doorbell) : DoorbellAct → Option Doorbell
  | .ring => if s.buf.toNat + 1 < 2 ^ 32 then some { s with buf := s.buf + 1 } else none
  | .begin i =>
    match s.scans i with
    | .idle => some (s.setScan i (.began s.buf.toNat))
    | _ => none
  | .read i =>
    match s.scans i with
    | .began since => some (s.setScan i (.read since s.buf))
    | _ => none
  | .compare i =>
    match s.scans i with
    | .read since vbellVal =>
      some (if s.head.seq == vbellVal then s.endScan i since else s.setScan
        i (.firing since vbellVal))
    | _ => none
  | .fire i =>
    match s.scans i with
    | .firing since vbellVal =>
      let fired := vbellHeadFire s.head s.vbell vbellVal
      some (({ s with head := fired.2.1, vbell := fired.2.2 }.note fired.1).endScan i since)
    | _ => none
  | .clear =>
    if s.phase = .ready then some
      { s with vbell := vbellClear s.head s.vbell, phase := .cleared } else none
  | .process =>
    if s.phase = .cleared then some { s with noted := s.buf.toNat, phase := .processed } else none
  | .readd =>
    if s.phase = .processed then
      let added := vbellReadd s.head s.vbell
      some ({ s with vbell := added.2, phase := .ready }.note added.1)
    else none

def doorbellStep (s : Doorbell) (act : DoorbellAct) (t : Doorbell) : Prop := act.apply s = some t

/-- A doorbell when the link comes up: the buffer and the head are zero and nobody scans. -/
def Doorbell.start (vbell : Vbell) : Doorbell :=
  ⟨0, ⟨0, true⟩, vbell, fun _ => .idle, .ready, 0, 0⟩

def DoorbellAct.Safe (s : Doorbell) : DoorbellAct → Prop
  | .fire i => ∀ since vbellVal, s.scans i = .firing since vbellVal → s.head.seq ≤ vbellVal
  | _ => True

/-! ## No ring is lost -/

def Scan.Fresh (buf : UInt32) : Scan → Prop
  | .idle => True
  | .began since => since ≤ buf.toNat
  | .read since vbellVal => since ≤ vbellVal.toNat ∧ vbellVal.toNat ≤ buf.toNat
  | .firing since vbellVal => since ≤ vbellVal.toNat ∧ vbellVal.toNat ≤ buf.toNat

/-- The head has what every scan that ended has seen, and the consumer of an armed doorbell noted as
many rings. -/
structure Doorbell.Inv (s : Doorbell) : Prop where
  enabled : s.head.enabled = true ∧ s.vbell.enabled = true ∧ s.vbell.alive = true
  head_le : s.head.seq.toNat ≤ s.buf.toNat
  scans : ∀ i, (s.scans i).Fresh s.buf
  scanned_le : s.scanned ≤ s.head.seq.toNat
  noted_le : s.noted ≤ s.buf.toNat
  armed : s.vbell.arm = true → s.head.seq.toNat ≤ s.noted
  cleared : s.phase = .cleared → s.vbell.seq.toNat ≤ s.buf.toNat
  processed : s.phase = .processed → s.vbell.seq.toNat ≤ s.noted

section
variable {s t : Doorbell}

lemma Scan.Fresh.ring {buf buf' : UInt32} {scan : Scan} (h : scan.Fresh buf)
    (hle : buf.toNat ≤ buf'.toNat) : scan.Fresh buf' := by
  cases scan with
  | idle => trivial
  | began => exact h.trans hle
  | read => exact ⟨h.1, h.2.trans hle⟩
  | firing => exact ⟨h.1, h.2.trans hle⟩

lemma Doorbell.Inv.setScan (h : s.Inv) (i : Nat) (scan : Scan) (hscan : scan.Fresh s.buf) :
    (s.setScan i scan).Inv := by
  refine { h with scans := fun j => ?_ }
  simp only [Doorbell.setScan]
  by_cases hj : j = i
  · subst hj
    rwa [Function.update_self]
  · rw [Function.update_of_ne hj]
    exact h.scans j

lemma Doorbell.Inv.endScan (h : s.Inv) (i : Nat) {since : Nat} (hsince : since ≤ s.head.seq.toNat) :
    (s.endScan i since).Inv :=
  { h.setScan i .idle trivial with scanned_le := Nat.max_le.mpr ⟨h.scanned_le, hsince⟩ }

lemma Doorbell.Inv.fire (h : s.Inv) {vbellVal : UInt32} (hle : s.head.seq ≤ vbellVal)
    (hbuf : vbellVal.toNat ≤ s.buf.toNat) {fired : Bool × VbellHead × Vbell}
    (hfire : vbellHeadFire s.head s.vbell vbellVal = fired) :
    ({ s with head := fired.2.1, vbell := fired.2.2 }.note fired.1).Inv ∧
      fired.2.1.seq = vbellVal := by
  rw [UInt32.le_iff_toNat_le] at hle
  obtain ⟨henabled, hvenabled, halive⟩ := h.enabled
  simp only [vbellHeadFire, henabled, Bool.not_true, Bool.false_eq_true, if_false] at hfire
  split at hfire
  next heq =>
    subst hfire
    exact ⟨h, eq_of_beq heq⟩
  · simp only [vbellHeadFireLocked, hvenabled, Bool.and_true] at hfire
    split at hfire
    · -- the doorbell was armed: the consumer is called back, and notes every ring so far
      subst hfire
      exact ⟨⟨⟨rfl, rfl, halive⟩, hbuf, h.scans, h.scanned_le.trans hle, Nat.le_refl _, nofun,
        fun _ => hbuf, fun _ => hbuf⟩, rfl⟩
    next harm =>
      subst hfire
      exact ⟨⟨⟨rfl, hvenabled, halive⟩, hbuf, h.scans, h.scanned_le.trans hle, h.noted_le,
        fun harm' => absurd harm' harm, h.cleared, h.processed⟩, rfl⟩

lemma Doorbell.Inv.readd (h : s.Inv) (hphase : s.phase = .processed) {added : Bool × Vbell}
    (hreadd : vbellReadd s.head s.vbell = added) :
    ({ s with vbell := added.2, phase := .ready }.note added.1).Inv := by
  obtain ⟨henabled, hvenabled, halive⟩ := h.enabled
  simp only [vbellReadd, halive, Bool.not_true, Bool.false_eq_true, if_false] at hreadd
  split at hreadd
  · subst hreadd
    exact { h with cleared := nofun, processed := nofun }
  next harm =>
    split at hreadd
    · subst hreadd
      exact ⟨⟨henabled, hvenabled, rfl⟩, h.head_le, h.scans, h.scanned_le, Nat.le_refl _,
        fun harm' => absurd harm' harm, nofun, nofun⟩
    · -- nothing fired since the doorbell was cleared, before the consumer read its ring
      rename_i hseq
      subst hreadd
      have heq : s.vbell.seq = s.head.seq := by simpa using hseq
      refine ⟨⟨henabled, hvenabled, rfl⟩, h.head_le, h.scans, h.scanned_le, h.noted_le, fun _ => ?_,
        nofun, nofun⟩
      show s.head.seq.toNat ≤ s.noted
      rw [← heq]
      exact h.processed hphase

lemma doorbellStep_inv {act : DoorbellAct} (h : s.Inv) (hsafe : act.Safe s)
    (hstep : doorbellStep s act t) : t.Inv := by
  cases act with
  | ring =>
    obtain ⟨hlt, ⟨⟩⟩ := Option.ite_none_right_eq_some.mp hstep
    have hbuf : (s.buf + 1).toNat = s.buf.toNat + 1 := by
      rw [UInt32.toNat_add, UInt32.toNat_one, Nat.mod_eq_of_lt hlt]
    have hle : s.buf.toNat ≤ (s.buf + 1).toNat := by omega
    exact ⟨h.enabled, h.head_le.trans hle, fun i => (h.scans i).ring hle,
      h.scanned_le, h.noted_le.trans hle,
      h.armed, fun hphase => (h.cleared hphase).trans hle, h.processed⟩
  | begin i =>
    simp only [doorbellStep, DoorbellAct.apply] at hstep
    split at hstep <;> cases hstep
    exact h.setScan i (.began _) (Nat.le_refl _)
  | read i =>
    have hfresh := h.scans i
    simp only [doorbellStep, DoorbellAct.apply] at hstep
    split at hstep <;> cases hstep
    rename_i since hscan
    rw [hscan] at hfresh
    exact h.setScan i (.read since s.buf) ⟨hfresh, Nat.le_refl _⟩
  | compare i =>
    have hfresh := h.scans i
    simp only [doorbellStep, DoorbellAct.apply] at hstep
    split at hstep <;> cases hstep
    rename_i since vbellVal hscan
    rw [hscan] at hfresh
    split
    next heq =>
      refine h.endScan i ?_
      rw [eq_of_beq heq]
      exact hfresh.1
    · exact h.setScan i (.firing since vbellVal) hfresh
  | fire i =>
    have hfresh := h.scans i
    simp only [doorbellStep, DoorbellAct.apply] at hstep
    split at hstep <;> cases hstep
    rename_i since vbellVal hscan
    rw [hscan] at hfresh
    obtain ⟨hinv, hseq⟩ := h.fire (hsafe since vbellVal hscan) hfresh.2 rfl
    refine hinv.endScan i ?_
    rw [← hseq] at hfresh
    exact hfresh.1
  | clear =>
    obtain ⟨-, ⟨⟩⟩ := Option.ite_none_right_eq_some.mp hstep
    exact { h with cleared := fun _ => h.head_le, processed := nofun }
  | process =>
    obtain ⟨hphase, ⟨⟩⟩ := Option.ite_none_right_eq_some.mp hstep
    exact ⟨h.enabled, h.head_le, h.scans, h.scanned_le, Nat.le_refl _, fun _ => h.head_le, nofun,
      fun _ => h.cleared hphase⟩
  | readd =>
    obtain ⟨hphase, ⟨⟩⟩ := Option.ite_none_right_eq_some.mp hstep
    exact h.readd hphase rfl

lemma Doorbell.start_inv {vbell : Vbell} (henabled : vbell.enabled = true)
    (halive : vbell.alive = true) : (Doorbell.start vbell).Inv :=
  ⟨⟨rfl, henabled, halive⟩, Nat.le_refl _, fun _ => trivial, Nat.le_refl _, Nat.le_refl _,
    fun _ => Nat.le_refl _, nofun, nofun⟩

end

/-- Where no scanner fires a number older than that of the head, a doorbell is armed only if its
consumer was called back or read its ring after every ring that a scan has seen. -/
theorem doorbellRun_noLost {vbell : Vbell} {s : Doorbell} (henabled : vbell.enabled = true)
    (halive : vbell.alive = true)
    (hrun : Reaches (fun s act t => act.Safe s ∧ doorbellStep s act t) (Doorbell.start vbell) s)
    (harm : s.vbell.arm = true) : s.scanned ≤ s.noted := by
  have hinv : s.Inv := by
    refine hrun.invariant (I := Doorbell.Inv) (Doorbell.start_inv henabled halive)
      fun s act t hs hstep => ?_
    exact doorbellStep_inv hs hstep.1 hstep.2
  exact hinv.scanned_le.trans (hinv.armed harm)

def armedBell : Vbell := ⟨0, true, true, true⟩

/-- A scanner that read the first ring fires it again after the second was scanned: the consumer
arms the doorbell, and nobody told it of the second. -/
theorem doorbell_lost :
    ∃ s, Reaches doorbellStep (Doorbell.start armedBell) s ∧ s.vbell.arm = true ∧ s.scanned = 2 ∧
      s.noted = 1 := by
  let acts : List DoorbellAct :=
    [.ring, .begin 0, .read 0, .compare 0, .begin 1, .read 1, .compare 1, .fire 0, .clear, .process,
      .ring, .begin 2, .read 2, .compare 2, .fire 2, .fire 1, .readd]
  exact ⟨_, Reaches.of_foldlM (l := acts) rfl, by decide, by decide, by decide⟩

theorem doorbellRun_noLost_once :
    ∃ s, Reaches (fun s act t => DoorbellAct.Safe s act ∧ doorbellStep s act t)
      (Doorbell.start armedBell) s ∧
      s.vbell.arm = true ∧ s.scanned = 1 ∧ s.scanned ≤ s.noted := by
  have hstart : Reaches (fun s act t => DoorbellAct.Safe s act ∧ doorbellStep s act t)
      (Doorbell.start armedBell) (Doorbell.start armedBell) := Reaches.refl
  have hscan := hstart.snoc (a := DoorbellAct.ring) ⟨trivial, rfl⟩
    |>.snoc (a := DoorbellAct.begin 0) ⟨trivial, rfl⟩ |>.snoc
      (a := DoorbellAct.read 0) ⟨trivial, rfl⟩
    |>.snoc (a := DoorbellAct.compare 0) ⟨trivial, rfl⟩
    |>.snoc (a := DoorbellAct.fire 0) ⟨fun _ _ _ => UInt32.zero_le, rfl⟩
  have hrun := hscan.snoc (a := DoorbellAct.clear) ⟨trivial, rfl⟩
    |>.snoc (a := DoorbellAct.process) ⟨trivial, rfl⟩ |>.snoc
      (a := DoorbellAct.readd) ⟨trivial, rfl⟩
  exact ⟨_, hrun, by decide, by decide, doorbellRun_noLost rfl rfl hrun (by decide)⟩

end Ntrdma
