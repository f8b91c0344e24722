import Ntrdma.Link.Callbacks

/-!
# Both sides of the link

The two sides of the link with the memory between them. What a side writes to its peer arrives in
order and at any time later, so that a side sees some part of what the other wrote, and whatever was
written before an announcement is seen with it. The poll timer picks up the announced state at any
time and misses those in between; the link work then goes by it, at any time later. The link may be
lost (the poll then takes the peer for quiescing), and anything may fail.

An announcement says nothing about the session it belongs to. Both sides may therefore be in a hello
that only one of them started over, which is what the results on the link are about.
-/

namespace Ntrdma
open Lib

/-! ## The system -/

/-- One side with the number of writes of the peer that arrived (`view`), that when it was last
reset (`mark`), if it polled since, and the sessions whose outputs it read. -/
structure LinkNode where
  dev : LinkDev
  view : Nat
  mark : Nat
  polled : Bool
  inputs : List Nat

abbrev Link := Bool → LinkNode

def LinkWrite.msg? : LinkWrite → Option Nat
  | ping msg => some msg
  | _ => none

/-- The value that a write gives the flag `done`. -/
def LinkWrite.flag? : LinkWrite → Option Bool
  | done flag => some flag
  | _ => none

lemma LinkWrite.eq_done_of_flag {write : LinkWrite} {flag : Bool} (h : write.flag? = some flag) :
    write = .done flag := by
  cases write with
  | done => rw [Option.some.inj h]
  | ping => cases h
  | hello => cases h

/-- What memory that holds `init` at first holds after the writes, as far as they are to it. -/
def lastWritten {α : Type} (read : LinkWrite → Option α) (init : α) (writes : List Stamped) : α :=
  writes.foldl (fun last w => (read w.write).getD last) init

def lastPing (writes : List Stamped) : Nat := lastWritten LinkWrite.msg? linkQuiesce writes

def lastDone (writes : List Stamped) : Bool := lastWritten LinkWrite.flag? false writes

/-- The write is to a half of the hello buffer: that of the even phases (0) or of the odd ones
(1). -/
def Stamped.inHalf (w : Stamped) (half : Nat) : Bool :=
  match w.write with
  | .hello phase _ => phase % 2 == half
  | _ => false

def lastInHalf (half : Nat) (writes : List Stamped) : Option Stamped :=
  (writes.filter fun w => w.inHalf half).getLast?

section
variable {α : Type} {read : LinkWrite → Option α} {init value : α}
    {l l' : List Stamped} {w : Stamped}

lemma lastWritten_append (h : ∀ w ∈ l', read w.write = none) :
    lastWritten read init (l ++ l') = lastWritten read init l := by
  induction l' generalizing l with
  | nil => rw [List.append_nil]
  | cons w _ ih =>
    rw [List.append_cons, ih fun w' hw' => h w' (List.mem_cons_of_mem _ hw'),
      lastWritten, List.foldl_append,
      List.foldl_cons, List.foldl_nil, h w (List.mem_cons_self ..)]
    rfl

lemma lastWritten_append_cons (hw : read w.write = some value) (h : ∀ w ∈ l', read w.write = none) :
    lastWritten read init (l ++ w :: l') = value := by
  rw [List.append_cons, lastWritten_append h, lastWritten, List.foldl_append,
    List.foldl_cons, List.foldl_nil, hw]
  rfl

lemma exists_last_write (h : ∃ w ∈ l, (read w.write).isSome) :
    ∃ before w after, l = before ++ w :: after ∧ (read w.write).isSome ∧
      ∀ w ∈ after, read w.write = none := by
  induction l with
  | nil =>
    obtain ⟨w, hw, -⟩ := h
    cases hw
  | cons w l ih =>
    by_cases hl : ∃ w ∈ l, (read w.write).isSome
    · obtain ⟨before, w', after, rfl, hw', hafter⟩ := ih hl
      exact ⟨w :: before, w', after, rfl, hw', hafter⟩
    · obtain ⟨w', hw', hsome⟩ := h
      simp only [not_exists, not_and, Bool.not_eq_true, Option.isSome_eq_false_iff,
        Option.isNone_iff_eq_none] at hl
      obtain rfl | hmem := List.mem_cons.mp hw'
      · exact ⟨[], w', l, rfl, hsome, hl⟩
      · rw [hl w' hmem] at hsome
        cases hsome

end

namespace Link

def arrived (s : Link) (x : Bool) : List Stamped := (s (!x)).dev.out.take (s x).view

/-- A write arrives, the poll timer picks up a state or takes the link for lost, the link work
begins or goes on, or a reset is requested. -/
inductive Act where
  | arrive
  | poll
  | lose
  | begin
  | step (ok : Bool) (dbAddr : Bool := true)
  | error
  deriving DecidableEq, Repr

def record (s : Link) (x : Bool) (dev : LinkDev) : LinkNode :=
  if dev.resetCnt ≠ (s x).dev.resetCnt then ⟨dev, (s x).view, (s (!x)).dev.out.length, false, []⟩
  else if dev.inHello && !(s x).dev.inHello && 1 ≤ dev.phase && dev.phase ≤ 3 then
    let input := (lastInHalf ((dev.phase - 1) % 2) (s.arrived x)).map Stamped.sess
    { s x with dev, inputs := (s x).inputs ++ input.toList }
  else { s x with dev }

def act (s : Link) (x : Bool) : Act → Option LinkNode
  | .arrive =>
    if (s x).view < (s (!x)).dev.out.length then some { s x with view := (s x).view + 1 } else none
  | .poll =>
    some { s x with dev := { (s x).dev with pollMsg := lastPing (s.arrived x) }, polled := true }
  | .lose => some { s x with dev := { (s x).dev with pollMsg := linkQuiesce } }
  | .begin => (LinkEvent.begin.apply (s x).dev).map fun dev => { s x with dev }
  | .step ok dbAddr =>
    ((LinkEvent.step (lastDone (s.arrived x)) ok dbAddr).apply (s x).dev).map (s.record x)
  | .error => (LinkEvent.error.apply (s x).dev).map fun dev => { s x with dev }

def apply (s : Link) (a : Bool × Act) : Option Link :=
  (s.act a.1 a.2).map fun node => Function.update s a.1 node

def Step (s : Link) (a : Bool × Act) (t : Link) : Prop := s.apply a = some t

def start : Link := fun _ => ⟨LinkDev.start, 0, 0, false, []⟩

/-- A poll that finds the state which the peer announced last: no announcement is under way. -/
def Current (s : Link) (x : Bool) : Prop :=
  ∀ w ∈ (s (!x)).dev.out.drop (s x).view, w.write.msg? = none

/-- The steps in which every poll is of the current state. It is still acted upon late. -/
def PromptStep (s : Link) (a : Bool × Act) (t : Link) : Prop :=
  s.Step a t ∧ (a.2 = .poll → s.Current a.1)

instance (s : Link) (x : Bool) : Decidable (s.Current x) := inferInstanceAs (Decidable (∀ w ∈ _, _))

def promptApply (s : Link) (a : Bool × Act) : Option Link :=
  if a.2 = .poll → s.Current a.1 then s.apply a else none

variable {s t : Link} {a : Bool × Act}

lemma promptStep_of_apply (h : s.promptApply a = some t) : s.PromptStep a t := by
  rw [promptApply] at h
  split at h
  next hcur => exact ⟨h, hcur⟩
  next => cases h

/-- Those in which, besides, no call of the link work goes by a poll from before the own reset. -/
def SteadyStep (s : Link) (a : Bool × Act) (t : Link) : Prop :=
  s.PromptStep a t ∧ (a.2 = .begin → (s a.1).polled = true ∨ (s a.1).dev.pollMsg = linkQuiesce)

def steadyApply (s : Link) (a : Bool × Act) : Option Link :=
  if a.2 = .begin → (s a.1).polled = true ∨ (s a.1).dev.pollMsg =
    linkQuiesce then s.promptApply a else none

lemma steadyStep_of_apply (h : s.steadyApply a = some t) : s.SteadyStep a t := by
  rw [steadyApply] at h
  split at h
  next hpolled => exact ⟨promptStep_of_apply h, hpolled⟩
  next => cases h

/-! ## Steps of one side -/

section
variable {s t : Link} {x : Bool} {a : Act}

lemma both_sides {I : Bool → Prop} (hown : I x) (hpeer : I (!x)) (z : Bool) : I z := by
  cases x <;> cases z <;> assumption

lemma Step.node (h : s.Step (x, a) t) : s.act x a = some (t x) ∧ t (!x) = s (!x) := by
  obtain ⟨node, hnode, rfl⟩ := Option.map_eq_some_iff.mp h
  refine ⟨?_, ?_⟩
  · simpa using hnode
  · cases x <;> rfl

@[simp] lemma record_dev (dev : LinkDev) : (s.record x dev).dev = dev := by
  rw [record]
  split
  · rfl
  · split <;> rfl

lemma act_dev {node : LinkNode} (h : s.act x a = some node) :
    (∃ ev, devStep (s x).dev ev node.dev) ∨ node.dev = (s x).dev := by
  cases a with
  | arrive =>
    simp only [act] at h
    split at h
    · cases h
      exact .inr rfl
    · cases h
  | poll =>
    cases h
    exact .inl ⟨.poll _, rfl⟩
  | lose =>
    cases h
    exact .inl ⟨.poll _, rfl⟩
  | begin =>
    obtain ⟨dev, hdev, rfl⟩ := Option.map_eq_some_iff.mp h
    exact .inl ⟨.begin, hdev⟩
  | step =>
    obtain ⟨dev, hdev, rfl⟩ := Option.map_eq_some_iff.mp h
    rw [record_dev]
    exact .inl ⟨_, hdev⟩
  | error =>
    obtain ⟨dev, hdev, rfl⟩ := Option.map_eq_some_iff.mp h
    exact .inl ⟨.error, hdev⟩

lemma dev_invariant {I : LinkDev → Prop} (hstart : I LinkDev.start)
    (hstep : ∀ dev ev dev', I dev → devStep dev ev dev' → I dev') (hrun : Reaches Step start s) :
    ∀ x, I (s x).dev := by
  refine hrun.invariant (I := fun s => ∀ x, I (s x).dev) (fun _ => hstart) fun s a t h ht => ?_
  obtain ⟨x, a⟩ := a
  obtain ⟨hnode, hother⟩ := ht.node
  refine both_sides (x := x) ?_ (hother ▸ h (!x))
  obtain ⟨ev, hev⟩ | heq := act_dev hnode
  · exact hstep _ ev _ (h x) hev
  · exact heq ▸ h x

lemma orderly (hrun : Reaches Step start s) (x : Bool) : (s x).dev.Orderly :=
  dev_invariant LinkDev.start_orderly (fun _ _ _ h hstep => devStep_orderly h hstep) hrun x

end

/-! ## Runs -/

/-- A side sees `n` more writes, and polls. -/
def look (x : Bool) (n : Nat) : List (Bool × Act) := List.replicate n (x, .arrive) ++ [(x, .poll)]

def steps (x : Bool) (k : Nat) : List (Bool × Act) := List.replicate k (x, .step true)

/-- The link work of a side begins and takes `k` steps. -/
def work (x : Bool) (k : Nat) : List (Bool × Act) := (x, .begin) :: steps x k

def hear (x : Bool) (n k : Nat) : List (Bool × Act) := look x n ++ work x k

def restart (x : Bool) : List (Bool × Act) := (x, .error) :: work x 2

def bothUp : List (Bool × Act) :=
  hear false 1 2 ++ hear true 2 3 ++ hear false 2 3 ++ hear true 3 3 ++
    hear false 3 3 ++ hear true 2 4 ++
    hear false 4 5 ++ hear true 6 5 ++ hear false 6 5 ++ hear true 5 3 ++ hear false 2 1

end Link

end Ntrdma
