import Ntrdma.Qp.State

/-!
# Modifying the attributes of a queue pair

`ntrdma_modify_qp_local` takes a state, access flags and the number of the peer's queue pair in one
call. This module has the function with the race it guards against: the state is read at the start
(`curState`), and `modify_qp_state` exchanges it only if nobody changed it since. Where nobody did,
the function is `modifyQpLocal`.

The result is about a call as a whole: either every selected attribute has its value afterwards, or
the call fails and changes none of them. Two exits of the source report success before any attribute
is written.
-/

namespace Ntrdma

/-- C `modify_qp_state`: the state is exchanged only if it is still `curState`. -/
def modifyQpStateFrom (qp : Qp) (curState newState : QpState) : Except Errno Unit × Qp :=
  if qp.state ≠ curState then (.error .einval, qp) else (.ok (), modifyQpState qp newState)

/-- C `_ntrdma_modify_qp_local`, where `curState` is the state as read at the start. -/
def modifyQpLocalFrom (obj : QpObj) (curState : QpState) (attr : QpAttr) :
    Except Errno Unit × QpObj :=
  if attr.has qpMaskCurState && attr.curQpState != curState then (.error .einval, obj)
  else if attr.mask &&& ~~~qpMaskSupported != 0 then (.error .einval, obj)
  else if attr.has qpMaskState &&
      (attr.qpState == .sqd && curState == .err || attr.qpState == curState) then (.ok (), obj)
  else
    let (rc, qp) :=
      if attr.has qpMaskState then modifyQpStateFrom obj.qp curState
        attr.qpState else (.ok (), obj.qp)
    let obj := { obj with qp }
    match rc with
    | .error e => (.error e, obj)
    | .ok _ =>
      let obj := if attr.has qpMaskAccessFlags then
        { obj with access := attr.qpAccessFlags } else obj
      (.ok (), if attr.has qpMaskDestQpn then { obj with rqpKey := attr.destQpNum } else obj)

lemma modifyQpLocalFrom_state (obj : QpObj) (attr : QpAttr) :
    modifyQpLocalFrom obj obj.qp.state attr = modifyQpLocal obj attr := by
  simp only [modifyQpLocalFrom, modifyQpLocal, modifyQpStateFrom, ne_eq,
    not_true_eq_false, if_false]
  cases attr.has qpMaskState <;> rfl

/-- Every attribute that the mask selects has the requested value. -/
structure QpAttr.SetIn (attr : QpAttr) (obj : QpObj) : Prop where
  state : attr.has qpMaskState = true → obj.qp.state = attr.qpState
  access : attr.has qpMaskAccessFlags = true → obj.access = attr.qpAccessFlags
  dest : attr.has qpMaskDestQpn = true → obj.rqpKey = attr.destQpNum

structure QpObj.SameAttrs (obj obj' : QpObj) : Prop where
  state : obj'.qp.state = obj.qp.state
  access : obj'.access = obj.access
  dest : obj'.rqpKey = obj.rqpKey

def AllOrNothing (obj : QpObj) (curState : QpState) (attr : QpAttr) : Prop :=
  match modifyQpLocalFrom obj curState attr with
  | (.ok _, obj') => attr.SetIn obj'
  | (.error _, obj') => obj.SameAttrs obj'

def QpAttr.Checked (attr : QpAttr) (curState : QpState) : Prop :=
  (attr.has qpMaskCurState = true → attr.curQpState = curState) ∧
    attr.mask &&& ~~~qpMaskSupported = 0

def QpAttr.LeavesEarly (attr : QpAttr) (curState : QpState) : Prop :=
  attr.has qpMaskState = true ∧ (attr.qpState = .sqd ∧ curState = .err ∨ attr.qpState = curState)

/-- What a call does: it fails and changes nothing, leaves early, or sets what is selected. -/
inductive ModifyOutcome (obj : QpObj) (curState : QpState) (attr : QpAttr) :
    Except Errno Unit × QpObj → Prop
  | refused : ¬ attr.Checked curState → ModifyOutcome obj curState attr (.error .einval, obj)
  | early : attr.Checked curState → attr.LeavesEarly curState →
    ModifyOutcome obj curState attr (.ok (), obj)
  | raced : attr.Checked curState → ¬ attr.LeavesEarly curState →
    ModifyOutcome obj curState attr (.error .einval, obj)
  | set {obj'} : attr.Checked curState → ¬ attr.LeavesEarly curState → attr.SetIn obj' →
    ModifyOutcome obj curState attr (.ok (), obj')

lemma setIn_of_state {attr : QpAttr} {obj : QpObj}
    (h : attr.has qpMaskState = true → obj.qp.state = attr.qpState) :
    attr.SetIn (if attr.has qpMaskDestQpn then
      { (if attr.has qpMaskAccessFlags then { obj with access := attr.qpAccessFlags } else obj) with
        rqpKey := attr.destQpNum }
      else if attr.has qpMaskAccessFlags then
        { obj with access := attr.qpAccessFlags } else obj) := by
  cases hdest : attr.has qpMaskDestQpn <;> cases haccess : attr.has qpMaskAccessFlags <;>
    exact ⟨h, by simp [haccess], by simp [hdest]⟩

lemma modifyQpLocalFrom_outcome (obj : QpObj) (curState : QpState) (attr : QpAttr) :
    ModifyOutcome obj curState attr (modifyQpLocalFrom obj curState attr) := by
  simp only [modifyQpLocalFrom]
  split
  next hcur =>
    refine .refused fun hchecked => ?_
    simp only [Bool.and_eq_true, bne_iff_ne] at hcur
    exact hcur.2 (hchecked.1 hcur.1)
  rename_i hcur
  split
  next hmask =>
    refine .refused fun hchecked => ?_
    simp only [bne_iff_ne] at hmask
    exact hmask hchecked.2
  rename_i hmask
  have hchecked : attr.Checked curState := ⟨by simpa using hcur, by simpa using hmask⟩
  split
  next hearly =>
    simp only [Bool.and_eq_true, Bool.or_eq_true, beq_iff_eq] at hearly
    exact .early hchecked hearly
  rename_i hearly
  simp only [Bool.and_eq_true, Bool.or_eq_true, beq_iff_eq] at hearly
  cases hstate : attr.has qpMaskState with
  | false =>
    refine .set hchecked hearly (setIn_of_state ?_)
    rintro h
    exact absurd (hstate.symm.trans h) Bool.false_ne_true
  | true =>
    by_cases hrace : obj.qp.state ≠ curState
    · have hfrom : modifyQpStateFrom obj.qp curState attr.qpState =
        (.error .einval, obj.qp) := if_pos hrace
      rw [if_pos rfl, hfrom]
      exact .raced hchecked hearly
    · have hfrom : modifyQpStateFrom obj.qp curState attr.qpState =
        (.ok (), modifyQpState obj.qp attr.qpState) := if_neg hrace
      rw [if_pos rfl, hfrom]
      refine .set hchecked hearly (setIn_of_state fun _ => ?_)
      rw [modifyQpState_eq]

/-- A call is all or nothing unless it leaves early with a selected attribute that has another
value. -/
theorem modify_all_or_nothing_iff (obj : QpObj) (curState : QpState) (attr : QpAttr) :
    AllOrNothing obj curState attr ↔
      ¬ (attr.Checked curState ∧ attr.LeavesEarly curState ∧ ¬ attr.SetIn obj) := by
  rw [AllOrNothing]
  have hout := modifyQpLocalFrom_outcome obj curState attr
  generalize modifyQpLocalFrom obj curState attr = res at hout
  cases hout with
  | refused h => exact ⟨fun _ hbad => h hbad.1, fun _ => ⟨rfl, rfl, rfl⟩⟩
  | early hchecked hearly =>
    exact ⟨fun hset hbad => hbad.2.2 hset, fun hgood => not_not.1 fun hset =>
      hgood ⟨hchecked, hearly, hset⟩⟩
  | raced _ hearly => exact ⟨fun _ hbad => hearly hbad.2.1, fun _ => ⟨rfl, rfl, rfl⟩⟩
  | set _ hearly hset => exact ⟨fun _ hbad => hearly hbad.2.1, fun _ => hset⟩

def lonely (state : QpState) : QpObj := ⟨{ Qp.fresh 4 with state }, 0, 0⟩

/-- What `ntrdma_accept` asks for: the state `RTS` and the peer's queue pair. -/
def acceptAttr (destQpNum : UInt32) : QpAttr :=
    ⟨qpMaskState ||| qpMaskDestQpn, .rts, .reset, 0, destQpNum⟩

def drainAttr : QpAttr := ⟨qpMaskState, .sqd, .reset, 0, 0⟩

/-- Two calls return 0 with an attribute not set: `ntrdma_accept` on a ready queue pair leaves the
destination, and a drain in error leaves the state. -/
theorem modify_succeeds_unset :
    (modifyQpLocalFrom (lonely .rts) .rts (acceptAttr 7) = (.ok (), lonely .rts) ∧
      ¬ AllOrNothing (lonely .rts) .rts (acceptAttr 7)) ∧
    (modifyQpLocalFrom (lonely .err) .err drainAttr = (.ok (), lonely .err) ∧
      ¬ AllOrNothing (lonely .err) .err drainAttr) := by
  refine ⟨⟨rfl, fun h => ?_⟩, rfl, fun h => ?_⟩
  · exact absurd (QpAttr.SetIn.dest h rfl) (by decide)
  · exact absurd (QpAttr.SetIn.state h rfl) (by decide)

end Ntrdma
