import Ntrdma.Cmd.Recv

/-!
# A command that changes while it is handled

The slots of the command ring are memory that the peer writes at any time, so two reads of one field
of a command may differ. `ntrdma_cmd_recv_qp_modify` copies the command, checks the copy and reports
the key of the copy, but hands the fields of the slot itself, read once more, to
`ntrmda_rqp_modify_local`.

Here the slot is a sequence: what it holds at each of the reads of the handler. A state is the word
that the source stores, which need not be one of `enum ib_qp_state`. With a slot that does not
change the handler is that of `Ntrdma.cmdRecvQpModify` (`cmdRecvQpModifySlot_const`).
-/

namespace Ntrdma

/-- The fields of `struct ntrdma_rqp` that a modification writes. -/
structure WordRqp where
  state : UInt32
  access : UInt32
  qpKey : UInt32

/-- The states of the queue pairs of a host, and the queue pairs of its peer. -/
structure WordHost where
  qps : UInt32 → Option UInt32
  rqps : UInt32 → Option WordRqp

/-- C `is_state_valid`, of a state that arrives as an unsigned word. -/
def isStateValidWord (state : UInt32) : Bool := state ≤ 6

def isStateErrorWord (state : UInt32) : Bool := state == 6 || state == 5

/-- What `ntrmda_rqp_modify_local` does to the queue pair of the peer. -/
def WordRqp.modify (rqp : WordRqp) (access newState destQpKey : UInt32) : WordRqp :=
  let rqp := { rqp with state := newState }
  let rqp := if access ≠ 0 then { rqp with access } else rqp
  if !isStateErrorWord newState then { rqp with qpKey := destQpKey } else rqp

def rqpModifyLocalWord (host : WordHost) (srcQpKey access newState destQpKey : UInt32) :
    Except Errno Unit × WordHost :=
  match host.rqps srcQpKey with
  | none => (.error .einval, host)
  | some rqp =>
    let rqp := rqp.modify access newState destQpKey
    let host := { host with rqps := Function.update host.rqps srcQpKey (some rqp) }
    if isStateErrorWord newState && rqp.qpKey == destQpKey then
      match host.qps destQpKey with
      | none => (.ok (), host)
      | some _ => (.ok (), { host with qps := Function.update host.qps destQpKey (some newState) })
    else (.ok (), host)

def Slot : Type := Nat → CmdQpModify

def Slot.copy (slot : Slot) : CmdQpModify :=
  ⟨(slot 0).srcQpKey, (slot 1).access, (slot 2).state, (slot 3).destQpKey⟩

def Slot.again (slot : Slot) : CmdQpModify :=
  ⟨(slot 4).srcQpKey, (slot 5).access, (slot 6).state, (slot 7).destQpKey⟩

/-- A modification that was handled: the result, the response, the host, and the key of the queue
pair that was modified. -/
structure ModifyDone where
  rc : Except Errno Unit
  rsp : Rsp
  host : WordHost
  modified : UInt32

def cmdRecvQpModifySlot (host : WordHost) (hdr : CmdHdr) (slot : Slot) (rsp : Rsp) : ModifyDone :=
  let cmd := slot.copy
  let rsp := rsp.head hdr.cmdId cmdQpModify cmd.srcQpKey
  if cmd.access > maxSumAccessFlags || !isStateValidWord cmd.state then
    ⟨.error .einval, rsp, host, cmd.srcQpKey⟩
  else
    let arg := slot.again
    let (rc, host) := rqpModifyLocalWord host arg.srcQpKey arg.access arg.state arg.destQpKey
    ⟨rc, rsp.setStatus (statusOf rc), host, arg.srcQpKey⟩

/-! ## The slot that stays as it is -/

def QpState.word : QpState → UInt32
  | .reset => 0
  | .init => 1
  | .rtr => 2
  | .rts => 3
  | .sqd => 4
  | .sqe => 5
  | .err => 6

def Host.words (host : Host) : WordHost where
  qps key := (host.qps key).map fun obj => obj.qp.state.word
  rqps key := (host.rqps key).map fun robj => ⟨robj.rqp.state.word, robj.access, robj.qpKey⟩

variable {state : UInt32}

lemma qpStateOf_word {s : QpState} (h : qpStateOf state = some s) : s.word = state := by
  unfold qpStateOf at h
  iterate 7
    split at h
    next heq => rw [← Option.some.inj h, heq]; rfl
  cases h

lemma qpStateOf_eq_none (h : qpStateOf state = none) : isStateValidWord state = false := by
  unfold qpStateOf at h
  split_ifs at h with h0 h1 h2 h3 h4 h5 h6
  simp only [← UInt32.toNat_inj] at h0 h1 h2 h3 h4 h5 h6
  rw [isStateValidWord, decide_eq_false_iff_not, UInt32.le_iff_toNat_le]
  simp only [UInt32.reduceToNat] at h0 h1 h2 h3 h4 h5 h6 ⊢
  omega

lemma isStateValidWord_word (s : QpState) : isStateValidWord s.word = true := by cases s <;> rfl

lemma isStateErrorWord_word (s : QpState) : isStateErrorWord s.word =
    isStateError s := by cases s <;> rfl

lemma Host.setRqp_words (host : Host) (key : UInt32) (robj : RqpObj) :
    (host.setRqp key robj).words =
      { host.words with
        rqps := Function.update host.words.rqps key
          (some ⟨robj.rqp.state.word, robj.access, robj.qpKey⟩) } := by
  simp only [Host.words, Host.setRqp, WordHost.mk.injEq, true_and]
  funext k
  by_cases hk : k = key
  · subst hk
    simp
  · simp [Function.update_of_ne hk]

lemma Host.setQp_words (host : Host) (key : UInt32) (obj : QpObj) :
    (host.setQp key obj).words =
      { host.words with qps := Function.update host.words.qps key (some obj.qp.state.word) } := by
  simp only [Host.words, Host.setQp, WordHost.mk.injEq, and_true]
  funext k
  by_cases hk : k = key
  · subst hk
    simp
  · simp [Function.update_of_ne hk]

lemma rqpModifyLocalWord_word (host : Host) (srcQpKey access destQpKey : UInt32) (s : QpState) :
    rqpModifyLocalWord host.words srcQpKey access s.word destQpKey =
      ((rqpModifyLocal host srcQpKey access s destQpKey).1,
        (rqpModifyLocal host srcQpKey access s destQpKey).2.words) := by
  simp only [rqpModifyLocalWord, rqpModifyLocal, WordRqp.modify, isStateErrorWord_word]
  cases hrobj : host.rqps srcQpKey with
  | none => simp [Host.words, hrobj]
  | some robj =>
    have hword : host.words.rqps srcQpKey = some
        ⟨robj.rqp.state.word, robj.access, robj.qpKey⟩ := by
      simp [Host.words, hrobj]
    simp only [hword]
    have hqps : ∀ robj', (host.setRqp srcQpKey robj').qps = host.qps := fun _ => rfl
    by_cases haccess : access = 0
    all_goals
      cases herr : isStateError s with
      | false => simp [haccess, Host.setRqp_words]
      | true =>
        by_cases hkey : robj.qpKey = destQpKey
        · cases hobj : host.qps destQpKey with
          | none =>
            have hnone : host.words.qps destQpKey = none := by simp [Host.words, hobj]
            simp [haccess, hkey, hqps, hobj, hnone, Host.setRqp_words]
          | some obj =>
            have hsome : host.words.qps destQpKey =
              some obj.qp.state.word := by simp [Host.words, hobj]
            simp [haccess, hkey, hqps, hobj, hsome, Host.setRqp_words, Host.setQp_words]
        · simp [haccess, hkey, Host.setRqp_words]

lemma cmdRecvQpModifySlot_const (dev : CmdDev) (hdr : CmdHdr) (cmd : CmdQpModify) (rsp : Rsp) :
    cmdRecvQpModifySlot dev.host.words hdr (fun _ => cmd) rsp =
      ⟨(cmdRecvQpModify dev hdr cmd rsp).rc, (cmdRecvQpModify dev hdr cmd rsp).rsp,
        (cmdRecvQpModify dev hdr cmd rsp).dev.host.words, cmd.srcQpKey⟩ := by
  simp only [cmdRecvQpModifySlot, cmdRecvQpModify, Slot.copy, Slot.again]
  by_cases haccess : cmd.access > maxSumAccessFlags
  · simp [haccess]
  · cases hstate : qpStateOf cmd.state with
    | none => simp [haccess, qpStateOf_eq_none hstate]
    | some =>
      have hword := qpStateOf_word hstate
      simp [haccess, ← hword, isStateValidWord_word, rqpModifyLocalWord_word]

/-! ## The value that is checked and the value that is used -/

def WordHost.Valid (host : WordHost) : Prop :=
  ∀ key rqp, host.rqps key = some rqp → isStateValidWord rqp.state = true ∧
    rqp.access ≤ maxSumAccessFlags

def ModifyDone.Checked (done : ModifyDone) : Prop :=
  done.rc ≠ .ok () ∨ (∃ rqp, done.host.rqps done.modified = some rqp ∧
    isStateValidWord rqp.state = true ∧
    rqp.access ≤ maxSumAccessFlags) ∧ done.rsp.key = done.modified

/-- What the second reads find passes the check too, and names the same queue pair. -/
structure Slot.Steady (slot : Slot) : Prop where
  key : slot.again.srcQpKey = slot.copy.srcQpKey
  state : isStateValidWord slot.again.state = true
  access : slot.again.access ≤ maxSumAccessFlags

lemma WordRqp.modify_state (rqp : WordRqp) (access newState destQpKey : UInt32) :
    (rqp.modify access newState destQpKey).state = newState := by
  simp only [WordRqp.modify]
  split_ifs <;> rfl

lemma WordRqp.modify_access (rqp : WordRqp) (access newState destQpKey : UInt32) :
    (rqp.modify access newState destQpKey).access = if access ≠ 0 then access else rqp.access := by
  simp only [WordRqp.modify]
  split_ifs <;> rfl

lemma rqpModifyLocalWord_ok {host : WordHost} {srcQpKey access newState destQpKey : UInt32}
    (hok : (rqpModifyLocalWord host srcQpKey access newState destQpKey).1 = .ok ()) :
    ∃ rqp, host.rqps srcQpKey = some rqp ∧
      (rqpModifyLocalWord host srcQpKey access newState destQpKey).2.rqps srcQpKey =
        some (rqp.modify access newState destQpKey) := by
  simp only [rqpModifyLocalWord] at hok ⊢
  cases hrqp : host.rqps srcQpKey with
  | none =>
    rw [hrqp] at hok
    cases hok
  | some rqp =>
    refine ⟨rqp, rfl, ?_⟩
    dsimp only
    split
    · split <;> exact Function.update_self ..
    · exact Function.update_self ..

/-- A modification that goes through is checked exactly if the second reads pass the check as
well. -/
theorem cmdRecvQpModify_checked_iff {host : WordHost} (hvalid : host.Valid) {hdr : CmdHdr}
    {slot : Slot} {rsp : Rsp} (hok : (cmdRecvQpModifySlot host hdr slot rsp).rc = .ok ()) :
    (cmdRecvQpModifySlot host hdr slot rsp).Checked ↔ slot.Steady := by
  simp only [cmdRecvQpModifySlot] at hok ⊢
  split at hok
  · cases hok
  next hpass =>
    rw [if_neg hpass]
    replace hok : (rqpModifyLocalWord host slot.again.srcQpKey slot.again.access slot.again.state
      slot.again.destQpKey).1 = .ok () := hok
    obtain ⟨rqp, hrqp, hmodified⟩ := rqpModifyLocalWord_ok hok
    have hkept := (hvalid _ _ hrqp).2
    simp only [ModifyDone.Checked, hok, not_true_eq_false, ne_eq, false_or,
      hmodified, Option.some.injEq,
      exists_eq_left', WordRqp.modify_state, WordRqp.modify_access]
    constructor
    · rintro ⟨⟨hstate, haccess⟩, hkey⟩
      refine ⟨hkey.symm, hstate, ?_⟩
      split_ifs at haccess with h0
      · rw [h0]
        decide
      · exact haccess
    · intro h
      refine ⟨⟨h.state, ?_⟩, h.key.symm⟩
      split_ifs
      · exact hkept
      · exact h.access

def resetHost : WordHost := ⟨fun _ => none, fun _ => some ⟨0, 0, 0⟩⟩

def swappedSlot (cmd cmd' : CmdQpModify) : Slot := fun n => if n < 4 then cmd else cmd'

/-- The check sees a command for queue pair 1; queue pair 2 is modified, to an unchecked state and
access, and the response names 1. -/
theorem cmdRecvQpModify_unchecked :
    let done := cmdRecvQpModifySlot resetHost ⟨cmdQpModify, 0, 0⟩
      (swappedSlot ⟨1, 1, 3, 1⟩ ⟨2, 0xffff, 7, 1⟩)
      successSlot
    done.rc = .ok () ∧ done.rsp.key = 1 ∧ done.host.rqps 2 = some ⟨7, 0xffff, 1⟩ ∧
      ¬ done.Checked := by
  refine ⟨rfl, rfl, rfl, ?_⟩
  rintro (hrc | ⟨_, hkey⟩)
  · exact hrc rfl
  · exact absurd hkey (by decide)

theorem cmdRecvQpModify_checked_iff_same :
    (cmdRecvQpModifySlot resetHost ⟨cmdQpModify, 0, 0⟩ (swappedSlot ⟨1, 1, 3, 1⟩ ⟨1, 1, 3, 1⟩)
      successSlot).Checked :=
  (cmdRecvQpModify_checked_iff (fun _ _ h => by rw [← Option.some.inj h]; decide) rfl).mpr
    ⟨rfl, rfl, by decide⟩

end Ntrdma
