import Ntrdma.Cmd.Pairing

/-!
# Sending a command and waiting for its result

Model of `ntrdma_cmd_send` of the connection manager, on top of the command ring of two hosts
(`Ntrdma.Cmd.Pairing`): the call adds its callback (`ntrdma_dev_cmd_add`), submits the work
(`ntrdma_dev_cmd_submit`) and waits (`ntrdma_res_wait_cmds`), while the work of both hosts goes on,
other callers use the ring, and the link may be disabled, quiesced (`ntrdma_dev_cmd_quiesce`) and
come up again.

The result field of the callback is `0` before a response is stored to it. A failed submission and
the quiesce wake the caller without storing to it, so the call returns `0` for a command that was
never handled. Without these two, a call that returns `0` was answered with status `0`
(`cmdSend_delivered`).

Which callbacks are those of calls of `ntrdma_cmd_send` is a parameter (`cm`); each is used for one
call.
-/

namespace Ntrdma
open Lib Ntrdma.Ring

inductive SendPhase where
  | idle
  | added
  | waiting
  | timedOut
  | returned (rc : UInt32)
  deriving DecidableEq, Repr

/-- A call of `ntrdma_cmd_send`: `ret` is `cb.ret`, and `done` says that `cb.cmds_done` is
complete. -/
structure SendCall where
  phase : SendPhase
  ret : UInt32
  done : Bool

/-- The command rings of the session and those of the sessions before, and the calls. -/
structure SendSys where
  sys : CmdSys
  past : List CmdSys
  ready : Bool
  calls : Nat → SendCall

inductive SendCallAct where
  /-- a call begins: `init_completion` and `ntrdma_dev_cmd_add` -/
  | call (cb : Nat)
  /-- `ntrdma_dev_cmd_submit`, which fails where the doorbell is disabled -/
  | submit (cb : Nat) (ok : Bool)
  /-- `wait_for_completion_timeout` finds the completion -/
  | wake (cb : Nat)
  /-- `wait_for_completion_timeout` does not find it in time -/
  | timeout (cb : Nat)
  /-- `ntrdma_cmd_cb_unlink` after the timeout -/
  | unlink (cb : Nat)
  /-- work of the two hosts, and what other callers do -/
  | link (act : CmdAct)
  /-- `ntrdma_dev_cmd_disable` -/
  | disable
  /-- `ntrdma_dev_cmd_quiesce` -/
  | quiesce
  /-- `ntrdma_dev_cmd_reset`, the hello and `ntrdma_dev_cmd_enable` -/
  | restart (buf recvBuf : Nat → Cmd) (rspBuf recvRspBuf : Nat → Rsp) (dev : CmdDev)

/-- The callback is in one of the lists (C `cb->in_list`). -/
def CmdSend.Listed (s : CmdSend) (cb : Nat) : Prop := cb ∈ s.pend ∨ cb ∈ s.post.map PostedCmd.cb

instance (s : CmdSend) (cb : Nat) : Decidable (s.Listed cb) :=
  inferInstanceAs (Decidable (_ ∨ _))

/-- C `-1`, which `ntrdma_dev_cmd_add` returns. -/
def negOne : UInt32 := -1

def negEtime : UInt32 := -62

/-- C `ntrdma_iw_cm_gen_cmpl`, for the responses of one round of work. -/
def finish (cm : Nat → Bool) (calls : Nat → SendCall) (done : List CompletedCmd) : Nat → SendCall :=
  done.foldl (fun calls d =>
    if cm d.cb then
      Function.update calls d.cb { calls d.cb with ret := d.rsp.hdr.status, done := true }
    else calls) calls

namespace SendSys
variable (cm : Nat → Bool) (s : SendSys)

def setCall (cb : Nat) (call : SendCall) : SendSys :=
    { s with calls := Function.update s.calls cb call }

/-- The work of the two hosts. Only the call itself adds its callback and takes it out of the
lists. -/
def link : CmdAct → Option SendSys
  | .add cb =>
    if cm cb || !s.ready then none else (CmdAct.apply s.sys (.add cb)).map fun sys => { s with sys }
  | .unlink cb => if cm cb then none else (CmdAct.apply s.sys (.unlink cb)).map fun sys =>
    { s with sys }
  | .sendWork prep again =>
    if !s.ready then none
    else
      (CmdAct.apply s.sys (.sendWork prep fun cb rsp => !cm cb && again cb rsp)).map fun sys =>
        { s with sys, calls := finish cm s.calls (sys.send.done.drop s.sys.send.done.length) }
  | act => (CmdAct.apply s.sys act).map fun sys => { s with sys }

def apply : SendCallAct → Option SendSys
  | .call cb =>
    if !cm cb || (s.calls cb).phase != .idle then none
    else if !s.ready then some (s.setCall cb ⟨.returned negOne, 0, false⟩)
    else
      (s.sys.send.add cb).map fun send => { s with sys := { s.sys with send } }.setCall cb
        ⟨.added, 0, false⟩
  | .submit cb ok =>
    if (s.calls cb).phase != .added then none
    else if ok then some (s.setCall cb { s.calls cb with phase := .waiting })
    else
      -- the failure is logged, and the call goes on to wait
      some ({ s with sys := { s.sys with send := s.sys.send.unlink cb } }.setCall cb
        { s.calls cb with phase := .waiting, done := true })
  | .wake cb =>
    if (s.calls cb).phase != .waiting || !(s.calls cb).done then none
    else some (s.setCall cb { s.calls cb with phase := .returned (s.calls cb).ret })
  | .timeout cb =>
    if (s.calls cb).phase != .waiting || (s.calls cb).done then none
    else some (s.setCall cb { s.calls cb with phase := .timedOut })
  | .unlink cb =>
    if (s.calls cb).phase != .timedOut then none
    else if s.sys.send.Listed cb then
      some ({ s with sys := { s.sys with send := s.sys.send.unlink cb } }.setCall cb
        { s.calls cb with phase := .returned negEtime, done := true })
    else some (s.setCall cb { s.calls cb with phase := .returned (s.calls cb).ret, done := true })
  | .link act => s.link cm act
  | .disable => some { s with ready := false }
  | .quiesce =>
    some { s with
      sys := { s.sys with send := { s.sys.send with pend := [], post := [] } }
      calls := fun cb =>
        if cm cb && decide (s.sys.send.Listed cb) then
          { s.calls cb with done := true } else s.calls cb }
  | .restart buf recvBuf rspBuf recvRspBuf dev =>
    if s.ready || !s.sys.send.pend.isEmpty || !s.sys.send.post.isEmpty then none
    else
      some { s with
        sys := .start s.sys.send.cap buf recvBuf rspBuf recvRspBuf dev
        past := s.sys :: s.past
        ready := true }

/-- The peer handled the command of this callback in some session, and answered with the status. -/
def Answered (cb : Nat) (status : UInt32) : Prop :=
  ∃ sys ∈ s.sys :: s.past, ∃ (posting : Nat) (cmd : Cmd) (rsp : Rsp),
    sys.send.prepared[posting]? = some (cb, cmd) ∧ sys.recv.answers[posting]? = some (cmd, rsp) ∧
      rsp.hdr.status = status

end SendSys

def sendStep (cm : Nat → Bool) (s : SendSys) (act : SendCallAct) (t : SendSys) :
    Prop := s.apply cm act = some t

/-- A submission fails only while its callback is in no list, and a quiesce finds that of no call
there. -/
def SoundStep (cm : Nat → Bool) (s : SendSys) (act : SendCallAct) (t : SendSys) : Prop :=
  sendStep cm s act t ∧ (∀ cb, act = .submit cb false → ¬ s.sys.send.Listed cb) ∧
    (act = .quiesce → ∀ cb, cm cb = true → ¬ s.sys.send.Listed cb)

def SendSys.start (cap : UInt32) (buf recvBuf : Nat → Cmd) (rspBuf recvRspBuf : Nat → Rsp)
    (dev : CmdDev) : SendSys :=
  ⟨.start cap buf recvBuf rspBuf recvRspBuf dev, [], true, fun _ => ⟨.idle, 0, false⟩⟩

/-! ## The lists of the sender -/

/-- Work on the lists: the records grow, and a callback leaves the lists only when it is
completed. -/
structure CmdSend.Advances (s t : CmdSend) : Prop where
  prepared : ∃ more, t.prepared = s.prepared ++ more
  done : ∃ more, t.done = s.done ++ more ∧ ∀ cb, s.Listed cb → t.Listed cb ∨ ∃ d ∈ more, d.cb = cb

section
variable {s t u : CmdSend}

lemma CmdSend.Advances.refl (s : CmdSend) : s.Advances s :=
  ⟨⟨[], (List.append_nil _).symm⟩, [], (List.append_nil _).symm, fun _ h => .inl h⟩

lemma CmdSend.Advances.trans (h : s.Advances t) (h' : t.Advances u) : s.Advances u := by
  obtain ⟨⟨cmds, hcmds⟩, done, hdone, hlisted⟩ := h
  obtain ⟨⟨cmds', hcmds'⟩, done', hdone', hlisted'⟩ := h'
  refine ⟨⟨cmds ++ cmds', by rw [hcmds', hcmds, List.append_assoc]⟩, done ++ done',
    by rw [hdone', hdone, List.append_assoc], fun cb hcb => ?_⟩
  obtain ht | ⟨d, hd, rfl⟩ := hlisted cb hcb
  · exact (hlisted' cb ht).imp_right fun ⟨d, hd, heq⟩ => ⟨d, List.mem_append_right _ hd, heq⟩
  · exact .inr ⟨d, List.mem_append_left _ hd, rfl⟩

lemma CmdSend.complete_advances (again : Nat → Rsp → Bool) (pos : UInt32) (s : CmdSend) :
    s.Advances (s.complete again pos) := by
  simp only [CmdSend.complete]
  split
  · exact ⟨⟨[], (List.append_nil _).symm⟩, [], (List.append_nil _).symm, fun _ h => .inl h⟩
  next p rest hpost =>
    split
    · exact ⟨⟨[], (List.append_nil _).symm⟩, [], (List.append_nil _).symm, fun _ h => .inl h⟩
    · have hleft : ∀ cb, s.Listed cb → cb ∈ s.pend ∨ cb ∈ rest.map PostedCmd.cb ∨ p.cb = cb := by
        intro cb hcb
        rw [CmdSend.Listed, hpost, List.map_cons, List.mem_cons] at hcb
        tauto
      split
      · refine ⟨⟨[], (List.append_nil _).symm⟩, _, rfl, fun cb hcb => ?_⟩
        obtain h | h | h := hleft cb hcb
        · exact .inl (.inl (List.mem_append_left _ h))
        · exact .inl (.inr h)
        · exact .inr ⟨_, List.mem_singleton_self _, h⟩
      · refine ⟨⟨[], (List.append_nil _).symm⟩, _, rfl, fun cb hcb => ?_⟩
        obtain h | h | h := hleft cb hcb
        · exact .inl (.inl h)
        · exact .inl (.inr h)
        · exact .inr ⟨_, List.mem_singleton_self _, h⟩

lemma cmplLoop_advances (again : Nat → Rsp → Bool) (n : Nat) (pos : UInt32) (s : CmdSend) :
    s.Advances (cmplLoop again n pos s) := by
  induction n generalizing pos s with
  | zero => exact .refl s
  | succ _ ih => exact (s.complete_advances again pos).trans (ih _ _)

lemma CmdSend.issue_advances (prep : Nat → Cmd → Cmd) (pos : UInt32) {cb : Nat} {rest : List Nat}
    (hpend : s.pend = cb :: rest) : s.Advances (s.issue prep pos cb rest) := by
  refine ⟨⟨_, rfl⟩, [], (List.append_nil _).symm, fun cb' hcb => .inl ?_⟩
  rw [CmdSend.Listed, hpend, List.mem_cons] at hcb
  simp only [CmdSend.Listed, CmdSend.issue, List.map_append, List.mem_append,
    List.map_cons, List.map_nil,
    List.mem_singleton]
  tauto

lemma issueLoop_advances (prep : Nat → Cmd → Cmd) (n : Nat) (pos : UInt32) (s : CmdSend) :
    s.Advances (issueLoop prep n pos s).2 := by
  induction n generalizing pos s with
  | zero => exact .refl s
  | succ _ ih =>
    rw [issueLoop]
    split
    · exact .refl s
    · exact (CmdSend.issue_advances prep pos ‹_›).trans (ih _ _)

lemma cmdSendWork_advances (prep : Nat → Cmd → Cmd) (again : Nat → Rsp → Bool) (s : CmdSend) :
    s.Advances (cmdSendWork prep again s).1 := by
  have hcomplete : s.Advances (s.completeAll again) := by
    simp only [CmdSend.completeAll]
    have h := cmplLoop_advances again ((consume s.cons s.cmpl s.cap).stop.toNat -
      (consume s.cons s.cmpl s.cap).pos.toNat) (consume s.cons s.cmpl s.cap).pos s
    split
    · exact ⟨h.prepared, h.done⟩
    · exact h
  have hissue (s : CmdSend) : s.Advances (s.issueAll prep).1 := by
    simp only [CmdSend.issueAll]
    have h := issueLoop_advances prep ((produce s.prod s.cmpl s.cap).2.stop.toNat -
      (produce s.prod s.cmpl s.cap).2.pos.toNat) (produce s.prod s.cmpl s.cap).2.pos s
    split
    · exact ⟨h.prepared, h.done⟩
    · exact h
  exact hcomplete.trans (hissue _)

lemma recvLoop_answers (env : Nat → RecvEnv) (n : Nat) (pos : UInt32) (s : CmdRecv) :
    ∃ more, (recvLoop env n pos s).answers = s.answers ++ more := by
  induction n generalizing pos s with
  | zero => exact ⟨[], (List.append_nil _).symm⟩
  | succ _ ih =>
    obtain ⟨more, hmore⟩ := ih (pos + 1) (s.handle env pos)
    exact ⟨_, hmore.trans (List.append_assoc ..)⟩

lemma cmdRecvWork_answers (env : Nat → RecvEnv) (s : CmdRecv) :
    ∃ more, (cmdRecvWork env s).1.answers = s.answers ++ more := by
  simp only [cmdRecvWork]
  split <;> exact recvLoop_answers env _ _ s

lemma CmdSend.listed_unlink {cb cb' : Nat} (h : s.Listed cb') (hne : cb' ≠ cb) :
    (s.unlink cb).Listed cb' := by
  obtain h | h := h
  · exact .inl ((List.mem_erase_of_ne hne).mpr h)
  · obtain ⟨p, hp, rfl⟩ := List.mem_map.mp h
    exact .inr (List.mem_map.mpr ⟨p, (List.mem_eraseP_of_neg (by simpa using hne)).mpr hp, rfl⟩)

end

lemma finish_cases (cm : Nat → Bool) (calls : Nat → SendCall) (more : List CompletedCmd)
    (cb : Nat) :
    (finish cm calls more cb = calls cb ∧ (cm cb = true → ∀ d ∈ more, d.cb ≠ cb)) ∨
      ∃ d ∈ more, d.cb = cb ∧
        finish cm calls more cb = { calls cb with ret := d.rsp.hdr.status, done := true } := by
  induction more generalizing calls with
  | nil => exact .inl ⟨rfl, fun _ _ => nofun⟩
  | cons d _ ih =>
    rw [finish, List.foldl_cons, ← finish]
    by_cases hcm : cm d.cb = true
    · rw [if_pos hcm]
      obtain ⟨hsame, hnone⟩ | ⟨e, he, hcb, hset⟩ := ih _
      · by_cases hcb : cb = d.cb
        · refine .inr ⟨d, List.mem_cons_self, hcb.symm, ?_⟩
          rw [hsame, hcb, Function.update_self]
        · refine .inl ⟨by rw [hsame, Function.update_of_ne hcb], fun h e he => ?_⟩
          obtain rfl | he := List.mem_cons.mp he
          · exact Ne.symm hcb
          · exact hnone h e he
      · refine .inr ⟨e, List.mem_cons_of_mem _ he, hcb, ?_⟩
        by_cases hd : cb = d.cb
        · rw [hset, hd, Function.update_self]
        · rw [hset, Function.update_of_ne hd]
    · rw [if_neg hcm]
      obtain ⟨hsame, hnone⟩ | ⟨e, he, hcb, hset⟩ := ih calls
      · refine .inl ⟨hsame, fun h e he => ?_⟩
        obtain rfl | he := List.mem_cons.mp he
        · exact fun heq => hcm (heq ▸ h)
        · exact hnone h e he
      · exact .inr ⟨e, List.mem_cons_of_mem _ he, hcb, hset⟩

/-! ## What a call knows -/

def SendPhase.Active : SendPhase → Prop
  | added | waiting | timedOut => True
  | _ => False

/-- The callback of a call is in a list, or complete with the result of an answer. -/
structure SendSys.CallOk (s : SendSys) (cb : Nat) : Prop where
  listed : (s.calls cb).phase.Active → s.sys.send.Listed cb ∨ (s.calls cb).done = true
  answered : (s.calls cb).phase.Active → (s.calls cb).done = true → s.Answered cb (s.calls cb).ret
  returned : (s.calls cb).phase = .returned 0 → s.Answered cb 0

structure SendSys.Inv (cm : Nat → Bool) (s : SendSys) : Prop where
  sys : s.sys.Inv
  calls : ∀ cb, cm cb = true → s.CallOk cb

section
variable {cm : Nat → Bool} {s t : SendSys} {cb : Nat}

lemma SendSys.Answered.grow {status : UInt32} (h : s.Answered cb status) (hpast : t.past = s.past)
    (hprepared : ∃ more, t.sys.send.prepared = s.sys.send.prepared ++ more)
    (hanswers : ∃ more, t.sys.recv.answers = s.sys.recv.answers ++ more) :
    t.Answered cb status := by
  obtain ⟨sys, hsys, posting, cmd, rsp, hcmd, hrsp, hstatus⟩ := h
  obtain ⟨cmds, hcmds⟩ := hprepared
  obtain ⟨rsps, hrsps⟩ := hanswers
  obtain rfl | hsys := List.mem_cons.mp hsys
  · refine ⟨t.sys, List.mem_cons_self, posting, cmd, rsp, ?_, ?_, hstatus⟩
    · rw [hcmds]
      exact getElem?_append_some hcmd cmds
    · rw [hrsps]
      exact getElem?_append_some hrsp rsps
  · exact ⟨sys, List.mem_cons_of_mem _ (hpast ▸ hsys), posting, cmd, rsp, hcmd, hrsp, hstatus⟩

lemma SendSys.CallOk.mono (h : s.CallOk cb) (hcall : t.calls cb = s.calls cb)
    (hlisted : s.sys.send.Listed cb → t.sys.send.Listed cb)
    (hanswered : ∀ status, s.Answered cb status → t.Answered cb status) : t.CallOk cb where
  listed := by rw [hcall]; exact fun ha => (h.listed ha).imp_left hlisted
  answered := by rw [hcall]; exact fun ha hd => hanswered _ (h.answered ha hd)
  returned := by rw [hcall]; exact fun hr => hanswered _ (h.returned hr)

lemma SendSys.CallOk.of_returned {rc : UInt32} (hphase : (t.calls cb).phase = .returned rc)
    (h : rc = 0 → t.Answered cb 0) : t.CallOk cb where
  listed := by rw [hphase]; exact nofun
  answered := by rw [hphase]; exact nofun
  returned := by
    rw [hphase, SendPhase.returned.injEq]
    exact h

lemma SendSys.CallOk.setPhase (h : s.CallOk cb) {phase phase' : SendPhase}
    (hphase : (s.calls cb).phase = phase) (hactive : phase.Active)
    (hreturned : phase' ≠ .returned 0) :
    (s.setCall cb { s.calls cb with phase := phase' }).CallOk cb := by
  have hcall : (s.setCall cb { s.calls cb with phase := phase' }).calls cb =
    { s.calls cb with phase := phase' } := Function.update_self ..
  rw [← hphase] at hactive
  refine ⟨fun _ => ?_, fun _ => ?_, fun hr => ?_⟩
  · rw [hcall]
    exact h.listed hactive
  · rw [hcall]
    exact h.answered hactive
  · rw [hcall] at hr
    exact absurd hr hreturned

lemma SendSys.Inv.of_call (h : s.Inv cm) (hsys : t.sys.Inv) (hcall : cm cb = true → t.CallOk cb)
    (hothers : ∀ cb', cb' ≠ cb → t.calls cb' = s.calls cb' ∧
      (s.sys.send.Listed cb' → t.sys.send.Listed cb'))
    (hanswered : ∀ cb' status, s.Answered cb' status → t.Answered cb' status) : t.Inv cm := by
  refine ⟨hsys, fun cb' hcm => ?_⟩
  by_cases heq : cb' = cb
  · subst heq
    exact hcall hcm
  · exact (h.calls cb' hcm).mono (hothers cb' heq).1 (hothers cb' heq).2 (hanswered cb')

@[simp] lemma SendSys.setCall_self (s : SendSys) (cb : Nat) (call : SendCall) :
    (s.setCall cb call).calls cb = call := Function.update_self ..

lemma SendSys.setCall_ne (s : SendSys) {cb cb' : Nat} (call : SendCall) (hne : cb' ≠ cb) :
    (s.setCall cb call).calls cb' = s.calls cb' := Function.update_of_ne hne ..

lemma SendSys.Inv.setCall (h : s.Inv cm) {call : SendCall}
    (hcall : cm cb = true → (s.setCall cb call).CallOk cb) : (s.setCall cb call).Inv cm :=
  h.of_call h.sys hcall (fun _ hne => ⟨s.setCall_ne call hne, id⟩) fun _ _ => id

def SendSys.dropCall (s : SendSys) (cb : Nat) (call : SendCall) : SendSys :=
  { s with sys := { s.sys with send := s.sys.send.unlink cb } }.setCall cb call

lemma SendSys.Answered.dropCall {status : UInt32} {cb' : Nat} (h : s.Answered cb' status) (cb : Nat)
    (call : SendCall) : (s.dropCall cb call).Answered cb' status :=
  h.grow rfl ⟨[], (List.append_nil _).symm⟩ ⟨[], (List.append_nil _).symm⟩

/-- A callback is taken out of the lists. -/
lemma SendSys.Inv.unlink (h : s.Inv cm) {call : SendCall}
    (hcall : cm cb = true → (s.dropCall cb call).CallOk cb) : (s.dropCall cb call).Inv cm := by
  have hsys : CmdSys.Inv { s.sys with send := s.sys.send.unlink cb } :=
    h.sys.step (show cmdStep s.sys (.unlink cb) _ from rfl)
  exact h.of_call hsys hcall
    (fun _ hne => ⟨setCall_ne _ call hne, fun hl => CmdSend.listed_unlink hl hne⟩)
    fun _ _ ha => ha.dropCall cb call

/-- A failed submission does no harm to a call whose callback left the lists. -/
lemma SendSys.Inv.submitFailed (h : s.Inv cm) (hadded : (s.calls cb).phase = .added)
    (hout : ¬ s.sys.send.Listed cb) :
    (s.dropCall cb { s.calls cb with phase := .waiting, done := true }).Inv cm := by
  refine h.unlink fun hcm => ?_
  have hactive : (s.calls cb).phase.Active := by rw [hadded]; trivial
  have hdone := ((h.calls cb hcm).listed hactive).resolve_left hout
  have hanswered := (h.calls cb hcm).answered hactive hdone
  refine ⟨fun _ => ?_, fun _ _ => ?_, ?_⟩ <;> rw [dropCall, setCall_self]
  · exact .inr rfl
  · exact hanswered.dropCall cb _
  · exact nofun

lemma SendSys.Inv.sendWork (h : s.Inv cm) {prep : Nat → Cmd → Cmd} {again : Nat → Rsp → Bool}
    {sys : CmdSys} (hstep : cmdStep s.sys (.sendWork prep again) sys) :
    SendSys.Inv cm { s with
      sys, calls := finish cm s.calls (sys.send.done.drop s.sys.send.done.length) } := by
  have hsys := h.sys.step hstep
  rw [cmdStep, CmdAct.apply, Option.some.injEq] at hstep
  have hadvances : s.sys.send.Advances sys.send := by
    have hwork := cmdSendWork_advances prep again s.sys.send
    rwa [show (cmdSendWork prep again s.sys.send).1 = sys.send by rw [← hstep]] at hwork
  have hrecv : sys.recv = s.sys.recv := by rw [← hstep]
  obtain ⟨hprepared, more, hdone, hlisted⟩ := hadvances
  have hdrop : sys.send.done.drop s.sys.send.done.length = more := by rw [hdone, List.drop_left]
  rw [hdrop]
  have hgrow : ∀ cb status, s.Answered cb status →
      SendSys.Answered { s with sys, calls := finish cm s.calls more } cb status :=
        fun cb status ha =>
    ha.grow rfl hprepared ⟨[], by rw [List.append_nil, hrecv]⟩
  refine ⟨hsys, fun cb hcm => ?_⟩
  have hok := h.calls cb hcm
  obtain ⟨hsame, hnone⟩ | ⟨d, hd, rfl, hset⟩ := finish_cases cm s.calls more cb
  · refine hok.mono hsame (fun hl => ?_) (hgrow cb)
    obtain hl | ⟨d, hd, heq⟩ := hlisted cb hl
    · exact hl
    · exact absurd heq (hnone hcm d hd)
  · obtain ⟨cmd, hcmd, hrsp⟩ := hsys.inPairs.own d (by rw [hdone]; exact List.mem_append_right _ hd)
    have hcall : SendSys.calls { s with sys, calls := finish cm s.calls more } d.cb =
      { s.calls d.cb with ret := d.rsp.hdr.status, done := true } := hset
    refine ⟨fun _ => .inr (by rw [hcall]), fun _ _ => ?_, fun hr => ?_⟩
    · rw [hcall]
      exact ⟨sys, List.mem_cons_self, d.posting, cmd, d.rsp, hcmd, hrsp, rfl⟩
    · rw [hcall] at hr
      exact hgrow _ _ (hok.returned hr)

lemma SendSys.Inv.of_sys (h : s.Inv cm) {sys : CmdSys} (hsys : sys.Inv)
    (hlisted : ∀ cb, cm cb = true → s.sys.send.Listed cb → sys.send.Listed cb)
    (hprepared : sys.send.prepared = s.sys.send.prepared)
    (hanswers : ∃ more, sys.recv.answers = s.sys.recv.answers ++ more) :
    SendSys.Inv cm { s with sys } :=
  ⟨hsys, fun cb hcm => (h.calls cb hcm).mono rfl (hlisted cb hcm) fun _ ha =>
    ha.grow rfl ⟨[], by rw [List.append_nil, hprepared]⟩ hanswers⟩

lemma SendSys.Inv.link (h : s.Inv cm) {act : CmdAct} (hstep : s.link cm act = some t) :
    t.Inv cm := by
  cases act with
  | add =>
    simp only [SendSys.link] at hstep
    split at hstep
    · cases hstep
    · obtain ⟨sys, hsys, rfl⟩ := Option.map_eq_some_iff.mp hstep
      have hinv : sys.Inv := h.sys.step hsys
      obtain ⟨send, hadd, rfl⟩ := Option.map_eq_some_iff.mp hsys
      rw [CmdSend.add] at hadd
      split at hadd <;> cases hadd
      exact h.of_sys hinv (fun _ _ hl => hl.imp_left (List.mem_append_left _)) rfl
        ⟨[], (List.append_nil _).symm⟩
  | sendWork =>
    simp only [SendSys.link] at hstep
    split at hstep
    · cases hstep
    · obtain ⟨sys, hsys, rfl⟩ := Option.map_eq_some_iff.mp hstep
      exact h.sendWork hsys
  | toPeer =>
    obtain ⟨sys, hsys, rfl⟩ := Option.map_eq_some_iff.mp hstep
    have hinv : sys.Inv := h.sys.step hsys
    simp only [CmdAct.apply] at hsys
    split at hsys <;> cases hsys
    refine h.of_sys hinv (fun _ _ => id) rfl ⟨[], ?_⟩
    rw [List.append_nil]
    rename_i msg _ _
    cases msg <;> rfl
  | recvWork env =>
    simp only [SendSys.link] at hstep
    obtain ⟨sys, hsys, rfl⟩ := Option.map_eq_some_iff.mp hstep
    have hinv : sys.Inv := h.sys.step hsys
    cases hsys
    exact h.of_sys hinv (fun _ _ => id) rfl (cmdRecvWork_answers env s.sys.recv)
  | toHost =>
    obtain ⟨sys, hsys, rfl⟩ := Option.map_eq_some_iff.mp hstep
    have hinv : sys.Inv := h.sys.step hsys
    simp only [CmdAct.apply] at hsys
    split at hsys <;> cases hsys
    rename_i msg _ _
    cases msg <;> exact h.of_sys hinv (fun _ _ => id) rfl ⟨[], (List.append_nil _).symm⟩
  | unlink =>
    simp only [SendSys.link] at hstep
    split at hstep
    · cases hstep
    next hcm =>
      obtain ⟨sys, hsys, rfl⟩ := Option.map_eq_some_iff.mp hstep
      have hinv : sys.Inv := h.sys.step hsys
      cases hsys
      refine h.of_sys hinv (fun cb' hcm' hl => CmdSend.listed_unlink hl ?_) rfl
        ⟨[], (List.append_nil _).symm⟩
      rintro rfl
      exact hcm hcm'

lemma SendSys.Inv.call (h : s.Inv cm) (hstep : sendStep cm s (.call cb) t) : t.Inv cm := by
  simp only [sendStep, SendSys.apply] at hstep
  split at hstep
  · cases hstep
  · split at hstep
    · cases hstep
      exact h.setCall fun _ => .of_returned (by rw [SendSys.setCall_self]) (absurd · (by decide))
    · obtain ⟨send, hadd, rfl⟩ := Option.map_eq_some_iff.mp hstep
      have hsys : CmdSys.Inv { s.sys with send } :=
        h.sys.step (show cmdStep s.sys (.add cb) _ by rw [cmdStep, CmdAct.apply, hadd]; rfl)
      rw [CmdSend.add] at hadd
      split at hadd <;> cases hadd
      refine h.of_call hsys (fun _ => ?_)
        (fun cb' hne => ⟨SendSys.setCall_ne _ _ hne, fun hl =>
          hl.imp_left (List.mem_append_left _)⟩)
        fun _ _ ha => ha.grow rfl ⟨[], (List.append_nil _).symm⟩ ⟨[], (List.append_nil _).symm⟩
      refine ⟨fun _ => .inl (.inl (List.mem_append_right _ (List.mem_singleton_self _))),
        ?_, ?_⟩ <;>
        rw [SendSys.setCall_self]
      · intro _ hdone
        cases hdone
      · intro hreturned
        cases hreturned

lemma SendSys.Inv.giveUp (h : s.Inv cm) (hstep : sendStep cm s (.unlink cb) t) : t.Inv cm := by
  simp only [sendStep, SendSys.apply] at hstep
  split at hstep
  · cases hstep
  next hphase =>
    have htimedOut : (s.calls cb).phase = .timedOut := by simpa using hphase
    split at hstep
    · cases hstep
      exact h.unlink fun _ => .of_returned (by rw [SendSys.dropCall, SendSys.setCall_self])
        (absurd · (by decide))
    next hlisted =>
      cases hstep
      refine h.setCall fun hcm => .of_returned (by rw [SendSys.setCall_self]) fun hret => ?_
      have hactive : (s.calls cb).phase.Active := by rw [htimedOut]; trivial
      have hdone := ((h.calls cb hcm).listed hactive).resolve_left hlisted
      rw [← hret]
      exact (h.calls cb hcm).answered hactive hdone

lemma SendSys.Inv.restart {buf recvBuf rspBuf recvRspBuf dev} (h : s.Inv cm)
    (hstep : sendStep cm s (.restart buf recvBuf rspBuf recvRspBuf dev) t) : t.Inv cm := by
  simp only [sendStep, SendSys.apply] at hstep
  split at hstep
  · cases hstep
  next hempty =>
    cases hstep
    simp only [Bool.or_eq_true, not_or, Bool.not_eq_true', Bool.not_eq_false,
      List.isEmpty_iff] at hempty
    have hlisted : ∀ cb, ¬ s.sys.send.Listed cb := fun cb => by
      simp [CmdSend.Listed, hempty.1.2, hempty.2]
    refine ⟨CmdSys.Inv.start h.sys.cap .., fun cb hcm => (h.calls cb hcm).mono rfl
      (fun hl => absurd hl (hlisted cb)) ?_⟩
    rintro _ ⟨sys, hsys, ha⟩
    exact ⟨sys, List.mem_cons_of_mem _ hsys, ha⟩

lemma SendSys.Inv.step {act : SendCallAct} (h : s.Inv cm) (hstep : SoundStep cm s act t) :
    t.Inv cm := by
  obtain ⟨hstep, hsubmit, hquiesce⟩ := hstep
  cases act with
  | call => exact h.call hstep
  | submit cb ok =>
    simp only [sendStep, SendSys.apply] at hstep
    split at hstep
    · cases hstep
    next hphase =>
      have hadded : (s.calls cb).phase = .added := by simpa using hphase
      cases ok with
      | false =>
        cases hstep
        exact h.submitFailed hadded (hsubmit cb rfl)
      | true =>
        cases hstep
        refine h.setCall fun hcm => (h.calls cb hcm).setPhase hadded trivial fun hreturned => ?_
        cases hreturned
  | wake cb =>
    simp only [sendStep, SendSys.apply] at hstep
    split at hstep
    · cases hstep
    next hphase =>
      cases hstep
      simp only [Bool.or_eq_true, not_or, bne_iff_ne, ne_eq, not_not, Bool.not_eq_true',
        Bool.not_eq_false] at hphase
      refine h.setCall fun hcm => .of_returned (by rw [SendSys.setCall_self]) fun hret => ?_
      rw [← hret]
      exact (h.calls cb hcm).answered (by rw [hphase.1]; trivial) hphase.2
  | timeout cb =>
    simp only [sendStep, SendSys.apply] at hstep
    split at hstep
    · cases hstep
    next hphase =>
      cases hstep
      simp only [Bool.or_eq_true, not_or, bne_iff_ne, ne_eq, not_not] at hphase
      refine h.setCall fun hcm => (h.calls cb hcm).setPhase hphase.1 trivial fun hreturned => ?_
      cases hreturned
  | unlink => exact h.giveUp hstep
  | link => exact h.link hstep
  | disable =>
    cases hstep
    exact ⟨h.sys, fun cb hcm => (h.calls cb hcm).mono rfl id fun _ => id⟩
  | quiesce =>
    cases hstep
    have hsys : CmdSys.Inv { s.sys with send := { s.sys.send with pend := [], post := [] } } :=
      { h.sys with ok := ⟨h.sys.ok.waiting.sublist (List.nil_sublist _), h.sys.ok.paired⟩ }
    refine ⟨hsys, fun cb hcm => (h.calls cb hcm).mono ?_
      (fun hl => absurd hl (hquiesce rfl cb hcm)) ?_⟩
    · simp [hquiesce rfl cb hcm]
    · exact fun _ ha => ha.grow rfl ⟨[], (List.append_nil _).symm⟩ ⟨[], (List.append_nil _).symm⟩
  | restart => exact h.restart hstep

end

/-- **A command is reported delivered only if it was**, where failed submissions and quiesces find
no callback of a call in a list. -/
theorem cmdSend_delivered {cm : Nat → Bool} {cap : UInt32} {buf recvBuf : Nat → Cmd}
    {rspBuf recvRspBuf : Nat → Rsp} {dev : CmdDev} {s : SendSys} (hcap : Cap cap)
    (h : Reaches (SoundStep cm) (.start cap buf recvBuf rspBuf recvRspBuf dev) s) :
    ∀ cb, cm cb = true → (s.calls cb).phase = .returned 0 → s.Answered cb 0 := by
  have hstart : SendSys.Inv cm (.start cap buf recvBuf rspBuf recvRspBuf dev) :=
    ⟨CmdSys.Inv.start hcap .., fun _ _ => ⟨nofun, nofun, nofun⟩⟩
  have hinv := h.invariant (I := SendSys.Inv cm) hstart fun _ _ _ hs hstep => hs.step hstep
  exact fun cb hcm => (hinv.calls cb hcm).returned

def idleSend : SendSys :=
  .start 2 (fun _ => emptyCmd) (fun _ => emptyCmd) (fun _ => successSlot)
    (fun _ => successSlot) idleDev

def allCm : Nat → Bool := fun _ => true

def plainWork : SendCallAct := .link (.sendWork (fun _ cmd => cmd) fun _ _ => false)

def answeredCall : List SendCallAct :=
  [.call 7, .submit 7 true, plainWork, .link .toPeer, .link .toPeer,
    .link (.recvWork fun _ => easyEnv),
    .link .toHost, .link .toHost, plainWork, .wake 7]

def soundApply (cm : Nat → Bool) (s : SendSys) (act : SendCallAct) : Option SendSys :=
  match act with
  | .submit _ false => none
  | .quiesce => none
  | act => s.apply cm act

lemma soundApply_soundStep (cm : Nat → Bool) (s : SendSys) (act : SendCallAct) (t : SendSys)
    (h : soundApply cm s act = some t) : SoundStep cm s act t := by
  unfold soundApply at h
  split at h
  · cases h
  · cases h
  next hsubmit hquiesce =>
    exact ⟨h, fun cb heq => absurd heq (hsubmit cb), fun heq => absurd heq hquiesce⟩

theorem cmdSend_delivered_answered : ∃ s, Reaches (SoundStep allCm) idleSend s ∧
    (s.calls 7).phase = .returned 0 ∧ s.Answered 7 0 := by
  obtain ⟨s, hrun, hphase⟩ := Reaches.exists_of_foldlM (p := fun s =>
    (s.calls 7).phase == .returned 0)
    answeredCall (soundApply_soundStep allCm) (s := idleSend) (by decide +kernel)
  have hphase := eq_of_beq hphase
  exact ⟨s, hrun, hphase, cmdSend_delivered ⟨by decide, by decide⟩ hrun 7 rfl hphase⟩

lemma SendSys.not_answered {s : SendSys} (hanswers : s.sys.recv.answers = []) (hpast : s.past = [])
    (cb : Nat) (status : UInt32) : ¬ s.Answered cb status := by
  rintro ⟨sys, hsys, posting, cmd, rsp, -, hrsp, -⟩
  rw [hpast, List.mem_singleton] at hsys
  rw [hsys, hanswers] at hrsp
  cases hrsp

def undelivered (s : SendSys) : Bool :=
  (s.calls 7).phase == .returned 0 && s.sys.recv.answers.isEmpty && s.past.isEmpty

def failedSubmit : List SendCallAct := [.call 7, .submit 7 false, .wake 7]

def quiescedCall : List SendCallAct := [.call 7, .submit 7 true, plainWork,
    .disable, .quiesce, .wake 7]

lemma exists_undelivered {acts : List SendCallAct}
    (h : (acts.foldlM (SendSys.apply allCm) idleSend).any undelivered = true) :
    ∃ s, acts.foldlM (SendSys.apply allCm) idleSend = some s ∧ (s.calls 7).phase = .returned 0 ∧
      ¬ s.Answered 7 0 := by
  obtain ⟨s, hrun, hs⟩ := (Option.any_eq_true ..).mp h
  simp only [undelivered, Bool.and_eq_true, beq_iff_eq, List.isEmpty_iff] at hs
  exact ⟨s, hrun, hs.1.1, SendSys.not_answered hs.1.2 hs.2 7 0⟩

/-- The call returns `0` after its submission failed, and after the link was quiesced. -/
theorem cmdSend_undelivered :
    (∃ s, failedSubmit.foldlM (SendSys.apply allCm) idleSend = some s ∧
      (s.calls 7).phase = .returned 0 ∧
        ¬ s.Answered 7 0) ∧
      ∃ s, quiescedCall.foldlM (SendSys.apply allCm) idleSend = some s ∧
        (s.calls 7).phase = .returned 0 ∧
        ¬ s.Answered 7 0 :=
  ⟨exists_undelivered (by decide +kernel), exists_undelivered (by decide +kernel)⟩

end Ntrdma
