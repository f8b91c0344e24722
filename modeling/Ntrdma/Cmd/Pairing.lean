import Ntrdma.Cmd.Recv
import Ntrdma.Lib.Run
import Ntrdma.Ring.Portion

/-!
# Commands and their responses

Model of the command ring between two hosts: `ntrdma_dev_cmd_add` queues a callback,
`ntrdma_cmd_send_work` completes the commands that have a response and issues pending ones,
`ntrdma_cmd_recv_work` of the peer handles what arrived and sends the responses, and a waiter whose
time is up takes its callback out of the lists (`ntrdma_cmd_cb_unlink`).

A response is matched with a callback by its slot alone, and a callback can vanish from the middle
of the list, so a response may find the callback of a later command at the head of the list. The
invariant is that the list is in the order of the ring and lies between the responses that were gone
over and the commands that were issued, which is one revolution at most.

A callback is a number. What it writes into a command, and whether its completion queues it again,
are parameters of the work that calls it.
-/

namespace Ntrdma
open Lib Ntrdma.Ring

/-! ## The sender -/

/-- A callback in `post_list` (C `struct ntrdma_cmd_cb`), and how many commands were issued before
it. -/
structure PostedCmd where
  cb : Nat
  cmdId : UInt32
  posting : Nat

/-- A call of `rsp_cmpl`. -/
structure CompletedCmd where
  cb : Nat
  posting : Nat
  rsp : Rsp

/-- C `struct ntrdma_dev_cmd_send`, with the commands prepared, the responses gone over and the
calls of `rsp_cmpl`. The peer writes `rspBuf` and `cons`. -/
structure CmdSend where
  cap : UInt32
  pend : List Nat
  post : List PostedCmd
  buf : Nat → Cmd
  rspBuf : Nat → Rsp
  prod : UInt32
  cons : UInt32
  cmpl : UInt32
  linkDown : Bool
  prepared : List (Nat × Cmd)
  gone : Nat
  done : List CompletedCmd

/-- One round of the first loop of `ntrdma_cmd_send_work`. -/
def CmdSend.complete (again : Nat → Rsp → Bool) (pos : UInt32) (s : CmdSend) : CmdSend :=
  let rsp := s.rspBuf pos.toNat
  let s := { s with linkDown := s.linkDown || pos != rsp.hdr.cmdId, gone := s.gone + 1 }
  match s.post with
  | [] => s
  | p :: rest =>
    if p.cmdId != pos then s
    else
      let s := { s with post := rest, done := s.done ++ [⟨p.cb, p.posting, rsp⟩] }
      if again p.cb rsp then { s with pend := s.pend ++ [p.cb] } else s

/-- The first loop of `ntrdma_cmd_send_work`, with `n` rounds left. -/
def cmplLoop (again : Nat → Rsp → Bool) : Nat → UInt32 → CmdSend → CmdSend
  | 0, _, s => s
  | n + 1, pos, s => cmplLoop again n (pos + 1) (s.complete again pos)

def CmdSend.issue (prep : Nat → Cmd → Cmd) (pos : UInt32) (cb : Nat) (rest : List Nat)
    (s : CmdSend) : CmdSend :=
  let slot := s.buf pos.toNat
  let cmd := prep cb { slot with hdr := { slot.hdr with cmdId := pos, cbP := cb.toUInt64 } }
  { s with
    pend := rest
    post := s.post ++ [⟨cb, pos, s.prepared.length⟩]
    buf := Function.update s.buf pos.toNat cmd
    prepared := s.prepared ++ [(cb, cmd)] }

/-- The second loop: the position it gets to. -/
def issueLoop (prep : Nat → Cmd → Cmd) : Nat → UInt32 → CmdSend → UInt32 × CmdSend
  | 0, pos, s => (pos, s)
  | n + 1, pos, s =>
    match s.pend with
    | [] => (pos, s)
    | cb :: rest => issueLoop prep n (pos + 1) (s.issue prep pos cb rest)

def CmdSend.completeAll (again : Nat → Rsp → Bool) (s : CmdSend) : CmdSend :=
  let r := consume s.cons s.cmpl s.cap
  let n := r.stop.toNat - r.pos.toNat
  let s := cmplLoop again n r.pos s
  if n ≠ 0 then { s with cmpl := update r.stop r.base s.cap } else s

def CmdSend.issueAll (prep : Nat → Cmd → Cmd) (s : CmdSend) : CmdSend × List (RingMsg Cmd UInt32) :=
  let r := (produce s.prod s.cmpl s.cap).2
  let issued := issueLoop prep (r.stop.toNat - r.pos.toNat) r.pos s
  let s := issued.2
  if issued.1 != r.pos then
    let s := { s with prod := update issued.1 r.base s.cap }
    (s, [.copy r.pos.toNat (portion s.buf r.pos issued.1), .index s.prod])
  else (s, [])

/-- C `ntrdma_cmd_send_work`: the sender, and what it writes to the peer. -/
def cmdSendWork (prep : Nat → Cmd → Cmd) (again : Nat → Rsp → Bool) (s : CmdSend) :
    CmdSend × List (RingMsg Cmd UInt32) :=
  (s.completeAll again).issueAll prep

/-- C `ntrdma_dev_cmd_add`, of a callback that is in no list. -/
def CmdSend.add (cb : Nat) (s : CmdSend) : Option CmdSend :=
  if cb ∈ s.pend ∨ cb ∈ s.post.map PostedCmd.cb then none else some
    { s with pend := s.pend ++ [cb] }

def CmdSend.unlink (cb : Nat) (s : CmdSend) : CmdSend :=
  { s with pend := s.pend.erase cb, post := s.post.eraseP fun p => p.cb == cb }

/-! ## The peer -/

/-- C `struct ntrdma_dev_cmd_recv`, with the commands handled and their responses. The sender writes
`buf` and `prod`. -/
structure CmdRecv where
  cap : UInt32
  buf : Nat → Cmd
  prod : UInt32
  cons : UInt32
  rspBuf : Nat → Rsp
  dev : CmdDev
  answers : List (Cmd × Rsp)

/-- One round of the loop of `ntrdma_cmd_recv_work`. -/
def CmdRecv.handle (env : Nat → RecvEnv) (pos : UInt32) (s : CmdRecv) : CmdRecv :=
  let cmd := s.buf pos.toNat
  let done := cmdRecv (env pos.toNat) s.dev cmd (s.rspBuf pos.toNat)
  { s with
    rspBuf := Function.update s.rspBuf pos.toNat done.rsp
    dev := done.dev
    answers := s.answers ++ [(cmd, done.rsp)] }

/-- The loop of `ntrdma_cmd_recv_work`, with `n` rounds left. -/
def recvLoop (env : Nat → RecvEnv) : Nat → UInt32 → CmdRecv → CmdRecv
  | 0, _, s => s
  | n + 1, pos, s => recvLoop env n (pos + 1) (s.handle env pos)

def cmdRecvWork (env : Nat → RecvEnv) (s : CmdRecv) : CmdRecv × List (RingMsg Rsp UInt32) :=
  let r := consume s.prod s.cons s.cap
  let n := r.stop.toNat - r.pos.toNat
  let s := recvLoop env n r.pos s
  if n ≠ 0 then
    let s := { s with cons := update r.stop r.base s.cap }
    (s, [.copy r.pos.toNat (portion s.rspBuf r.pos r.stop), .index s.cons])
  else (s, [])

/-! ## Both hosts -/

/-- The sender, the peer and the writes under way between them. -/
structure CmdSys where
  send : CmdSend
  recv : CmdRecv
  toPeer : List (RingMsg Cmd UInt32)
  toHost : List (RingMsg Rsp UInt32)

inductive CmdAct where
  | add (cb : Nat)
  | sendWork (prep : Nat → Cmd → Cmd) (again : Nat → Rsp → Bool)
  | toPeer
  | recvWork (env : Nat → RecvEnv)
  | toHost
  | unlink (cb : Nat)

def CmdRecv.deliver (s : CmdRecv) : RingMsg Cmd UInt32 → CmdRecv
  | .copy start cmds => { s with buf := store s.buf start cmds }
  | .index idx => { s with prod := idx }

def CmdSend.deliver (s : CmdSend) : RingMsg Rsp UInt32 → CmdSend
  | .copy start rsps => { s with rspBuf := store s.rspBuf start rsps }
  | .index idx => { s with cons := idx }

def CmdAct.apply (s : CmdSys) : CmdAct → Option CmdSys
  | add cb => (s.send.add cb).map fun send => { s with send }
  | sendWork prep again =>
    let work := cmdSendWork prep again s.send
    some { s with send := work.1, toPeer := s.toPeer ++ work.2 }
  | toPeer =>
    match s.toPeer with
    | [] => none
    | msg :: rest => some { s with recv := s.recv.deliver msg, toPeer := rest }
  | recvWork env =>
    let work := cmdRecvWork env s.recv
    some { s with recv := work.1, toHost := s.toHost ++ work.2 }
  | toHost =>
    match s.toHost with
    | [] => none
    | msg :: rest => some { s with send := s.send.deliver msg, toHost := rest }
  | unlink cb => some { s with send := s.send.unlink cb }

def cmdStep (s : CmdSys) (act : CmdAct) (t : CmdSys) : Prop := act.apply s = some t

def CmdSys.start (cap : UInt32) (buf recvBuf : Nat → Cmd) (rspBuf recvRspBuf : Nat → Rsp)
    (dev : CmdDev) : CmdSys where
  send := ⟨cap, [], [], buf, rspBuf, 0, 0, 0, false, [], 0, []⟩
  recv := ⟨cap, recvBuf, 0, 0, recvRspBuf, dev, []⟩
  toPeer := []
  toHost := []

/-- Each call of `rsp_cmpl` is for another posting and has the response to its command, and slots
are not reused before it. -/
structure CmdSys.InPairs (s : CmdSys) : Prop where
  once : (s.send.done.map CompletedCmd.posting).Nodup
  own : ∀ d ∈ s.send.done, ∃ cmd, s.send.prepared[d.posting]? = some (d.cb, cmd) ∧
    s.recv.answers[d.posting]? = some (cmd, d.rsp)
  reuse : s.send.prepared.length ≤ s.send.gone + s.send.cap.toNat ∧
    s.send.gone ≤ s.recv.answers.length

/-! ## What the sender keeps -/

/-- The waiting callbacks are in the order of the ring, and each prepared the command of its
posting. -/
structure Waiting (cap : Nat) (prepared : List (Nat × Cmd)) (gone : Nat)
    (post : List PostedCmd) : Prop where
  sorted : post.Pairwise fun p q => p.posting < q.posting
  ahead : ∀ p ∈ post, gone ≤ p.posting
  slot : ∀ p ∈ post, p.cmdId.toNat = p.posting % cap
  own : ∀ p ∈ post, ∃ cmd, prepared[p.posting]? = some (p.cb, cmd)
  full : prepared.length ≤ gone + cap

structure Paired (prepared : List (Nat × Cmd)) (answers : List (Cmd × Rsp)) (gone : Nat)
    (done : List CompletedCmd) : Prop where
  sorted : done.Pairwise fun d e => d.posting < e.posting
  behind : ∀ d ∈ done, d.posting < gone
  own : ∀ d ∈ done, ∃ cmd, prepared[d.posting]? = some (d.cb, cmd) ∧
    answers[d.posting]? = some (cmd, d.rsp)

section
variable {cap gone : Nat} {prepared : List (Nat × Cmd)}
    {answers : List (Cmd × Rsp)} {post : List PostedCmd}
  {done : List CompletedCmd}

lemma getElem?_append_some {α : Type} {l : List α} {k : Nat} {a : α} (h : l[k]? = some a)
    (more : List α) : (l ++ more)[k]? = some a := by
  rw [List.getElem?_append_left (List.getElem?_eq_some_iff.mp h).1, h]

variable {p : PostedCmd}

lemma Waiting.lt (h : Waiting cap prepared gone post) (hp : p ∈ post) :
    p.posting < prepared.length := by
  obtain ⟨cmd, hcmd⟩ := h.own p hp
  exact (List.getElem?_eq_some_iff.mp hcmd).1

variable {pos : UInt32}

lemma Waiting.slot_iff (h : Waiting cap prepared gone post) (hp : p ∈ post)
    (hpos : pos.toNat = gone % cap) : p.cmdId = pos ↔ p.posting = gone := by
  have hlt := h.lt hp
  have hfull := h.full
  have hahead := h.ahead p hp
  rw [← UInt32.toNat_inj, h.slot p hp, hpos]
  refine ⟨fun heq => ?_, fun heq => by rw [heq]⟩
  exact slot_inj hahead (by omega) (Nat.le_refl gone) (by omega) heq

lemma Waiting.sublist {post' : List PostedCmd} (h : Waiting cap prepared gone post)
    (hsub : post'.Sublist post) : Waiting cap prepared gone post' :=
  ⟨h.sorted.sublist hsub, fun p hp => h.ahead p (hsub.subset hp), fun p hp =>
    h.slot p (hsub.subset hp),
    fun p hp => h.own p (hsub.subset hp), h.full⟩

lemma Waiting.succ (h : Waiting cap prepared gone post) (hlater : ∀ p ∈ post, p.posting ≠ gone) :
    Waiting cap prepared (gone + 1) post := by
  refine { h with ahead := fun p hp => ?_, full := ?_ }
  · have := h.ahead p hp
    have := hlater p hp
    omega
  · have := h.full
    omega

variable {cb : Nat} {cmd : Cmd}

lemma Waiting.issue (h : Waiting cap prepared gone post) (hpos : pos.toNat = prepared.length % cap)
    (hroom : prepared.length < gone + cap) (hgone : gone ≤ prepared.length) :
    Waiting cap (prepared ++ [(cb, cmd)]) gone (post ++ [⟨cb, pos, prepared.length⟩]) := by
  refine ⟨?_, fun p hp => ?_, fun p hp => ?_, fun p hp => ?_, ?_⟩
  · refine List.pairwise_append.mpr ⟨h.sorted, List.pairwise_singleton _ _, fun p hp q hq => ?_⟩
    rw [List.mem_singleton.mp hq]
    exact h.lt hp
  · rcases List.mem_append.mp hp with hp | hp
    · exact h.ahead p hp
    · rwa [List.mem_singleton.mp hp]
  · rcases List.mem_append.mp hp with hp | hp
    · exact h.slot p hp
    · rwa [List.mem_singleton.mp hp]
  · rcases List.mem_append.mp hp with hp | hp
    · obtain ⟨cmd', hcmd⟩ := h.own p hp
      exact ⟨cmd', getElem?_append_some hcmd _⟩
    · rw [List.mem_singleton.mp hp]
      exact ⟨cmd, List.getElem?_concat_length⟩
  · rw [List.length_append]
    exact hroom

lemma Paired.mono (h : Paired prepared answers gone done) (moreCmds : List (Nat × Cmd))
    (moreRsps : List (Cmd × Rsp)) : Paired (prepared ++ moreCmds)
      (answers ++ moreRsps) gone done := by
  refine { h with own := fun d hd => ?_ }
  obtain ⟨cmd, hcmd, hrsp⟩ := h.own d hd
  exact ⟨cmd, getElem?_append_some hcmd _, getElem?_append_some hrsp _⟩

lemma Paired.succ (h : Paired prepared answers gone done) :
    Paired prepared answers (gone + 1) done :=
  { h with behind := fun d hd => (h.behind d hd).trans (Nat.lt_succ_self _) }

lemma Paired.complete (h : Paired prepared answers gone done) {rsp : Rsp}
    (hcmd : prepared[gone]? = some (cb, cmd)) (hrsp : answers[gone]? = some (cmd, rsp)) :
    Paired prepared answers (gone + 1) (done ++ [⟨cb, gone, rsp⟩]) := by
  refine ⟨?_, fun d hd => ?_, fun d hd => ?_⟩
  · refine List.pairwise_append.mpr ⟨h.sorted, List.pairwise_singleton _ _, fun d hd e he => ?_⟩
    rw [List.mem_singleton.mp he]
    exact h.behind d hd
  · rcases List.mem_append.mp hd with hd | hd
    · exact (h.behind d hd).trans (Nat.lt_succ_self _)
    · rw [List.mem_singleton.mp hd]
      exact Nat.lt_succ_self _
  · rcases List.mem_append.mp hd with hd | hd
    · exact h.own d hd
    · rw [List.mem_singleton.mp hd]
      exact ⟨cmd, hcmd, hrsp⟩

end

/-- The buffer of the sender has the responses of the peer to the commands, up to a counter. -/
def CmdSend.Answered (answers : List (Cmd × Rsp)) (seen : Nat) (s : CmdSend) : Prop :=
  ∀ k, s.gone ≤ k → k < seen → ∃ cb cmd, s.prepared[k]? = some (cb, cmd) ∧
    answers[k]? = some (cmd, s.rspBuf (k % s.cap.toNat))

structure CmdSend.Ok (answers : List (Cmd × Rsp)) (s : CmdSend) : Prop where
  waiting : Waiting s.cap.toNat s.prepared s.gone s.post
  paired : Paired s.prepared answers s.gone s.done

structure CmdSend.Frame (s t : CmdSend) : Prop where
  cap : t.cap = s.cap
  rspBuf : t.rspBuf = s.rspBuf
  prod : t.prod = s.prod
  cons : t.cons = s.cons
  cmpl : t.cmpl = s.cmpl

lemma CmdSend.Frame.refl (s : CmdSend) : s.Frame s := ⟨rfl, rfl, rfl, rfl, rfl⟩

lemma CmdSend.Frame.trans {s t u : CmdSend} (h : s.Frame t) (h' : t.Frame u) : s.Frame u :=
  ⟨h'.cap.trans h.cap, h'.rspBuf.trans h.rspBuf, h'.prod.trans h.prod, h'.cons.trans h.cons,
    h'.cmpl.trans h.cmpl⟩

section
variable {s : CmdSend} {answers : List (Cmd × Rsp)} {pos : UInt32} {seen : Nat}

lemma CmdSend.complete_frame (again : Nat → Rsp → Bool) (pos : UInt32) (s : CmdSend) :
    s.Frame (s.complete again pos) ∧ (s.complete again pos).prepared = s.prepared ∧
      (s.complete again pos).gone = s.gone + 1 := by
  simp only [CmdSend.complete]
  split
  · exact ⟨⟨rfl, rfl, rfl, rfl, rfl⟩, rfl, rfl⟩
  · split
    · exact ⟨⟨rfl, rfl, rfl, rfl, rfl⟩, rfl, rfl⟩
    · split <;> exact ⟨⟨rfl, rfl, rfl, rfl, rfl⟩, rfl, rfl⟩

/-- One round of the first loop completes the callback of this response, or none: the head waits for
this response or a later one. -/
lemma CmdSend.Ok.complete (h : s.Ok answers) (hanswered : s.Answered answers seen)
    (hlt : s.gone < seen) (hpos : pos.toNat = s.gone % s.cap.toNat) (again : Nat → Rsp → Bool) :
    (s.complete again pos).Ok answers := by
  obtain ⟨cb, cmd, hcmd, hrsp⟩ := hanswered s.gone (Nat.le_refl _) hlt
  rw [← hpos] at hrsp
  simp only [CmdSend.complete]
  split
  next hpost => exact ⟨h.waiting.succ (by rw [hpost]; exact nofun), h.paired.succ⟩
  next p rest hpost =>
    have hwaiting := h.waiting
    rw [hpost] at hwaiting
    have hhead := hwaiting.slot_iff List.mem_cons_self hpos
    split
    next hne =>
      refine ⟨h.waiting.succ fun q hq => ?_, h.paired.succ⟩
      have hp : p.posting ≠ s.gone := fun heq => by simp [hhead.mpr heq] at hne
      rw [hpost] at hq
      have hahead := hwaiting.ahead p List.mem_cons_self
      rcases List.mem_cons.mp hq with rfl | hq
      · exact hp
      · have := List.rel_of_pairwise_cons hwaiting.sorted hq
        omega
    next heq =>
      have hposting : p.posting = s.gone := hhead.mp (by simpa using heq)
      have hrest : Waiting s.cap.toNat s.prepared (s.gone + 1) rest := by
        refine (hwaiting.sublist (List.sublist_cons_self p rest)).succ fun q hq => ?_
        have := List.rel_of_pairwise_cons hwaiting.sorted hq
        omega
      obtain ⟨cmd', hcmd'⟩ := hwaiting.own p List.mem_cons_self
      rw [hposting, hcmd, Option.some.injEq, Prod.mk.injEq] at hcmd'
      obtain ⟨rfl, rfl⟩ := hcmd'
      have hpaired := h.paired.complete hcmd hrsp
      rw [hposting]
      split <;> exact ⟨hrest, hpaired⟩

lemma cmplLoop_ok (again : Nat → Rsp → Bool) {n : Nat} (h : s.Ok answers)
    (hanswered : s.Answered answers seen) (hle : s.gone + n ≤ seen)
    (hslot : ∀ k, k < n → (s.gone + k) % s.cap.toNat = pos.toNat + k)
    (hmax : pos.toNat + n < 2 ^ 32) :
    (cmplLoop again n pos s).Ok answers ∧ s.Frame (cmplLoop again n pos s) ∧
      (cmplLoop again n pos s).prepared = s.prepared ∧
        (cmplLoop again n pos s).gone = s.gone + n := by
  induction n generalizing s pos with
  | zero => exact ⟨h, .refl s, rfl, rfl⟩
  | succ n ih =>
    obtain ⟨hframe, hprepared, hgone⟩ := s.complete_frame again pos
    have hone : (pos + 1).toNat = pos.toNat + 1 := toNat_succ (by omega)
    have hok := h.complete hanswered (by omega) (hslot 0 (by omega)).symm again
    have hanswered' : (s.complete again pos).Answered answers seen := by
      intro k hk hseen
      rw [hprepared, hframe.rspBuf, hframe.cap]
      exact hanswered k (by omega) hseen
    have hslot' : ∀ k, k < n →
        ((s.complete again pos).gone + k) % (s.complete again pos).cap.toNat =
          (pos + 1).toNat + k := by
      intro k hk
      have hnext := hslot (k + 1) (by omega)
      rw [hgone, hframe.cap, hone, show s.gone + 1 + k = s.gone + (k + 1) by omega, hnext]
      omega
    obtain ⟨hok', hframe', hprepared', hgone'⟩ := ih hok hanswered' (by omega) hslot' (by omega)
    exact ⟨hok', hframe.trans hframe', hprepared'.trans hprepared, by rw [cmplLoop, hgone']; omega⟩

end

/-! ## The loops that fill a ring -/

def sndAt {α β : Type} (l : List (α × β)) (k : Nat) : Option β := (l[k]?).map Prod.snd

variable {α β : Type}

lemma sndAt_append {l : List (α × β)} (more : List (α × β)) (k : Nat) (b : β)
    (h : sndAt l k = some b) : sndAt (l ++ more) k = some b := by
  obtain ⟨p, hp, rfl⟩ := Option.map_eq_some_iff.mp h
  exact Option.map_eq_some_iff.mpr ⟨p, getElem?_append_some hp more, rfl⟩

lemma sndAt_concat {l : List (α × β)} {a : α} {b : β} :
    sndAt (l ++ [(a, b)]) l.length = some b := by
  rw [sndAt, List.getElem?_concat_length, Option.map_some]

section
variable {s : CmdSend} {answers : List (Cmd × Rsp)} {pos : UInt32}

lemma CmdSend.Ok.issue (h : s.Ok answers) (hpos : pos.toNat = s.prepared.length % s.cap.toNat)
    (hroom : s.prepared.length < s.gone + s.cap.toNat) (hgone : s.gone ≤ s.prepared.length)
    (prep : Nat → Cmd → Cmd) (cb : Nat) (rest : List Nat) :
    (s.issue prep pos cb rest).Ok answers := by
  have hpaired : ∀ cmd, Paired (s.prepared ++ [(cb, cmd)]) answers s.gone s.done := fun cmd => by
    simpa only [List.append_nil] using h.paired.mono [(cb, cmd)] []
  exact ⟨h.waiting.issue hpos hroom hgone, hpaired _⟩

/-- The second loop added commands to the record and wrote them into the ring. -/
structure CmdSend.Issued (answers : List (Cmd × Rsp)) (s : CmdSend) (r : Range) (lo n : Nat)
    (out : UInt32 × CmdSend) : Prop where
  ok : out.2.Ok answers
  frame : s.Frame out.2
  gone : out.2.gone = s.gone
  log : ∃ more, out.2.prepared = s.prepared ++ more
  shows : Shows s.cap.toNat (sndAt out.2.prepared) out.2.buf lo out.2.prepared.length
  pos : ∃ left, Filling s.cap { r with pos := out.1 } out.2.prepared.length s.gone left ∧
    s.prepared.length + n = out.2.prepared.length + left

lemma issueLoop_issued (prep : Nat → Cmd → Cmd) {n lo : Nat} {r : Range} (h : s.Ok answers)
    (hfill : Filling s.cap r s.prepared.length s.gone n)
    (hlo : s.gone ≤ lo ∧ lo ≤ s.prepared.length)
    (hshows : Shows s.cap.toNat (sndAt s.prepared) s.buf lo s.prepared.length) :
    s.Issued answers r lo n (issueLoop prep n r.pos s) := by
  -- induction on the rounds left, along the slots that the range has left
  induction n generalizing s r with
  | zero => exact ⟨h, .refl s, rfl, ⟨[], by rw [issueLoop, List.append_nil]⟩, hshows, 0, hfill, rfl⟩
  | succ n ih =>
    rw [issueLoop]
    split
    · exact ⟨h, .refl s, rfl, ⟨[], by rw [List.append_nil]⟩, hshows, n + 1, hfill, rfl⟩
    next cb rest hpend =>
      have hslot := hfill.slot
      have hfree := hfill.free
      have hok := h.issue hslot (by omega) hfill.le prep cb rest
      have hlen : (s.issue prep r.pos cb rest).prepared.length = s.prepared.length + 1 :=
        List.length_append
      have hshows' : Shows s.cap.toNat (sndAt (s.issue prep r.pos cb rest).prepared)
          (s.issue prep r.pos cb rest).buf lo (s.issue prep r.pos cb rest).prepared.length := by
        rw [hlen]
        simp only [CmdSend.issue, hslot]
        exact hshows.push hlo.2 (by omega) (sndAt_append _) sndAt_concat
      have hnext := hfill.succ
      rw [← hlen] at hnext
      obtain ⟨hok', hframe, hgone, ⟨more, hmore⟩, hshows, left, hfill', hleft⟩ :=
        ih (s := s.issue prep r.pos cb rest) (r := { r with pos := r.pos + 1 }) hok hnext
          ⟨hlo.1, by omega⟩ hshows'
      dsimp only at hleft
      refine ⟨hok', ⟨hframe.cap, hframe.rspBuf, hframe.prod, hframe.cons, hframe.cmpl⟩, hgone,
        ⟨_, hmore.trans (List.append_assoc ..)⟩, hshows, left, hfill', by omega⟩

end

def CmdRecv.Faithful (log : Nat → Option Cmd) (s : CmdRecv) : Prop :=
  ∀ k cmd rsp, s.answers[k]? = some (cmd, rsp) → log k = some cmd

structure CmdRecv.Handled (log : Nat → Option Cmd) (s : CmdRecv) (lo n : Nat)
    (t : CmdRecv) : Prop where
  faithful : t.Faithful log
  cap : t.cap = s.cap
  buf : t.buf = s.buf
  prod : t.prod = s.prod
  cons : t.cons = s.cons
  length : t.answers.length = s.answers.length + n
  log : ∃ more, t.answers = s.answers ++ more
  shows : Shows s.cap.toNat (sndAt t.answers) t.rspBuf lo t.answers.length

variable {log : Nat → Option Cmd} {s : CmdRecv}

lemma recvLoop_handled (env : Nat → RecvEnv) {pos : UInt32} {lo n : Nat} (h : s.Faithful log)
    (hread : ∀ k, k < n → log (s.answers.length + k) = some (s.buf (pos.toNat + k)))
    (hslot : ∀ k, k < n → (s.answers.length + k) % s.cap.toNat = pos.toNat + k)
    (hmax : pos.toNat + n < 2 ^ 32) (hlo : lo ≤ s.answers.length)
    (hroom : s.answers.length + n ≤ lo + s.cap.toNat)
    (hshows : Shows s.cap.toNat (sndAt s.answers) s.rspBuf lo s.answers.length) :
    CmdRecv.Handled log s lo n (recvLoop env n pos s) := by
  induction n generalizing s pos with
  | zero => exact ⟨h, rfl, rfl, rfl, rfl, rfl, ⟨[], by rw [recvLoop, List.append_nil]⟩, hshows⟩
  | succ _ ih =>
    have hone : (pos + 1).toNat = pos.toNat + 1 := toNat_succ (by omega)
    have hlen : (s.handle env pos).answers.length = s.answers.length + 1 := List.length_append
    have hfaithful : (s.handle env pos).Faithful log := by
      intro k cmd rsp hk
      rcases Nat.lt_or_ge k s.answers.length with hold | hge
      · exact h k cmd rsp ((List.getElem?_append_left hold).symm.trans hk)
      · have hlt := (List.getElem?_eq_some_iff.mp hk).1
        obtain rfl : k = s.answers.length := by omega
        have hlast := List.getElem?_concat_length.symm.trans hk
        rw [Option.some.injEq, Prod.mk.injEq] at hlast
        rw [← hlast.1]
        exact hread 0 (by omega)
    have hshows' : Shows s.cap.toNat (sndAt (s.handle env pos).answers) (s.handle env pos).rspBuf lo
        (s.handle env pos).answers.length := by
      have hpos : pos.toNat = s.answers.length % s.cap.toNat := (hslot 0 (by omega)).symm
      rw [hlen]
      simp only [CmdRecv.handle, hpos]
      exact hshows.push hlo (by omega) (sndAt_append _) sndAt_concat
    have hnext : ∀ k, (s.handle env pos).answers.length + k = s.answers.length + (k + 1) := by omega
    have hnext' : ∀ k, (pos + 1).toNat + k = pos.toNat + (k + 1) := by omega
    obtain ⟨hfaithful', hcap, hbuf, hprod, hcons, hlength, ⟨more, hmore⟩, hshows''⟩ :=
      ih hfaithful (fun k hk => by rw [hnext k, hnext' k]; exact hread (k + 1) (by omega))
        (fun k hk => by rw [hnext k, hnext' k]; exact hslot (k + 1) (by omega))
        (by omega) (by omega) (show _ ≤ lo + s.cap.toNat by omega) hshows'
    exact ⟨hfaithful', hcap, hbuf, hprod, hcons, by rw [recvLoop, hlength, hlen]; omega,
      ⟨_, hmore.trans (List.append_assoc ..)⟩, hshows''⟩

/-! ## The work of either host -/

section
variable {s : CmdSend} {answers : List (Cmd × Rsp)} {seen : Nat}

lemma CmdSend.completeAll_ok (hcap : Cap s.cap) (h : s.Ok answers)
    (hanswered : s.Answered answers seen) (hcmpl : Idx s.cap s.cmpl s.gone)
    (hcons : Idx s.cap s.cons seen) (hle : s.gone ≤ seen) (hfull : seen ≤ s.gone + s.cap.toNat)
    (again : Nat → Rsp → Bool) :
    let t := s.completeAll again
    t.Ok answers ∧ t.cap = s.cap ∧ t.rspBuf = s.rspBuf ∧ t.cons = s.cons ∧ t.prod = s.prod ∧
      t.prepared = s.prepared ∧ Idx s.cap t.cmpl t.gone ∧ s.gone ≤ t.gone ∧ t.gone ≤ seen := by
  have htaking := consume_taking hcap hcons hcmpl hle hfull
  have hstop := htaking.stop
  have hstop_le := htaking.stop_le
  have hlt := hcap.lt
  simp only [CmdSend.completeAll]
  generalize hr : consume s.cons s.cmpl s.cap = r at htaking hstop hstop_le
  generalize hn : r.stop.toNat - r.pos.toNat = n
  obtain ⟨hok, hframe, hprepared, hgone⟩ := cmplLoop_ok again (n := n) h hanswered (by omega)
    (fun k hk => htaking.slot_add (by omega)) (by omega)
  split
  · refine ⟨⟨hok.waiting, hok.paired⟩, hframe.cap, hframe.rspBuf, hframe.cons,
      hframe.prod, hprepared, ?_,
      by dsimp only; omega, by dsimp only; omega⟩
    rw [hgone, hframe.cap]
    exact (htaking.stands.add (by omega) hstop_le).update hcap
  · refine ⟨hok, hframe.cap, hframe.rspBuf, hframe.cons, hframe.prod,
      hprepared, ?_, by omega, by omega⟩
    rw [hframe.cmpl, hgone, show s.gone + n = s.gone by omega]
    exact hcmpl

lemma CmdSend.issueAll_ok (hcap : Cap s.cap) (h : s.Ok answers) (hcmpl : Idx s.cap s.cmpl s.gone)
    (hprod : Idx s.cap s.prod s.prepared.length) (hle : s.gone ≤ s.prepared.length)
    (prep : Nat → Cmd → Cmd) :
    let t := (s.issueAll prep).1
    t.Ok answers ∧ t.cap = s.cap ∧ t.rspBuf = s.rspBuf ∧ t.cons = s.cons ∧
      t.cmpl = s.cmpl ∧ t.gone = s.gone ∧
      Idx s.cap t.prod t.prepared.length ∧ (∃ more, t.prepared = s.prepared ++ more) ∧
      Sending s.cap.toNat (Idx s.cap) (sndAt t.prepared) s.prepared.length (s.issueAll prep).2
        t.prepared.length := by
  have hfill := produce_filling hcap hprod hcmpl hle h.waiting.full
  simp only [CmdSend.issueAll]
  generalize hr : (produce s.prod s.cmpl s.cap).2 = r at hfill
  have hstop := hfill.stop
  generalize hn : r.stop.toNat - r.pos.toNat = n
  rw [show min (s.gone + s.cap.toNat - s.prepared.length)
    (s.cap.toNat - s.prepared.length % s.cap.toNat) = n
    by omega] at hfill
  have hissued := issueLoop_issued prep h hfill ⟨hle, Nat.le_refl _⟩ Shows.nil
  generalize hout : issueLoop prep n r.pos s = out at hissued
  obtain ⟨hok, hframe, hgone, ⟨more, hmore⟩, hshows, left, hleft, hlen⟩ := hissued
  have hend := hleft.stop
  have hfits := hleft.stands.le
  dsimp only at hend hfits
  have hlonger : s.prepared.length ≤ out.2.prepared.length := by
    rw [hmore, List.length_append]; omega
  have hpos : out.1.toNat = r.pos.toNat + (out.2.prepared.length - s.prepared.length) := by omega
  split
  next hne =>
    rw [bne_iff_ne, ne_eq, ← UInt32.toNat_inj] at hne
    have hidx := hleft.update
    refine ⟨⟨hok.waiting, hok.paired⟩, hframe.cap, hframe.rspBuf, hframe.cons, hframe.cmpl, hgone,
      hframe.cap ▸ hidx, ⟨more, hmore⟩, ?_⟩
    exact sending_portion hshows (hfill.stands.slot hcap (by omega)) hpos hfits
      (show _ < out.2.prepared.length by omega) (hframe.cap ▸ hidx)
  next heq =>
    have hsame : out.1 = r.pos := by simpa using heq
    have hsame_len : out.2.prepared.length = s.prepared.length := by rw [hsame] at hpos; omega
    refine ⟨hok, hframe.cap, hframe.rspBuf, hframe.cons, hframe.cmpl, hgone, ?_, ⟨more, hmore⟩, ?_⟩
    · rwa [hframe.prod, hsame_len]
    · rw [hsame_len]
      exact .nil

end

lemma cmdRecvWork_ok {seen : Nat} (hcap : Cap s.cap) (h : s.Faithful log)
    (hcons : Idx s.cap s.cons s.answers.length) (hprod : Idx s.cap s.prod seen)
    (hread : ∀ k, s.answers.length ≤ k → k < seen → log k = some (s.buf (k % s.cap.toNat)))
    (hle : s.answers.length ≤ seen) (hfull : seen ≤ s.answers.length + s.cap.toNat)
    (env : Nat → RecvEnv) :
    let t := (cmdRecvWork env s).1
    t.Faithful log ∧ t.cap = s.cap ∧ t.buf = s.buf ∧ t.prod = s.prod ∧
      Idx s.cap t.cons t.answers.length ∧
      t.answers.length ≤ seen ∧ (∃ more, t.answers = s.answers ++ more) ∧
      Sending s.cap.toNat (Idx s.cap) (sndAt t.answers) s.answers.length (cmdRecvWork env s).2
        t.answers.length := by
  have htaking := consume_taking hcap hprod hcons hle hfull
  have hlt := hcap.lt
  simp only [cmdRecvWork]
  generalize hr : consume s.prod s.cons s.cap = r at htaking
  have hstop := htaking.stop
  have hstop_le := htaking.stop_le
  generalize hn : r.stop.toNat - r.pos.toNat = n
  have hslot : ∀ k, k < n → (s.answers.length + k) % s.cap.toNat = r.pos.toNat + k :=
    fun k hk => htaking.slot_add (by omega)
  obtain ⟨hfaithful, hcap', hbuf, hprod', hcons', hlen, ⟨more, hmore⟩, hshows⟩ :=
    recvLoop_handled env h
      (fun k hk => by rw [hread _ (by omega) (by omega), hslot k hk]) hslot
        (by omega) (Nat.le_refl _)
      (by omega) Shows.nil
  generalize recvLoop env n r.pos s = t at hfaithful hcap' hbuf hprod' hcons' hlen hmore hshows
  split
  · have hidx : Idx s.cap (update r.stop r.base t.cap) t.answers.length := by
      rw [hlen, hcap']
      exact (htaking.stands.add (by omega) hstop_le).update hcap
    refine ⟨hfaithful, hcap', hbuf, hprod', hidx, by dsimp only; omega, ⟨more, hmore⟩, ?_⟩
    exact sending_portion hshows htaking.slot (by dsimp only; omega) hstop_le
      (by dsimp only; omega) hidx
  · have hsame : t.answers.length = s.answers.length := by omega
    refine ⟨hfaithful, hcap', hbuf, hprod', ?_, by dsimp only; omega, ⟨more, hmore⟩, ?_⟩
    · rwa [hcons', hsame]
    · rw [hsame]
      exact .nil

/-! ## Whole runs -/

def CmdSys.Cmds (s : CmdSys) (seen : Nat) : Prop :=
  Mirror s.send.cap.toNat (Idx s.send.cap) (sndAt s.send.prepared) s.recv.buf s.recv.prod s.toPeer
    s.recv.answers.length seen s.send.prepared.length

def CmdSys.Rsps (s : CmdSys) (seen : Nat) : Prop :=
  Mirror s.send.cap.toNat (Idx s.send.cap) (sndAt s.recv.answers) s.send.rspBuf s.send.cons s.toHost
    s.send.gone seen s.recv.answers.length

/-- The rings are mirrored, and the counters gone, answered, prepared are in order, within one
revolution. -/
structure CmdSys.Inv (s : CmdSys) : Prop where
  cap : Cap s.send.cap
  same : s.recv.cap = s.send.cap
  cmpl : Idx s.send.cap s.send.cmpl s.send.gone
  prod : Idx s.send.cap s.send.prod s.send.prepared.length
  cons : Idx s.send.cap s.recv.cons s.recv.answers.length
  cmds : ∃ seen, s.Cmds seen
  rsps : ∃ seen, s.Rsps seen
  faithful : s.recv.Faithful (sndAt s.send.prepared)
  ok : s.send.Ok s.recv.answers

section
variable {s t : CmdSys}

lemma CmdSys.Inv.order (h : s.Inv) : s.send.gone ≤ s.recv.answers.length ∧
    s.recv.answers.length ≤ s.send.prepared.length ∧
    s.send.prepared.length ≤ s.send.gone + s.send.cap.toNat := by
  obtain ⟨seen, hcmds⟩ := h.cmds
  obtain ⟨seen', hrsps⟩ := h.rsps
  exact ⟨hrsps.lo_le.trans hrsps.seen_le, hcmds.lo_le.trans hcmds.seen_le, h.ok.waiting.full⟩

lemma CmdSys.Inv.answered {seen : Nat} (h : s.Inv) (hrsps : s.Rsps seen) :
    s.send.Answered s.recv.answers seen := by
  intro k hgone hseen
  obtain ⟨⟨cmd, rsp⟩, hk, hrsp⟩ := Option.map_eq_some_iff.mp (hrsps.entry hgone hseen)
  obtain ⟨⟨cb, cmd'⟩, hcb, rfl⟩ := Option.map_eq_some_iff.mp (h.faithful k cmd rsp hk)
  exact ⟨cb, cmd', hcb, hk.trans (by rw [← hrsp])⟩

lemma CmdSys.Inv.sendWork (h : s.Inv) (prep : Nat → Cmd → Cmd) (again : Nat → Rsp → Bool) :
    CmdSys.Inv { s with
      send := (cmdSendWork prep again s.send).1
      toPeer := s.toPeer ++ (cmdSendWork prep again s.send).2 } := by
  obtain ⟨hgone_le, hanswers_le, hfull⟩ := h.order
  obtain ⟨seen, hrsps⟩ := h.rsps
  obtain ⟨seen', hcmds⟩ := h.cmds
  have hseen := hrsps.seen_le
  obtain ⟨hok, hcap, hrspBuf, hcons, hprod, hprepared, hcmpl, hle, hle'⟩ :=
    s.send.completeAll_ok h.cap h.ok (h.answered hrsps) h.cmpl hrsps.idx
      hrsps.lo_le (by omega) again
  simp only [cmdSendWork]
  generalize s.send.completeAll again = mid at hok hcap hrspBuf hcons hprod hprepared hcmpl hle hle'
  obtain ⟨hok', hcap', hrspBuf', hcons', hcmpl', hgone', hidx, ⟨more, hmore⟩, hsending⟩ :=
    mid.issueAll_ok (hcap ▸ h.cap) hok (hcap ▸ hcmpl) (by rw [hcap, hprod, hprepared]; exact h.prod)
      (by rw [hprepared]; omega) prep
  rw [hprepared] at hmore
  rw [hcap] at hidx hsending hcap'
  rw [hprepared] at hsending
  refine ⟨?_, ?_, ?_, ?_, ?_, ?_, ?_, ?_, hok'⟩ <;> simp only [CmdSys.Cmds, CmdSys.Rsps, hcap']
  · exact h.cap
  · exact h.same
  · rw [hcmpl', hgone']
    exact hcmpl
  · exact hidx
  · exact h.cons
  · refine ⟨seen', Mirror.send ?_ hsending⟩
    rw [hmore]
    exact hcmds.log_mono (sndAt_append more)
  · rw [hrspBuf', hrspBuf, hcons', hcons, hgone']
    exact ⟨seen, hrsps.advance hle hle'⟩
  · intro k cmd rsp hk
    rw [hmore]
    exact sndAt_append more k cmd (h.faithful k cmd rsp hk)

lemma CmdSys.Inv.recvWork (h : s.Inv) (env : Nat → RecvEnv) :
    CmdSys.Inv { s with
      recv := (cmdRecvWork env s.recv).1
      toHost := s.toHost ++ (cmdRecvWork env s.recv).2 } := by
  obtain ⟨hgone_le, hanswers_le, hfull⟩ := h.order
  obtain ⟨seen, hrsps⟩ := h.rsps
  obtain ⟨seen', hcmds⟩ := h.cmds
  have hseen := hcmds.seen_le
  obtain ⟨hfaithful, hcap, hbuf, hprod, hcons, hle, ⟨more, hmore⟩, hsending⟩ :=
    cmdRecvWork_ok (h.same ▸ h.cap) h.faithful (h.same ▸ h.cons) (h.same ▸ hcmds.idx)
      (fun k hlo hhi => by rw [h.same]; exact hcmds.entry hlo hhi) hcmds.lo_le
        (by rw [h.same]; omega) env
  rw [h.same] at hcons hsending hcap
  have hpaired := h.ok.paired.mono [] more
  rw [List.append_nil, ← hmore] at hpaired
  refine ⟨h.cap, hcap, h.cmpl, h.prod, hcons, ?_, ?_, hfaithful, h.ok.waiting, hpaired⟩ <;>
    simp only [CmdSys.Cmds, CmdSys.Rsps]
  · rw [hbuf, hprod]
    exact ⟨seen', hcmds.advance (by rw [hmore, List.length_append]; omega) hle⟩
  · refine ⟨seen, Mirror.send ?_ hsending⟩
    rw [hmore]
    exact hrsps.log_mono (sndAt_append more)

lemma CmdSys.Inv.toPeer {msg : RingMsg Cmd UInt32} {rest : List (RingMsg Cmd UInt32)} (h : s.Inv)
    (hmsgs : s.toPeer = msg :: rest) : CmdSys.Inv
      { s with recv := s.recv.deliver msg, toPeer := rest } := by
  obtain ⟨hgone_le, hanswers_le, hfull⟩ := h.order
  obtain ⟨seen, hcmds⟩ := h.cmds
  rw [CmdSys.Cmds, hmsgs] at hcmds
  cases msg with
  | copy _ cmds => exact { h with cmds := ⟨seen, hcmds.deliver_copy (by omega)⟩ }
  | index =>
    obtain ⟨seen', -, hcmds'⟩ := hcmds.deliver_index
    exact { h with cmds := ⟨seen', hcmds'⟩ }

lemma CmdSys.Inv.toHost {msg : RingMsg Rsp UInt32} {rest : List (RingMsg Rsp UInt32)} (h : s.Inv)
    (hmsgs : s.toHost = msg :: rest) : CmdSys.Inv
      { s with send := s.send.deliver msg, toHost := rest } := by
  obtain ⟨hgone_le, hanswers_le, hfull⟩ := h.order
  obtain ⟨seen, hrsps⟩ := h.rsps
  rw [CmdSys.Rsps, hmsgs] at hrsps
  cases msg with
  | copy _ rsps =>
    exact { h with rsps := ⟨seen, hrsps.deliver_copy (by omega)⟩,
                   ok := ⟨h.ok.waiting, h.ok.paired⟩ }
  | index =>
    obtain ⟨seen', -, hrsps'⟩ := hrsps.deliver_index
    exact { h with rsps := ⟨seen', hrsps'⟩, ok := ⟨h.ok.waiting, h.ok.paired⟩ }

lemma CmdSys.Inv.step {act : CmdAct} (h : s.Inv) (hstep : cmdStep s act t) : t.Inv := by
  cases act with
  | add =>
    obtain ⟨send, hadd, rfl⟩ := Option.map_eq_some_iff.mp hstep
    rw [CmdSend.add] at hadd
    split at hadd <;> cases hadd
    exact { h with ok := ⟨h.ok.waiting, h.ok.paired⟩ }
  | sendWork prep again =>
    rw [cmdStep, CmdAct.apply, Option.some.injEq] at hstep
    subst hstep
    exact h.sendWork prep again
  | toPeer =>
    simp only [cmdStep, CmdAct.apply] at hstep
    split at hstep <;> cases hstep
    exact h.toPeer ‹_›
  | recvWork env =>
    rw [cmdStep, CmdAct.apply, Option.some.injEq] at hstep
    subst hstep
    exact h.recvWork env
  | toHost =>
    simp only [cmdStep, CmdAct.apply] at hstep
    split at hstep <;> cases hstep
    exact h.toHost ‹_›
  | unlink =>
    cases hstep
    exact { h with ok := ⟨h.ok.waiting.sublist List.eraseP_sublist, h.ok.paired⟩ }

lemma CmdSys.Inv.start {cap : UInt32} (hcap : Cap cap) (buf recvBuf : Nat → Cmd)
    (rspBuf recvRspBuf : Nat → Rsp) (dev : CmdDev) :
    (CmdSys.start cap buf recvBuf rspBuf recvRspBuf dev).Inv where
  cap := hcap
  same := rfl
  cmpl := (Nat.zero_mod _).symm
  prod := (Nat.zero_mod _).symm
  cons := (Nat.zero_mod _).symm
  cmds := ⟨0, .start (Nat.zero_mod _).symm⟩
  rsps := ⟨0, .start (Nat.zero_mod _).symm⟩
  faithful := nofun
  ok := ⟨⟨.nil, nofun, nofun, nofun, Nat.zero_le _⟩, ⟨.nil, nofun, nofun⟩⟩

lemma CmdSys.Inv.inPairs (h : s.Inv) : s.InPairs where
  once := List.pairwise_map.mpr (h.ok.paired.sorted.imp fun hlt => hlt.ne)
  own := h.ok.paired.own
  reuse := ⟨h.order.2.2, h.order.1⟩

end

/-- **Commands and responses are paired**: in every order of work, arrival and timeouts, each
posting is completed at most once, with the response to its own command. -/
theorem cmdRun_inPairs {cap : UInt32} {buf recvBuf : Nat → Cmd} {rspBuf recvRspBuf : Nat → Rsp}
    {dev : CmdDev} {s : CmdSys} (hcap : Cap cap)
    (h : Reaches cmdStep (CmdSys.start cap buf recvBuf rspBuf recvRspBuf dev) s) : s.InPairs := by
  have hinv := h.invariant (I := CmdSys.Inv) (CmdSys.Inv.start hcap buf
    recvBuf rspBuf recvRspBuf dev)
    fun _ _ _ hs hstep => hs.step hstep
  exact hinv.inPairs

def idleSys : CmdSys :=
  .start 2 (fun _ => emptyCmd) (fun _ => emptyCmd) (fun _ => successSlot)
    (fun _ => successSlot) idleDev

theorem cmdRun_inPairs_timeout : ∃ s, Reaches cmdStep idleSys s ∧
    s.send.done.map (fun d => (d.cb, d.posting)) = [(8, 1)] ∧ s.send.gone = 2 ∧ s.InPairs := by
  let acts : List CmdAct := [.add 7, .add 8, .sendWork (fun _ cmd => cmd) fun _ _ =>
    false, .toPeer, .toPeer,
    .recvWork fun _ => easyEnv, .unlink 7, .toHost, .toHost,
      .sendWork (fun _ cmd => cmd) fun _ _ => false]
  obtain ⟨s, hrun, hdone, hgone⟩ : ∃ s, Reaches cmdStep idleSys s ∧
      s.send.done.map (fun d => (d.cb, d.posting)) = [(8, 1)] ∧ s.send.gone = 2 :=
    ⟨_, Reaches.of_foldlM (l := acts) rfl, rfl, rfl⟩
  exact ⟨s, hrun, hdone, hgone, cmdRun_inPairs ⟨by decide, by decide⟩ hrun⟩

end Ntrdma
