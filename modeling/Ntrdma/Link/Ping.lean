import Ntrdma.Lib.Run
import Ntrdma.Link.Basic

/-!
# The heartbeat of the link

Model of the ping of `ntc_ntb_msi.c`. Each host writes the state it announces, with a sequence
number, into the memory of the peer: at every change, and from a timer. Another timer looks if what
the peer wrote has changed, and takes the link for lost after ten looks in vain
(`NTC_NTB_PING_MISS_THRESHOLD`), but not before it has found a change since the heartbeat was
started.

`Link/Pair` has a poll find the last announcement or lose the link at any time. Here is when it does
which. The timers may run at any time; what a poll compares are words of 32 bits, of which 16 are
the sequence number.
-/

namespace Ntrdma
open Lib

def pingMissThreshold : Nat := 10

def pingVal (msg seq : UInt16) : UInt32 := (msg.toUInt32 <<< 16) ||| seq.toUInt32

def pingMsg (val : UInt32) : UInt16 := (val >>> 16).toUInt16

structure PingDev where
  pingRun : Bool
  pingMiss : Nat
  pingSeq : UInt16
  pingMsg : UInt16
  pollVal : UInt32
  pollMsg : UInt16

namespace PingDev

/-- C `ntc_ntb_ping_pong`, with what is written to the peer. -/
def pong (dev : PingDev) : PingDev × Option UInt32 :=
  if dev.pingRun then
    let seq := dev.pingSeq + 1
    ({ dev with pingSeq := seq }, some (pingVal dev.pingMsg seq))
  else (dev, none)

def send (dev : PingDev) (msg : UInt16) : PingDev × Option UInt32 :=
    { dev with pingMsg := msg }.pong

/-- C `ntc_ntb_ping_poll`, with what the peer wrote last. -/
def poll (dev : PingDev) (ping : UInt32) : Bool × PingDev :=
  if dev.pingRun ∧ dev.pollVal ≠ ping then (true, { dev with pollVal := ping }) else (false, dev)

/-- C `ntc_ntb_ping_poll_cb`, with the call of `ntb_link_disable`. The link work is scheduled
whenever `pollMsg` changes. -/
def pollCb (dev : PingDev) (ping : UInt32) : PingDev × Bool :=
  match dev.poll ping with
  | (true, dev) => ({ dev with pingMiss := 0, pollMsg := Ntrdma.pingMsg dev.pollVal }, false)
  | (false, dev) =>
    if dev.pingMiss < pingMissThreshold then
      let dev := { dev with pingMiss := dev.pingMiss + 1 }
      if dev.pingMiss = pingMissThreshold then ({ dev with pollMsg := .ofNat linkQuiesce }, true)
      else (dev, false)
    else (dev, false)

def start (dev : PingDev) (ping : UInt32) : PingDev × Option UInt32 :=
  if dev.pingRun then (dev, none)
  else
    let (dev, val) := { dev with pingRun := true, pingMiss := pingMissThreshold }.pong
    ({ (dev.poll ping).2 with pollMsg := .ofNat linkQuiesce }, val)

def stop (dev : PingDev) : PingDev := { dev with pingRun := false }

end PingDev

/-! ## Two hosts -/

/-- A host with what it wrote and how much of the peer arrived: `view` now, and `seen` when a poll
last found a change or the heartbeat was started. `silent` counts the polls since, unless none found
a change. -/
structure PingNode where
  dev : PingDev
  out : List UInt32
  view : Nat
  seen : Nat
  silent : Option Nat

/-- What a word of memory holds after the first writes to it. -/
def wordAfter (out : List UInt32) (n : Nat) : UInt32 := ((out.take n).getLast?).getD 0

/-- The state that a host should go by. -/
def PingNode.heard (n : PingNode) (peer : List UInt32) : UInt16 :=
  match n.silent with
  | none => .ofNat linkQuiesce
  | some k => if k < pingMissThreshold then pingMsg (wordAfter peer n.seen) else .ofNat linkQuiesce

abbrev PingSys := Bool → PingNode

inductive PingAct where
  | pong
  | send (msg : UInt16)
  | start
  | stop
  | arrive
  | poll
  deriving DecidableEq, Repr

namespace PingSys

def ping (s : PingSys) (x : Bool) : UInt32 := wordAfter (s (!x)).out (s x).view

def act (s : PingSys) (x : Bool) : PingAct → PingNode
  | .pong => { s x with dev := (s x).dev.pong.1, out := (s x).out ++ (s x).dev.pong.2.toList }
  | .send msg =>
    { s x with dev := ((s x).dev.send msg).1, out := (s x).out ++ ((s x).dev.send msg).2.toList }
  | .start =>
    if (s x).dev.pingRun then s x
    else
      let res := (s x).dev.start (s.ping x)
      { s x with dev := res.1,
                 out := (s x).out ++ res.2.toList, seen := (s x).view, silent := none }
  | .stop => { s x with dev := (s x).dev.stop }
  | .arrive => { s x with view := (s x).view + 1 }
  | .poll =>
    let dev := ((s x).dev.pollCb (s.ping x)).1
    if (s x).dev.pingRun ∧ (s x).seen < (s x).view then
      { s x with dev, seen := (s x).view, silent := some 0 }
    else { s x with dev, silent := (s x).silent.map Nat.succ }

/-- Fewer than 2 ^ 16 pings arrive between two polls. -/
def allowed (s : PingSys) (x : Bool) : PingAct → Bool
  | .arrive => (s x).view < (s (!x)).out.length
  | .poll => (s x).view < (s x).seen + 2 ^ 16
  | _ => true

def apply (s : PingSys) (a : Bool × PingAct) : Option PingSys :=
  if s.allowed a.1 a.2 then some (Function.update s a.1 (s.act a.1 a.2)) else none

def Step (s : PingSys) (a : Bool × PingAct) (t : PingSys) : Prop := s.apply a = some t

def init : PingSys := fun _ =>
    ⟨⟨false, 0, 0, .ofNat linkEnabled, 0, .ofNat linkQuiesce⟩, [], 0, 0, some 0⟩

end PingSys

/-! ## What a poll finds -/

lemma pingVal_toNat (msg seq : UInt16) : (pingVal msg seq).toNat =
    msg.toNat * 2 ^ 16 + seq.toNat := by
  have hmsg := msg.toNat_lt
  have hseq := seq.toNat_lt
  rw [pingVal, UInt32.toNat_or, UInt32.toNat_shiftLeft,
    UInt16.toNat_toUInt32, UInt16.toNat_toUInt32,
    show (16 : UInt32).toNat % 32 = 16 by decide, Nat.shiftLeft_eq, Nat.mod_eq_of_lt (by omega),
    ← Nat.shiftLeft_eq, ← Nat.shiftLeft_add_eq_or_of_lt hseq, Nat.shiftLeft_eq]

/-- The writes of a host are numbered from 1 on. -/
def Numbered (out : List UInt32) : Prop := ∀ i v, out[i]? = some v →
    v.toNat % 2 ^ 16 = (i + 1) % 2 ^ 16

section
variable {out peer : List UInt32} {n m : Nat} {val : UInt32}

lemma wordAfter_append (hn : n ≤ out.length) (more : List UInt32) :
    wordAfter (out ++ more) n = wordAfter out n := by
  rw [wordAfter, wordAfter, List.take_append_of_le_length hn]

lemma Numbered.last (h : Numbered out) (hn : n ≤ out.length) :
    (wordAfter out n).toNat % 2 ^ 16 = n % 2 ^ 16 := by
  cases n with
  | zero => rfl
  | succ n =>
    have hlast : (out.take (n + 1)).getLast? = some out[n] := by
      rw [List.getLast?_take, if_neg (Nat.succ_ne_zero n), Nat.add_sub_cancel,
        List.getElem?_eq_getElem hn]
      rfl
    rw [wordAfter, hlast]
    exact h n _ (List.getElem?_eq_getElem hn)

lemma Numbered.snoc (h : Numbered out) (hval : val.toNat % 2 ^ 16 = (out.length + 1) % 2 ^ 16) :
    Numbered (out ++ [val]) := by
  intro i v hv
  rcases Nat.lt_trichotomy i out.length with hi | rfl | hi
  · rw [List.getElem?_append_left hi] at hv
    exact h i v hv
  · rw [List.getElem?_concat_length] at hv
    cases hv
    exact hval
  · rw [List.getElem?_eq_none (by rw [List.length_append, List.length_singleton]; omega)] at hv
    cases hv

/-- Words of fewer than 2 ^ 16 writes differ, so that a poll finds every change. -/
lemma Numbered.ne (h : Numbered out) (hn : n < m) (hm : m ≤ out.length) (hfew : m < n + 2 ^ 16) :
    wordAfter out n ≠ wordAfter out m := by
  intro heq
  have hwn := h.last (hn.le.trans hm)
  have hwm := h.last hm
  rw [heq] at hwn
  omega

structure PingNode.Inv (n : PingNode) (peer : List UInt32) : Prop where
  seq : n.dev.pingSeq.toNat = n.out.length % 2 ^ 16
  numbered : Numbered n.out
  view : n.view ≤ peer.length
  seen : n.seen ≤ n.view
  pollVal : n.dev.pollVal = wordAfter peer n.seen
  miss : n.dev.pingMiss = n.silent.elim pingMissThreshold (min pingMissThreshold)
  msg : n.dev.pollMsg = n.heard peer

variable {node : PingNode}

lemma PingNode.Inv.grow (h : node.Inv peer) (more : List UInt32) : node.Inv (peer ++ more) := by
  have hview := h.view
  have hseen := h.seen
  have hword := wordAfter_append (show node.seen ≤ peer.length by omega) more
  refine ⟨h.seq, h.numbered, ?_, hseen, by rw [hword, h.pollVal], h.miss, ?_⟩
  · rw [List.length_append]
    omega
  · rw [h.msg, PingNode.heard, PingNode.heard, hword]

/-- A poll finds a change exactly if it is the first after a ping arrived. -/
lemma PingNode.Inv.poll_eq (h : node.Inv peer) (hpeer : Numbered peer)
    (hfew : node.view < node.seen + 2 ^ 16) :
    node.dev.poll (wordAfter peer node.view) = if node.dev.pingRun ∧ node.seen < node.view then
      (true, { node.dev with pollVal := wordAfter peer node.view }) else (false, node.dev) := by
  have hiff : node.dev.pollVal ≠ wordAfter peer node.view ↔ node.seen < node.view := by
    rw [h.pollVal]
    refine ⟨fun hne => lt_of_le_of_ne h.seen fun heq => hne (by rw [heq]), fun hlt => ?_⟩
    exact hpeer.ne hlt h.view hfew
  simp only [PingDev.poll, hiff]

/-- The tenth poll in a row that is in vain takes the link for lost. -/
lemma PingNode.Inv.pollCb_miss (h : node.Inv peer) {ping : UInt32}
    (hmiss : node.dev.poll ping = (false, node.dev)) :
    ((node.dev.pollCb ping).2 = true ↔ node.silent = some (pingMissThreshold - 1)) ∧
      PingNode.Inv { node with dev := (node.dev.pollCb ping).1, silent := node.silent.map Nat.succ }
        peer := by
  have hpos : 0 < pingMissThreshold := by decide
  have hcount := h.miss
  have hmsg := h.msg
  simp only [PingDev.pollCb, hmiss]
  refine ⟨?_, ?_, h.numbered, h.view, h.seen, ?_, ?_, ?_⟩
  all_goals
    cases hsilent : node.silent <;> grind [PingNode.heard, PingNode.Inv]

lemma PingDev.poll_snd {dev : PingDev} {ping : UInt32} (hrun : dev.pingRun = true) :
    (dev.poll ping).2 = { dev with pollVal := ping } := by
  rw [PingDev.poll]
  split
  · rfl
  next hsame => rw [← not_and_not_right.1 hsame hrun]

lemma PingNode.Inv.pong (h : node.Inv peer) (msg : UInt16) :
    let res := { node.dev with pingMsg := msg }.pong
    PingNode.Inv { node with dev := res.1, out := node.out ++ res.2.toList } peer := by
  have hseq := h.seq
  dsimp only [PingDev.pong]
  split
  · have hnext : (node.dev.pingSeq + 1).toNat = (node.out.length + 1) % 2 ^ 16 := by
      rw [UInt16.toNat_add, hseq]
      exact Nat.mod_add_mod ..
    refine ⟨?_, h.numbered.snoc ?_, h.view, h.seen, h.pollVal, h.miss, h.msg⟩
    · exact hnext.trans (by rw [Option.toList_some, List.length_append, List.length_singleton])
    · rw [pingVal_toNat, hnext]
      omega
  · dsimp only
    rw [Option.toList_none, List.append_nil]
    exact ⟨h.seq, h.numbered, h.view, h.seen, h.pollVal, h.miss, h.msg⟩

end

namespace PingSys
variable {s t : PingSys} {a : Bool × PingAct}

lemma act_inv {x : Bool} {act : PingAct} (h : (s x).Inv (s (!x)).out)
    (hpeer : Numbered (s (!x)).out) (hallow : s.allowed x act = true) :
    (s.act x act).Inv (s (!x)).out := by
  cases act with
  | pong => exact h.pong (s x).dev.pingMsg
  | send msg => exact h.pong msg
  | start =>
    rw [PingSys.act]
    split
    · exact h
    next hrun =>
      let dev := { (s x).dev with
        pingRun := true, pingMiss := pingMissThreshold, pollVal := s.ping x,
          pollMsg := .ofNat linkQuiesce }
      have hstart : PingNode.Inv ⟨dev, (s x).out, (s x).view, (s x).view, none⟩ (s (!x)).out :=
        ⟨h.seq, h.numbered, h.view, le_rfl, rfl, rfl, rfl⟩
      have hpong := hstart.pong dev.pingMsg
      dsimp only [PingDev.start, PingDev.pong, dev] at hpong ⊢
      rw [if_pos rfl] at hpong
      rw [if_neg hrun, if_pos rfl]
      dsimp only
      rwa [PingDev.poll_snd rfl]
  | stop => exact ⟨h.seq, h.numbered, h.view, h.seen, h.pollVal, h.miss, h.msg⟩
  | arrive =>
    exact ⟨h.seq, h.numbered, of_decide_eq_true hallow,
      Nat.le_succ_of_le h.seen, h.pollVal, h.miss, h.msg⟩
  | poll =>
    have hpoll := h.poll_eq hpeer (of_decide_eq_true hallow)
    rw [PingSys.act]
    split
    next hfresh =>
      rw [if_pos hfresh] at hpoll
      dsimp only
      rw [PingDev.pollCb, ping, hpoll]
      exact ⟨h.seq, h.numbered, h.view, le_rfl, rfl, rfl, rfl⟩
    next hstale =>
      rw [if_neg hstale] at hpoll
      exact (h.pollCb_miss hpoll).2

lemma act_out (s : PingSys) (x : Bool) (act : PingAct) : ∃ more,
    (s.act x act).out = (s x).out ++ more := by
  cases act with
  | pong => exact ⟨_, rfl⟩
  | send => exact ⟨_, rfl⟩
  | start =>
    rw [PingSys.act]
    split
    · exact ⟨[], (List.append_nil _).symm⟩
    · exact ⟨_, rfl⟩
  | poll =>
    rw [PingSys.act]
    split <;> exact ⟨[], (List.append_nil _).symm⟩
  | _ => exact ⟨[], (List.append_nil _).symm⟩

lemma step_inv (h : ∀ x, (s x).Inv (s (!x)).out) (hstep : s.Step a t) : ∀ x,
    (t x).Inv (t (!x)).out := by
  obtain ⟨y, act⟩ := a
  obtain ⟨hallow, ht⟩ := Option.ite_none_right_eq_some.1 hstep
  cases ht
  have hact := act_inv (h y) (h (!y)).numbered hallow
  obtain ⟨more, hout⟩ := s.act_out y act
  intro x
  by_cases hx : x = y
  · subst hx
    rwa [Function.update_self, Function.update_of_ne (Bool.not_ne_self x)]
  · obtain rfl := Bool.eq_not_of_ne hx
    rw [Function.update_of_ne hx, Bool.not_not, Function.update_self, hout]
    have hpeer := (h (!y)).grow more
    rwa [Bool.not_not] at hpeer

/-- **The heartbeat**: a host goes by the last ping that a poll has found, and takes the link for
lost at the tenth poll in a row with no ping since. A heartbeat that was started waits for a first
ping. -/
theorem ping_lost_iff (h : Reaches Step init s) (x : Bool) :
    (s x).dev.pollMsg = (s x).heard (s (!x)).out ∧
      ((s x).view < (s x).seen + 2 ^ 16 → (((s x).dev.pollCb (s.ping x)).2 = true ↔
        ((s x).dev.pingRun = true → (s x).view = (s x).seen) ∧
          (s x).silent = some (pingMissThreshold - 1))) := by
  have hinv := h.invariant (I := fun s => ∀ x, (s x).Inv (s (!x)).out)
    (fun x => ⟨rfl, nofun, le_rfl, le_rfl, rfl, rfl, by cases x <;> decide⟩)
      (fun _ _ _ hs hstep => step_inv hs hstep)
  have hx := hinv x
  refine ⟨hx.msg, fun hfew => ?_⟩
  have hpoll := hx.poll_eq (hinv (!x)).numbered hfew
  by_cases hfresh : (s x).dev.pingRun ∧ (s x).seen < (s x).view
  · rw [if_pos hfresh] at hpoll
    rw [PingDev.pollCb, ping, hpoll]
    exact iff_of_false nofun fun hlost => hfresh.2.ne' (hlost.1 hfresh.1)
  · rw [if_neg hfresh] at hpoll
    rw [ping, (hx.pollCb_miss hpoll).1]
    refine ⟨fun hlost => ⟨fun hrun => ?_, hlost⟩, And.right⟩
    exact le_antisymm (not_lt.1 fun hlt => hfresh ⟨hrun, hlt⟩) hx.seen

theorem ping_lost_silent : ∃ s, Reaches Step init s ∧
    ((s true).dev.pollCb (s.ping true)).2 = true := by
  -- a ping is found, and then none in nine polls
  obtain ⟨s, hs, htest⟩ : ∃ s, Reaches Step init s ∧
      ((s true).view == (s true).seen && (s true).silent == some 9) = true :=
    Reaches.exists_of_foldlM ([(true, .start), (false, .start), (true, .arrive), (true, .poll)] ++
      List.replicate 9 (true, .poll)) (fun _ _ _ h => h) (by decide +kernel)
  obtain ⟨hview, hsilent⟩ := (Bool.and_eq_true ..).mp htest
  have hview := eq_of_beq hview
  exact ⟨s, hs, ((ping_lost_iff hs true).2 (by omega)).2 ⟨fun _ => hview, eq_of_beq hsilent⟩⟩

end PingSys

end Ntrdma
