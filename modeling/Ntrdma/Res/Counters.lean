import Ntrdma.Lib.Refcount
import Ntrdma.Res.MrKeys
import Ntrdma.Res.QpFailure

/-!
# The counters of objects

Model of the counters `cq_num`, `qp_num` and `mr_num` of a device through `ntrdma_create_cq_common`,
`ntrdma_create_qp`, `ntrdma_reg_user_mr` and their counterparts. Each of the three increments its
counter first and decrements it where it fails; the release functions of the objects decrement it as
well.

The references to an object are those of its user, of the file that was opened for it, those that a
queue pair has to its two completion queues, and others that come and go. A file that is closed
gives back its reference at once.
-/

namespace Ntrdma
open Lib

inductive Holder where
  | user
  | file
  | qpRecv (qp : Nat)
  | qpSend (qp : Nat)
  | other (n : Nat)
  deriving DecidableEq, Repr

def devMaxCq : Nat := 0x400

/-! ## Completion queues -/

/-- The arguments of `ntrdma_create_cq_common`, with what the kernel and the user answer. -/
structure CreateCqCall where
  compVector : UInt32
  vbellNext : UInt32
  slab : Bool
  inbuf : Option ExtInbuf
  outbuf : Option ExtOutbuf

/-- The file of `ntrdma_create_cq_common`. Where it cannot be made, the function returns at once;
other errors go on to `err_cq`. -/
def cqUserOut (p : Pool Holder) (cq : Nat) : Option ExtOutbuf → Except Errno Unit × Pool Holder
  | none => (.ok (), p)
  | some out =>
    match out.fd with
    | .error e => (.error e, (p.put cq .user).dec)
    | .ok () =>
      match out.file with
      | .error e => (.error e, p.put cq .user)
      | .ok () =>
        let p := p.get cq .file
        if !out.copied then (.error .efault, ((p.put cq .file).put cq .user).dec) else (.ok (), p)

/-- The part of `ntrdma_create_cq_common` that follows `ntrdma_cq_init`. -/
def cqUser (p : Pool Holder) (cq : Nat) (inbuf : Option ExtInbuf) (outbuf : Option ExtOutbuf) :
    Except Errno Unit × Pool Holder :=
  match inbuf with
  | none => cqUserOut p cq outbuf
  | some inp =>
    if !inp.copied then (.error .efault, (p.put cq .user).dec)
    else if !inp.goodDesc then (.ok (), p)
    else if !inp.pagePtr then (.error .einval, (p.put cq .user).dec)
    else
      match inp.pages with
      | .error e => (.error e, (p.put cq .user).dec)
      | .ok () => cqUserOut p cq outbuf

def createCqCommon (p : Pool Holder) (call : CreateCqCall) : Except Errno Unit × Pool Holder :=
  let p := p.inc
  if p.num ≥ devMaxCq then (.error .etoomanyrefs, p.dec)
  else
    match createCqVbell call.compVector call.vbellNext with
    | .error e => (.error e, p.dec)
    | .ok _ =>
      if !call.slab then (.error .enomem, p.dec)
      else cqUser (p.alloc .user) p.refs.length call.inbuf call.outbuf

/-! ## Regions -/

/-- C `ntrdma_reg_user_mr`, where `rc` is what `ntrdma_res_add` returns. -/
def regUserMrCounts (p : Pool Holder) (reg : RegMr) (rc : Int) : Pool Holder :=
  if reg.length > ibMrLimitBytes then p
  else
    let p := p.inc
    match regUserMr { reg.env with mrNum := p.num.toNat } reg.pdKey
      reg.start reg.length reg.virtAddr
        reg.access with
    | .error _ => p.dec
    | .ok _ =>
      let mr := p.refs.length
      let p := p.alloc .user
      if rc < 0 then p.put mr .user else p

/-! ## The objects of a device -/

/-- The objects of a device with their counters, and the completion queues of each queue pair. -/
structure Objects where
  cq : Pool Holder
  qp : Pool Holder
  mr : Pool Holder
  cqsOf : Nat → Nat × Nat

/-- A call of `ntrdma_create_qp` with the two completion queues and whether a key could be
reserved. -/
structure CountQpCall where
  call : CreateQpCall
  recvCq : Nat
  sendCq : Nat
  reserved : Bool

/-- The user gets a file, unless there is no room for it or the description is not the expected
one. -/
def CountQpCall.opensFile (c : CountQpCall) : Bool :=
    c.call.outbuf.isSome && c.call.inbuf.all (·.goodDesc)

namespace Objects

def getCqs (s : Objects) (qp recvCq sendCq : Nat) : Objects :=
  { s with cq := (s.cq.get recvCq (.qpRecv qp)).get sendCq (.qpSend qp) }

def putCqs (s : Objects) (qp recvCq sendCq : Nat) : Objects :=
  { s with cq := (s.cq.put sendCq (.qpSend qp)).put recvCq (.qpRecv qp) }

/-- C `ntrdma_qp_put`, with `qp_release_work` once the last reference is gone. -/
def putQp (s : Objects) (qp : Nat) (r : Holder) : Objects :=
  let t := { s with qp := s.qp.put qp r }
  if s.qp.refs[qp]? = some [r] then t.putCqs qp (s.cqsOf qp).1 (s.cqsOf qp).2 else t

def createQp (s : Objects) (c : CountQpCall) : Objects :=
  let p := s.qp.inc
  let qp := p.refs.length
  match createQpChecks { c.call with qpNum := p.num.toNat } with
  | .error _ => { s with qp := p.dec }
  | .ok () =>
    if !c.reserved then { s with qp := p.dec }
    else
      let t := s.getCqs qp c.recvCq c.sendCq
      match c.call.bufs with
      | .error _ => { t.putCqs qp c.recvCq c.sendCq with qp := p.dec }
      | .ok _ =>
        if c.call.add.rc ≠ 0 then { t.putCqs qp c.recvCq c.sendCq with qp := p.dec }
        else
          let t :=
            { t with qp := p.alloc .user, cqsOf := Function.update s.cqsOf qp (c.recvCq, c.sendCq) }
          match qpUser c.call.inbuf c.call.outbuf with
          | .error _ => t.putQp qp .user
          | .ok () => if c.opensFile then { t with qp := t.qp.get qp .file } else t

end Objects

inductive ObjKind where
  | cq | qp | mr
  deriving DecidableEq, Repr

/-- Creations, their counterparts, and references of others that are taken and given back. -/
inductive ObjOp where
  | createCq (call : CreateCqCall)
  | createQp (call : CountQpCall)
  | regMr (reg : RegMr) (rc : Int)
  | destroy (kind : ObjKind) (i : Nat)
  | closeFile (kind : ObjKind) (i : Nat)
  | get (kind : ObjKind) (i n : Nat)
  | put (kind : ObjKind) (i n : Nat)

namespace Objects

/-- A reference to an object is given back (`ntrdma_cq_put`, `ntrdma_qp_put`, `ntrdma_mr_put`). -/
def put (s : Objects) (kind : ObjKind) (i : Nat) (r : Holder) : Objects :=
  match kind with
  | .cq => { s with cq := s.cq.put i r }
  | .qp => s.putQp i r
  | .mr => { s with mr := s.mr.put i r }

/-- Another reference to an object that its user has (`ntrdma_cq_get`, `ntrdma_qp_get`,
`ntrdma_mr_get`). -/
def get (s : Objects) (kind : ObjKind) (i n : Nat) : Objects :=
  match kind with
  | .cq => if s.cq.Holds i .user then { s with cq := s.cq.get i (.other n) } else s
  | .qp => if s.qp.Holds i .user then { s with qp := s.qp.get i (.other n) } else s
  | .mr => if s.mr.Holds i .user then { s with mr := s.mr.get i (.other n) } else s

/-- The objects after an operation. The completion queues of a queue pair are ones that the user
has. -/
def exec (s : Objects) : ObjOp → Option Objects
  | .createCq call => some { s with cq := (createCqCommon s.cq call).2 }
  | .createQp c =>
    some (if s.cq.Holds c.recvCq .user ∧ s.cq.Holds c.sendCq .user then s.createQp c else s)
  | .regMr reg rc => some { s with mr := regUserMrCounts s.mr reg rc }
  | .destroy kind i => some (s.put kind i .user)
  | .closeFile kind i => some (s.put kind i .file)
  | .get kind i n => some (s.get kind i n)
  | .put kind i n => some (s.put kind i (.other n))

end Objects

/-- A counter says how many objects there are, which are fewer than the limit. -/
structure Lib.Pool.Counts (p : Pool Holder) (max : Nat) : Prop where
  num : p.num = p.live
  lt : p.live < max

/-- Each counter says how many objects of its kind there are, and each limit is kept. -/
structure Objects.Counted (s : Objects) : Prop where
  cq : s.cq.Counts devMaxCq
  qp : s.qp.Counts devMaxQp
  mr : s.mr.Counts devMaxMr

/-- The file of a completion queue is made without an error, or fails in `anon_inode_getfile`. -/
def CqOutFine (outbuf : Option ExtOutbuf) : Prop :=
  ∀ out, outbuf = some out → out.fd = .ok () ∧ (out.file = .ok () → out.copied = true)

/-- The exchange with the user of a completion queue has no error, but for one in
`anon_inode_getfile`. -/
def CqUserFine (inbuf : Option ExtInbuf) (outbuf : Option ExtOutbuf) : Prop :=
  (inbuf = none → CqOutFine outbuf) ∧
    ∀ inp, inbuf = some inp → inp.copied = true ∧
      (inp.goodDesc = true → inp.pagePtr = true ∧ inp.pages = .ok () ∧ CqOutFine outbuf)

/-- A completion queue that is allocated has no error later on, but for one in
`anon_inode_getfile`. -/
def CqCallFine (p : Pool Holder) (call : CreateCqCall) : Prop :=
  p.num + 1 < devMaxCq → (∃ vbell, createCqVbell call.compVector call.vbellNext = .ok vbell) →
    call.slab = true → CqUserFine call.inbuf call.outbuf

/-- The condition on the operations: completion queues are created without an error in the exchange
with the user. -/
def Objects.Fine (s : Objects) : ObjOp → Prop
  | .createCq call => CqCallFine s.cq call
  | _ => True

/-! ## What the creation of a completion queue does to its counter -/

/-- No objects are added, and the counter goes with them under a condition, and is one too low
without. -/
structure Settles (p p' : Pool Holder) (fine : Prop) : Prop where
  keeps : fine → p'.excess = p.excess
  off : ¬ fine → p'.excess = p.excess - 1
  live : p'.live ≤ p.live

section
variable {p : Pool Holder} {cq : Nat}

lemma settles_errCq {fine : Prop} (h : ¬ fine) : Settles p ((p.put cq .user).dec) fine where
  keeps hfine := absurd hfine h
  off _ := by rw [Pool.excess_dec, Pool.excess_put]
  live := Pool.live_put_le _

lemma cqUserOut_settles (hcq : p.Holds cq .user) (outbuf : Option ExtOutbuf) :
    Settles p (cqUserOut p cq outbuf).2 (CqOutFine outbuf) := by
  cases outbuf with
  | none =>
    refine ⟨fun _ => rfl, fun hnot => absurd (fun out hout => ?_) hnot, Nat.le_refl _⟩
    cases hout
  | some out =>
    rw [CqOutFine, cqUserOut]
    simp only [Option.some.injEq, forall_eq']
    cases out.fd with
    | error =>
      refine settles_errCq ?_
      rintro ⟨⟨⟩, -⟩
    | ok =>
      cases out.file with
      | error =>
        refine ⟨fun _ => Pool.excess_put _, fun hnot => absurd ⟨rfl, fun hfile => ?_⟩ hnot,
          Pool.live_put_le _⟩
        cases hfile
      | ok =>
        dsimp only
        cases out.copied with
        | true =>
          exact ⟨fun _ => Pool.excess_get hcq, fun hnot => absurd ⟨rfl, fun _ => rfl⟩ hnot,
            (Pool.live_get hcq).le⟩
        | false =>
          refine ⟨fun hfine => absurd (hfine.2 rfl) Bool.false_ne_true, fun _ => ?_, ?_⟩
          · simp only [Bool.not_false, if_true, Pool.excess_dec, Pool.excess_put]
            rw [Pool.excess_get hcq]
          · refine ((Pool.live_put_le _).trans (Pool.live_put_le _)).trans ?_
            exact (Pool.live_get hcq).le

lemma cqUser_settles (hcq : p.Holds cq .user) (inbuf : Option ExtInbuf)
    (outbuf : Option ExtOutbuf) :
    Settles p (cqUser p cq inbuf outbuf).2 (CqUserFine inbuf outbuf) := by
  have hout := cqUserOut_settles hcq outbuf
  cases inbuf with
  | none =>
    have hiff : CqUserFine none outbuf ↔ CqOutFine outbuf := by
      refine ⟨fun hfine => hfine.1 rfl, fun hfine => ⟨fun _ => hfine, fun inp hinp => ?_⟩⟩
      cases hinp
    rw [hiff]
    exact hout
  | some inp =>
    have hiff : CqUserFine (some inp) outbuf ↔ inp.copied = true ∧
        (inp.goodDesc = true → inp.pagePtr = true ∧ inp.pages = .ok () ∧ CqOutFine outbuf) := by
      simp only [CqUserFine, reduceCtorEq, false_implies, true_and, Option.some.injEq, forall_eq']
    rw [hiff, cqUser]
    cases inp.copied with
    | false => exact settles_errCq fun hfine => Bool.false_ne_true hfine.1
    | true =>
      cases inp.goodDesc with
      | false =>
        refine ⟨fun _ => rfl, fun hnot => absurd ⟨rfl, fun hgood => ?_⟩ hnot, Nat.le_refl _⟩
        cases hgood
      | true =>
        simp only [true_and, forall_const]
        cases inp.pagePtr with
        | false => exact settles_errCq fun hfine => Bool.false_ne_true hfine.1
        | true =>
          cases inp.pages with
          | error =>
            refine settles_errCq ?_
            rintro ⟨-, ⟨⟩, -⟩
          | ok =>
            simp only [true_and]
            exact hout

lemma Lib.Pool.holds_alloc (p : Pool Holder) : (p.alloc .user).Holds p.refs.length .user :=
  ⟨[.user], by rw [Pool.alloc, List.getElem?_concat_length], List.mem_cons_self⟩

lemma createCqCommon_settles (call : CreateCqCall) :
    (CqCallFine p call → (createCqCommon p call).2.excess = p.excess) ∧
      (¬ CqCallFine p call → (createCqCommon p call).2.excess = p.excess - 1) ∧
      ((createCqCommon p call).2.live ≤ p.live ∨
        p.num + 1 < devMaxCq ∧ (createCqCommon p call).2.live ≤ p.live + 1) := by
  have hback : p.inc.dec.excess = p.excess := by
    rw [Pool.excess_dec, Pool.excess_inc]
    omega
  rw [createCqCommon]
  by_cases hmax : p.inc.num ≥ devMaxCq
  · rw [if_pos hmax]
    refine ⟨fun _ => hback, fun hnot => absurd (fun hlt => ?_) hnot, .inl (Nat.le_refl _)⟩
    exact absurd hlt (Int.not_lt.2 hmax)
  rw [if_neg hmax]
  have hlt : p.num + 1 < devMaxCq := Int.not_le.1 hmax
  cases hvbell : createCqVbell call.compVector call.vbellNext with
  | error =>
    refine ⟨fun _ => hback, fun hnot => absurd (fun _ hok => ?_) hnot, .inl (Nat.le_refl _)⟩
    obtain ⟨vbell, hok⟩ := hok
    rw [hvbell] at hok
    cases hok
  | ok vbell =>
    dsimp only
    cases hslab : call.slab with
    | false =>
      refine ⟨fun _ => hback, fun hnot => absurd (fun _ _ hok => ?_) hnot, .inl (Nat.le_refl _)⟩
      rw [hslab] at hok
      cases hok
    | true =>
      have huser := cqUser_settles (Lib.Pool.holds_alloc p.inc) call.inbuf call.outbuf
      have hiff : CqCallFine p call ↔ CqUserFine call.inbuf call.outbuf :=
        ⟨fun hfine => hfine hlt ⟨vbell, hvbell⟩ hslab, fun hfine _ _ _ => hfine⟩
      have hstart : (p.inc.alloc .user).excess = p.excess := by
        rw [Pool.excess_alloc, Pool.excess_inc]
        omega
      rw [hiff, ← hstart]
      refine ⟨huser.keeps, huser.off, .inr ⟨hlt, huser.live.trans ?_⟩⟩
      rw [Pool.live_alloc, Pool.live_inc]

/-! ## What the operations keep -/

variable {max : Nat}

lemma Lib.Pool.Counts.excess (h : p.Counts max) : p.excess = 0 := by
  rw [Pool.excess, h.num, Int.sub_self]

lemma Lib.Pool.counts_of_excess {p' : Pool Holder} (hexcess : p'.excess = 0) (hlt : p'.live < max) :
    p'.Counts max :=
  ⟨Int.sub_eq_zero.1 hexcess, hlt⟩

lemma Lib.Pool.Counts.put (h : p.Counts max) (i : Nat) (r : Holder) : (p.put i r).Counts max :=
  counts_of_excess ((excess_put r).trans h.excess) (Nat.lt_of_le_of_lt (live_put_le r) h.lt)

lemma Lib.Pool.Counts.get (h : p.Counts max) {i : Nat} {r' : Holder} (hholds : p.Holds i r')
    (r : Holder) : (p.get i r).Counts max :=
  counts_of_excess ((excess_get hholds).trans h.excess) ((live_get hholds).trans_lt h.lt)

lemma Lib.Pool.Counts.inc_dec (h : p.Counts max) : p.inc.dec.Counts max := by
  refine counts_of_excess ?_ h.lt
  rw [excess_dec, excess_inc, h.excess]
  rfl

lemma Lib.Pool.Counts.inc_alloc (h : p.Counts max) (hlt : p.inc.num.toNat < max) (r : Holder) :
    (p.inc.alloc r).Counts max := by
  have hnum : p.inc.num = p.live + 1 := congrArg (· + 1) h.num
  refine counts_of_excess ?_ ?_
  · rw [excess_alloc, excess_inc, h.excess]
    rfl
  · rw [live_alloc, live_inc]
    omega

variable {call : CreateCqCall}

lemma Lib.Pool.Counts.createCq (h : p.Counts devMaxCq) (hfine : CqCallFine p call) :
    (createCqCommon p call).2.Counts devMaxCq := by
  obtain ⟨hkeeps, -, hlive⟩ := createCqCommon_settles call (p := p)
  have hnum := h.num
  have hlt := h.lt
  exact counts_of_excess ((hkeeps hfine).trans h.excess) (by omega)

lemma Lib.Pool.Counts.createCq_off (h : p.Counts devMaxCq) (hnot : ¬ CqCallFine p call) :
    ¬ (createCqCommon p call).2.Counts devMaxCq := by
  intro hcounts
  have hoff := (createCqCommon_settles call (p := p)).2.1 hnot
  rw [hcounts.excess, h.excess] at hoff
  omega

lemma regUserMr_mrNum {env : RegMrEnv} {pdKey access : UInt32} {start length virtAddr : UInt64}
    {mr : MrObj} (h : regUserMr env pdKey start length virtAddr access = .ok mr) :
    env.mrNum < devMaxMr := by
  rw [regUserMr] at h
  split at h
  · cases h
  split at h
  · cases h
  next hlt => exact Nat.not_le.1 hlt

lemma Lib.Pool.Counts.regMr (h : p.Counts devMaxMr) (reg : RegMr) (rc : Int) :
    (regUserMrCounts p reg rc).Counts devMaxMr := by
  rw [regUserMrCounts]
  split
  · exact h
  · dsimp only
    split
    · exact h.inc_dec
    next hok =>
      have halloc := h.inc_alloc (regUserMr_mrNum hok) .user
      split
      · exact halloc.put _ _
      · exact halloc

end

lemma createQpChecks_qpNum {call : CreateQpCall} (h : createQpChecks call = .ok ()) :
    call.qpNum < devMaxQp := by
  rw [createQpChecks] at h
  split at h
  · cases h
  next hlt => exact Nat.not_le.1 hlt

namespace Objects
variable {s : Objects}

lemma Counted.putCqs (h : s.Counted) (qp recvCq sendCq : Nat) :
    (s.putCqs qp recvCq sendCq).Counted :=
  ⟨(h.cq.put _ _).put _ _, h.qp, h.mr⟩

lemma Counted.getCqs (h : s.Counted) (qp : Nat) {recvCq sendCq : Nat}
    (hrecv : s.cq.Holds recvCq .user) (hsend : s.cq.Holds sendCq .user) :
    (s.getCqs qp recvCq sendCq).Counted :=
  ⟨(h.cq.get hrecv _).get hsend.get _, h.qp, h.mr⟩

lemma Counted.putQp (h : s.Counted) (qp : Nat) (r : Holder) : (s.putQp qp r).Counted := by
  have hput : Counted { s with qp := s.qp.put qp r } := ⟨h.cq, h.qp.put _ _, h.mr⟩
  rw [Objects.putQp]
  split
  · exact hput.putCqs _ _ _
  · exact hput

lemma Counted.createQp (h : s.Counted) {c : CountQpCall} (hrecv : s.cq.Holds c.recvCq .user)
    (hsend : s.cq.Holds c.sendCq .user) : (s.createQp c).Counted := by
  have hgets := fun qp => h.getCqs qp hrecv hsend
  have hputs := fun qp => ((hgets qp).putCqs qp c.recvCq c.sendCq).cq
  rw [Objects.createQp]
  split
  · exact ⟨h.cq, h.qp.inc_dec, h.mr⟩
  rename_i hchecks
  have hnew : ∀ cqsOf, Counted
      { s.getCqs s.qp.inc.refs.length c.recvCq c.sendCq with qp := s.qp.inc.alloc .user, cqsOf } :=
    fun cqsOf => ⟨(hgets _).cq, h.qp.inc_alloc (createQpChecks_qpNum hchecks) .user, h.mr⟩
  split
  · exact ⟨h.cq, h.qp.inc_dec, h.mr⟩
  split
  · exact ⟨hputs _, h.qp.inc_dec, h.mr⟩
  split
  · exact ⟨hputs _, h.qp.inc_dec, h.mr⟩
  split
  · exact (hnew _).putQp _ _
  split
  · exact ⟨(hnew s.cqsOf).cq, (hnew s.cqsOf).qp.get (Lib.Pool.holds_alloc s.qp.inc) _, h.mr⟩
  · exact hnew _

lemma Counted.put (h : s.Counted) (kind : ObjKind) (i : Nat) (r : Holder) :
    (s.put kind i r).Counted := by
  cases kind with
  | cq => exact ⟨h.cq.put _ _, h.qp, h.mr⟩
  | qp => exact h.putQp i r
  | mr => exact ⟨h.cq, h.qp, h.mr.put _ _⟩

lemma Counted.get (h : s.Counted) (kind : ObjKind) (i n : Nat) : (s.get kind i n).Counted := by
  cases kind with
  | cq =>
    rw [Objects.get]
    split
    next hholds => exact ⟨h.cq.get hholds _, h.qp, h.mr⟩
    · exact h
  | qp =>
    rw [Objects.get]
    split
    next hholds => exact ⟨h.cq, h.qp.get hholds _, h.mr⟩
    · exact h
  | mr =>
    rw [Objects.get]
    split
    next hholds => exact ⟨h.cq, h.qp, h.mr.get hholds _⟩
    · exact h

variable {op : ObjOp}

lemma Counted.exec (h : s.Counted) (hfine : s.Fine op) : ∃ t, s.exec op = some t ∧ t.Counted := by
  cases op with
  | createCq => exact ⟨_, rfl, h.cq.createCq hfine, h.qp, h.mr⟩
  | createQp =>
    refine ⟨_, rfl, ?_⟩
    split
    next hcqs => exact h.createQp hcqs.1 hcqs.2
    · exact h
  | regMr reg rc => exact ⟨_, rfl, h.cq, h.qp, h.mr.regMr reg rc⟩
  | destroy kind i => exact ⟨_, rfl, h.put kind i .user⟩
  | closeFile kind i => exact ⟨_, rfl, h.put kind i .file⟩
  | get kind i n => exact ⟨_, rfl, h.get kind i n⟩
  | put kind i n => exact ⟨_, rfl, h.put kind i (.other n)⟩

lemma Counted.exec_off {t : Objects} (h : s.Counted) (hnot : ¬ s.Fine op)
    (hexec : s.exec op = some t) : ¬ t.Counted := by
  cases op with
  | createCq =>
    cases hexec
    exact fun ht => h.cq.createCq_off hnot ht.cq
  | createQp => exact absurd trivial hnot
  | regMr => exact absurd trivial hnot
  | destroy => exact absurd trivial hnot
  | closeFile => exact absurd trivial hnot
  | get => exact absurd trivial hnot
  | put => exact absurd trivial hnot

def start : Objects := ⟨⟨0, []⟩, ⟨0, []⟩, ⟨0, []⟩, fun _ => (0, 0)⟩

lemma counted_start : start.Counted :=
  ⟨⟨rfl, by decide⟩, ⟨rfl, by decide⟩, ⟨rfl, by decide⟩⟩

/-- After each call the counters say how many objects there are and keep the limits, exactly if each
completion queue that is allocated has no error later on, but for one in `anon_inode_getfile`. -/
theorem objects_counted_iff (ops : List ObjOp) : Always exec Counted start ops ↔
    Each exec Fine start ops :=
  always_iff_each (fun _ h => h) (fun _ _ h hfine => h.exec hfine)
    (fun _ _ _ h hnot hexec => h.exec_off hnot hexec) counted_start ops

def pagelessCq : CreateCqCall := ⟨0, 0, true, some ⟨true, true, false, .ok ()⟩, none⟩

/-- The counter of completion queues is negative after such a creation, so that the limit is not
kept. -/
theorem objects_miscounted :
    ((start.exec (.createCq pagelessCq)).map fun s => (s.cq.num, s.cq.live)) = some (-1, 0) ∧
      ¬ Always exec Counted start [.createCq pagelessCq] := by
  refine ⟨by decide, fun halways => ?_⟩
  obtain ⟨t, ht, hcounted⟩ := halways.foldlM
  cases ht
  exact absurd hcounted.cq.num (by decide)

end Objects

end Ntrdma
