import Ntrdma.Cmd.Regions

/-!
# Commands that create a queue pair and fail

What the handler of `QP_CREATE` (`ntrdma_cmd_recv_qp_create`) leaves behind: the table of the queue
pairs of the peer, the remote buffers that are mapped for DMA, and the ring buffers that
`ntrdma_rqp_init` allocates. The handler maps the buffer for the completions of the sends before it
calls `ntrdma_rqp_init`, and the label for a failure of that call is behind the unmapping: the
buffer stays mapped (`qpCreate_atomic_iff`).

The table changes as in `Ntrdma.Res.Remote` (`rqpCreate_store`). The memory of the queue pair itself
and the index of its doorbell are left out.
-/

namespace Ntrdma
open Lib

/-- The buffers that `ntrdma_rqp_init` allocates. -/
inductive RqpBuf where
  | sendWqe
  | sendCqe
  | recvWqe
  deriving DecidableEq, Repr

/-- The remote buffers that are mapped, and the ring buffers of the queue pairs that are
allocated. -/
structure QpMem where
  mapped : Multiset RemoteBuf
  bufs : Multiset (Nat × RqpBuf)
  deriving DecidableEq

def QpMem.alloc (m : QpMem) (r : Nat) (buf : RqpBuf) : QpMem :=
    { m with bufs := (r, buf) ::ₘ m.bufs }

def QpMem.free (m : QpMem) (r : Nat) (buf : RqpBuf) : QpMem :=
    { m with bufs := m.bufs.erase (r, buf) }

/-- What the allocations of `ntrdma_rqp_init` return, and C `ntrdma_dev_vbell_next`. -/
structure RqpAllocs where
  sendWqeBuf : Except Errno Unit
  sendCqeBuf : Except Errno Unit
  recvWqeBuf : Except Errno Unit
  sendVbellIdx : UInt32

/-- C `ntrdma_rqp_init_deinit` from the label `err_vbell_idx` on. -/
def rqpDeinit (r : Nat) (m : QpMem) : QpMem := ((m.free r .recvWqe).free r .sendCqe).free r .sendWqe

/-- C `ntrdma_rqp_init`. -/
def rqpInitBufs (allocs : RqpAllocs) (r : Nat) (m : QpMem) : Except Errno Unit × QpMem :=
  match allocs.sendWqeBuf with
  | .error e => (.error e, m)
  | .ok () =>
    let m := m.alloc r .sendWqe
    match allocs.sendCqeBuf with
    | .error e => (.error e, m.free r .sendWqe)
    | .ok () =>
      let m := m.alloc r .sendCqe
      match allocs.recvWqeBuf with
      | .error e => (.error e, (m.free r .sendCqe).free r .sendWqe)
      | .ok () =>
        let m := m.alloc r .recvWqe
        if allocs.sendVbellIdx ≥ devVbellCount then (.error .einval, rqpDeinit r m)
        else (.ok (), m)

structure QpSys where
  store : RresStore
  mem : QpMem

/-- C `ntrdma_cmd_recv_qp_create`: its result and what it leaves behind; `none` where the table is
overrun. -/
def rqpCreate (mapper : Mapper) (alloc : Bool) (allocs : RqpAllocs) (vecAlloc : Bool) (s : QpSys)
    (cmd : CmdQpCreate) : Option (Except Errno Unit × QpSys) :=
  match qpCreateSanity cmd with
  | .error e => some (.error e, s)
  | .ok () =>
    if !alloc then some (.error .enomem, s)
    else
      match SgMem.map (mapper.ntc 0) ⟨fun _ => ⟨0, 0⟩, s.mem.mapped⟩ 0 cmd.sendCqeBufDesc with
      | (.error e, attr) => some (.error e, { s with mem := { s.mem with mapped := attr.mapped } })
      | (.ok (), attr) =>
        match rqpInitBufs allocs s.store.next { s.mem with mapped := attr.mapped } with
        | (.error e, mem) => some (.error e, { s with mem })
        | (.ok (), mem) =>
          match (s.store.init .rqp cmd.qpKey).add s.store.next vecAlloc with
          | none => none
          | some (.error e, store) =>
            some (.error e,
              ⟨store, { rqpDeinit s.store.next mem with mapped := (attr.unmap 0).mapped }⟩)
          | some (.ok (), store) => some (.ok (), ⟨store, mem⟩)

/-- The table, the queue pairs that exist, the mapped buffers and the ring buffers are as before. -/
structure QpSys.Unchanged (s t : QpSys) : Prop where
  list : t.store.list = s.store.list
  vec : t.store.vec = s.store.vec
  rres : ∀ r < s.store.next, t.store.rres r = s.store.rres r
  mapped : t.mem.mapped = s.mem.mapped
  bufs : t.mem.bufs = s.mem.bufs

lemma QpSys.Unchanged.refl (s : QpSys) : QpSys.Unchanged s s := ⟨rfl, rfl, fun _ _ => rfl, rfl, rfl⟩

def RqpAllocs.Fails (allocs : RqpAllocs) : Prop := (rqpInitBufs allocs 0 ⟨0, 0⟩).1 ≠ .ok ()

/-- The handler gets as far as `ntrdma_rqp_init`, with a buffer mapped for the completions. -/
def MapsCqeBuf (ntc : NtcDev) (alloc : Bool) (cmd : CmdQpCreate) : Prop :=
  qpCreateSanity cmd = .ok () ∧ alloc = true ∧ cmd.sendCqeBufDesc.chanAddr ≠ 0 ∧
    (ntcRemoteBufMap ntc cmd.sendCqeBufDesc).isOk = true

section
variable {r : Nat} {m : QpMem} {allocs : RqpAllocs}

@[simp]
lemma QpMem.free_alloc (buf : RqpBuf) : (m.alloc r buf).free r buf = m := by
  rw [free, alloc, Multiset.erase_cons_head]

/-- Where it fails, everything is freed again; where it succeeds, `ntrdma_rqp_deinit` does so. -/
lemma rqpInitBufs_cases (allocs : RqpAllocs) (r : Nat) (m : QpMem) :
    (allocs.Fails ∧ ∃ e, rqpInitBufs allocs r m = (.error e, m)) ∨
      (¬ allocs.Fails ∧ ∃ m', rqpInitBufs allocs r m = (.ok (), m') ∧ rqpDeinit r m' = m) := by
  rw [RqpAllocs.Fails, rqpInitBufs, rqpInitBufs]
  cases allocs.sendWqeBuf with
  | error e => exact .inl ⟨nofun, e, rfl⟩
  | ok =>
    cases allocs.sendCqeBuf with
    | error e => exact .inl ⟨nofun, e, by simp⟩
    | ok =>
      cases allocs.recvWqeBuf with
      | error e => exact .inl ⟨nofun, e, by simp⟩
      | ok =>
        dsimp only
        split
        · exact .inl ⟨nofun, .einval, by simp [rqpDeinit]⟩
        · exact .inr ⟨fun h => h rfl, _, rfl, by simp [rqpDeinit]⟩

lemma rqpInitBufs_fst (allocs : RqpAllocs) (r : Nat) (m : QpMem) :
    (rqpInitBufs allocs r m).1 = (rqpInitBufs allocs 0 ⟨0, 0⟩).1 := by
  rw [rqpInitBufs, rqpInitBufs]
  cases allocs.sendWqeBuf with
  | error => rfl
  | ok =>
    cases allocs.sendCqeBuf with
    | error => rfl
    | ok =>
      cases allocs.recvWqeBuf with
      | error => rfl
      | ok =>
        dsimp only
        split <;> rfl

lemma mapCqeBuf_cases (mapper : Mapper) (mapped : Multiset RemoteBuf) (desc : RemoteBufDesc) :
    ((ntcRemoteBufMap (mapper.ntc 0) desc).isOk = false ∧ ∃ e attr,
      SgMem.map (mapper.ntc 0) ⟨fun _ => ⟨0, 0⟩, mapped⟩ 0 desc =
        (.error e, attr) ∧ attr.mapped = mapped) ∨
    ((ntcRemoteBufMap (mapper.ntc 0) desc).isOk = true ∧ ∃ attr,
      SgMem.map (mapper.ntc 0) ⟨fun _ => ⟨0, 0⟩, mapped⟩ 0 desc = (.ok (), attr) ∧
        (attr.unmap 0).mapped = mapped ∧ (attr.mapped = mapped ↔ desc.chanAddr = 0)) := by
  have hmap := SgMem.Cleared.map (m := ⟨fun _ => ⟨0, 0⟩, mapped⟩)
    (mapper.nonzero 0) (fun _ _ => rfl)
    (k := 0) rfl desc
  rw [SgMem.map] at hmap ⊢
  cases hbuf : ntcRemoteBufMap (mapper.ntc 0) desc with
  | error e => exact .inl ⟨rfl, e, _, rfl, rfl⟩
  | ok =>
    rw [hbuf] at hmap
    obtain ⟨e, he⟩ | ⟨attr, hattr, hundo, -⟩ := hmap
    · cases he
    · cases hattr
      refine .inr ⟨rfl, _, rfl, congrArg SgMem.mapped hundo, ?_⟩
      dsimp only
      split
      next hdesc => exact iff_of_true rfl hdesc
      next hdesc =>
        refine iff_of_false (fun heq => ?_) hdesc
        have hcard := congrArg Multiset.card heq
        rw [Multiset.card_cons] at hcard
        omega

end

/-- A creation that fails changes nothing, unless it mapped the completion buffer and then found no
memory for the rings. -/
theorem qpCreate_atomic_iff (mapper : Mapper) (alloc : Bool) (allocs : RqpAllocs) (vecAlloc : Bool)
    {s t : QpSys} (cmd : CmdQpCreate) {rc : Except Errno Unit}
    (h : rqpCreate mapper alloc allocs vecAlloc s cmd = some (rc, t)) (hrc : regionStatus rc ≠ 0) :
    QpSys.Unchanged s t ↔ ¬ (MapsCqeBuf (mapper.ntc 0) alloc cmd ∧ allocs.Fails) := by
  rw [rqpCreate] at h
  rw [MapsCqeBuf]
  cases hsanity : qpCreateSanity cmd with
  | error =>
    rw [hsanity] at h
    cases h
    exact iff_of_true (.refl s) fun hmaps => nomatch hmaps.1.1
  | ok =>
    rw [hsanity] at h
    cases alloc with
    | false =>
      cases h
      exact iff_of_true (.refl s) fun hmaps => nomatch hmaps.1.2.1
    | true =>
      dsimp only at h
      rw [if_neg (by decide)] at h
      obtain ⟨hok, e, attr, hmap, hmapped⟩ | ⟨hok, attr, hmap, hundo, hempty⟩ :=
        mapCqeBuf_cases mapper s.mem.mapped cmd.sendCqeBufDesc
      · rw [hmap] at h
        dsimp only at h
        rw [hmapped] at h
        cases h
        exact iff_of_true (.refl s) fun hmaps =>
          absurd (hok.symm.trans hmaps.1.2.2.2) Bool.false_ne_true
      · rw [hmap] at h
        dsimp only at h
        obtain ⟨hfails, e, hinit⟩ | ⟨hfails, mem, hinit, hdeinit⟩ :=
          rqpInitBufs_cases allocs s.store.next { s.mem with mapped := attr.mapped }
        · -- the label of this error is behind the one at which the buffer is unmapped
          rw [hinit] at h
          cases h
          have hsame : QpSys.Unchanged s { s with mem := { s.mem with mapped := attr.mapped } } ↔
              attr.mapped = s.mem.mapped :=
            ⟨QpSys.Unchanged.mapped, fun heq => ⟨rfl, rfl, fun _ _ => rfl, heq, rfl⟩⟩
          rw [hsame, hempty]
          exact ⟨fun hdesc hmaps => hmaps.1.2.2.1 hdesc, fun hmaps => by_contra fun hdesc =>
            hmaps ⟨⟨rfl, rfl, hdesc, hok⟩, hfails⟩⟩
        · rw [hinit] at h
          dsimp only at h
          refine iff_of_true ?_ fun hmaps => hfails hmaps.2
          split at h
          · cases h
          next e store hadd =>
            cases h
            rw [RresStore.add_error hadd, hdeinit, hundo]
            exact ⟨rfl, rfl, fun r hr => Function.update_of_ne (Nat.ne_of_lt hr) .., rfl, rfl⟩
          · cases h
            exact absurd rfl hrc

def tinyQpCmd : CmdQpCreate := ⟨3, 0, 1, 1, 1, 0, 1, 1, 0, 0, ⟨0x200, 64⟩, 32, 0⟩

theorem qpCreate_atomic_iff_noTable :
    ∃ e t, rqpCreate RegionSys.flatMapper true ⟨.ok (), .ok (), .ok (), 5⟩
      false ⟨RresStore.start, 0, 0⟩
        tinyQpCmd = some (.error e, t) ∧ QpSys.Unchanged ⟨RresStore.start, 0, 0⟩ t := by
  have hrun :
    (rqpCreate RegionSys.flatMapper true ⟨.ok (), .ok (), .ok (), 5⟩ false ⟨RresStore.start, 0, 0⟩
      tinyQpCmd).map (fun res => res.1) = some (.error .enomem) := by
    decide +kernel
  obtain ⟨⟨rc, t⟩, hcreate, rfl⟩ := Option.map_eq_some_iff.1 hrun
  exact ⟨.enomem, t, hcreate,
    (qpCreate_atomic_iff _ _ _ _ tinyQpCmd hcreate (by decide)).2 fun h => h.2 (by decide)⟩

/-- The buffer of the receives cannot be allocated: the buffer for the completions stays mapped. -/
theorem qpCreate_leaves_mapped :
    ∃ e t, rqpCreate RegionSys.flatMapper true ⟨.ok (), .ok (), .error .enomem, 5⟩ true
        ⟨RresStore.start, 0, 0⟩ tinyQpCmd = some (.error e, t) ∧ t.mem = ⟨{⟨64, 0x10200⟩}, 0⟩ ∧
      ¬ QpSys.Unchanged ⟨RresStore.start, 0, 0⟩ t := by
  have hrun : (rqpCreate RegionSys.flatMapper true ⟨.ok (), .ok (), .error .enomem, 5⟩ true
      ⟨RresStore.start, 0, 0⟩ tinyQpCmd).map (fun res => (res.1, res.2.mem)) =
        some (.error .enomem, ⟨{⟨64, 0x10200⟩}, 0⟩) := by
    decide +kernel
  obtain ⟨⟨rc, t⟩, hcreate, heq⟩ := Option.map_eq_some_iff.1 hrun
  obtain ⟨rfl, hmem⟩ := Prod.mk.inj heq
  refine ⟨.enomem, t, hcreate, hmem, fun h => ?_⟩
  have hmapped := h.mapped
  rw [show t.mem = _ from hmem] at hmapped
  exact Multiset.singleton_ne_zero _ hmapped

lemma rqpCreate_store (ntc : NtcDev) (hntc : ntc.MapsNonzero) (env : RecvEnv) {allocs : RqpAllocs}
    (hbufs : (env.rqpBufs.map fun _ => ()) = (rqpInitBufs allocs 0 ⟨0, 0⟩).1) (vecAlloc : Bool)
    (s : QpSys) (cmd : CmdQpCreate) :
    (rqpCreate ⟨fun _ => ntc, fun _ => hntc⟩ env.alloc allocs vecAlloc s cmd).map
      (Prod.map id QpSys.store) =
      s.store.create (qpCreateChecks env ntc cmd) .rqp cmd.qpKey vecAlloc := by
  rw [rqpCreate, qpCreateChecks]
  cases qpCreateSanity cmd with
  | error => rfl
  | ok =>
    dsimp only
    cases env.alloc with
    | false => rfl
    | true =>
      rw [if_neg (by decide), if_neg (by decide), SgMem.map]
      cases ntcRemoteBufMap ntc cmd.sendCqeBufDesc with
      | error => rfl
      | ok =>
        dsimp only
        rw [hbufs, ← rqpInitBufs_fst allocs s.store.next]
        generalize rqpInitBufs allocs s.store.next _ = init
        obtain ⟨rc, mem⟩ := init
        cases rc with
        | error => rfl
        | ok =>
          dsimp only [RresStore.create]
          cases (s.store.init .rqp cmd.qpKey).add s.store.next vecAlloc with
          | none => rfl
          | some res =>
            obtain ⟨rc, store⟩ := res
            cases rc <;> rfl

end Ntrdma
