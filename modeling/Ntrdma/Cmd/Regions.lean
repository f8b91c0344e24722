import Mathlib.Data.Multiset.AddSub
import Ntrdma.Res.Remote

/-!
# Commands on regions that fail

What the handlers of `MR_CREATE` and `MR_APPEND` (`ntrdma_cmd_recv_mr_create`,
`ntrdma_cmd_recv_mr_append`) leave behind: the table of the regions of the peer, their elements and
reference counts, and the remote buffers that are mapped for DMA. Both map one element after another
and, where that fails, unmap those they mapped.

The key fact is that unmapping what the loop has mapped so far gives back the state in which it
began (`mapLoop_mapped`). It rests on elements that are not mapped being cleared, which holds in all
states that commands lead to as long as mapping never gives the DMA address 0: that address stands
for a buffer that is not mapped (`ntc_remote_buf_valid`).

The store of the regions is the one of `Ntrdma.Res.Remote` (`regionCreate_store`), and the elements
end up as in `Ntrdma.Cmd.Recv` (`mapLoop_eq`).
-/

namespace Ntrdma
open Function Lib

/-! ## Mapping remote buffers -/

def NtcDev.MapsNonzero (ntc : NtcDev) : Prop :=
  ∀ ptr size dmaAddr, ntc.dmaMapResource ptr size = some dmaAddr → dmaAddr ≠ 0

/-- The transport, whose answers may differ from one element to the next. -/
structure Mapper where
  ntc : Nat → NtcDev
  nonzero : ∀ i, (ntc i).MapsNonzero

structure SgMem where
  sgList : Nat → RemoteBuf
  mapped : Multiset RemoteBuf

namespace SgMem

def map (ntc : NtcDev) (m : SgMem) (k : Nat) (desc : RemoteBufDesc) : Except Errno Unit × SgMem :=
  match ntcRemoteBufMap ntc desc with
  | .error e => (.error e, { m with sgList := update m.sgList k ⟨0, 0⟩ })
  | .ok buf =>
    (.ok (), ⟨update m.sgList k buf, if desc.chanAddr = 0 then m.mapped else buf ::ₘ m.mapped⟩)

def unmap (m : SgMem) (k : Nat) : SgMem :=
  ⟨update m.sgList k ⟨0, 0⟩,
    if (m.sgList k).dmaAddr = 0 then m.mapped else m.mapped.erase (m.sgList k)⟩

/-- The loop `for (--i; i >= 0; i--)` after an error. -/
def unmapDown (m : SgMem) (pos : Nat) : Nat → SgMem
  | 0 => m
  | i + 1 => (m.unmap (pos + i)).unmapDown pos i

def Cleared (m : SgMem) : Prop := ∀ k, (m.sgList k).dmaAddr = 0 → m.sgList k = ⟨0, 0⟩

end SgMem

/-- As `mapSgs`, with the buffers that are mapped. -/
def mapLoop (ntc : Nat → NtcDev) (check : Bool) (sgDescList : Nat → RemoteBufDesc) (pos : Nat) :
    Nat → Nat → SgMem → Except Errno Unit × SgMem
  | 0, _, m => (.ok (), m)
  | n + 1, i, m =>
    if check && (m.sgList (pos + i)).dmaAddr != 0 then (.error .einval, m.unmapDown pos i)
    else
      match m.map (ntc i) (pos + i) (sgDescList i) with
      | (.error e, m) => (.error e, m.unmapDown pos i)
      | (.ok (), m) => mapLoop ntc check sgDescList pos n (i + 1) m

/-! ## The handlers -/

/-- The regions of the peer, their reference counts, and the buffers that are mapped for DMA. -/
structure RegionSys where
  store : RresStore
  rmr : Nat → RmrObj
  refs : Nat → Nat
  mapped : Multiset RemoteBuf

namespace RegionSys

def sgMem (s : RegionSys) (r : Nat) : SgMem := ⟨(s.rmr r).sgList, s.mapped⟩

def setSgMem (s : RegionSys) (r : Nat) (m : SgMem) : RegionSys :=
  { s with rmr := update s.rmr r { s.rmr r with sgList := m.sgList }, mapped := m.mapped }

/-- C `ntrdma_rres_get`. -/
def get (s : RegionSys) (r : Nat) : RegionSys := { s with refs := update s.refs r (s.refs r + 1) }

/-- C `ntrdma_rmr_release`, where the elements are unmapped from the first on. -/
def release (s : RegionSys) (r : Nat) : RegionSys :=
  s.setSgMem r ((List.range (s.rmr r).sgCount.toNat).foldl SgMem.unmap (s.sgMem r))

/-- C `ntrdma_rmr_put`. -/
def put (s : RegionSys) (r : Nat) : RegionSys :=
  let s := { s with refs := update s.refs r (s.refs r - 1) }
  if s.refs r = 0 then s.release r else s

end RegionSys

/-- C `ntrdma_cmd_recv_mr_create`: its result and what it leaves behind; `none` where the table is
overrun. -/
def regionCreate (mapper : Mapper) (env : RecvEnv) (vecAlloc : Bool) (s : RegionSys)
    (cmd : CmdMrCreate) : Option (Except Errno Unit × RegionSys) :=
  match sanityMrCreate cmd with
  | .error e => some (.error e, s)
  | .ok () =>
    if !env.alloc then some (.error .enomem, s)
    else
      let rmr := rmrInit cmd.pdKey cmd.access cmd.mrAddr cmd.mrLen cmd.sgCap
      match mapLoop mapper.ntc false cmd.sgDescList 0 cmd.sgCount.toNat 0
        ⟨rmr.sgList, s.mapped⟩ with
      | (.error e, m) => some (.error e, { s with mapped := m.mapped })
      | (.ok (), m) =>
        match (s.store.init .rmr cmd.mrKey).add s.store.next vecAlloc with
        | none => none
        | some (.error e, store) =>
          some (.error e, { s with store, mapped := (m.unmapDown 0 cmd.sgCount.toNat).mapped })
        | some (.ok (), store) =>
          some (.ok (),
            { store
              rmr := update s.rmr s.store.next { rmr with sgList := m.sgList }
              refs := update s.refs s.store.next 1
              mapped := m.mapped })

/-- C `ntrdma_cmd_recv_mr_append`. It has no result where the table names a region that was
freed. -/
def regionAppend (mapper : Mapper) (s : RegionSys) (cmd : CmdMrAppend) :
    Option (Except Errno Unit × RegionSys) :=
  match s.store.look .rmr cmd.mrKey with
  | none => some (.error .einval, s)
  | some r =>
    if s.refs r = 0 then none
    else
      let s := s.get r
      match sanityMrAppend cmd (s.rmr r).sgCount with
      | .error e => some (.error e, s.put r)
      | .ok () =>
        let (rc, m) := mapLoop mapper.ntc true cmd.sgDescList cmd.sgPos.toNat
          cmd.sgCount.toNat 0 (s.sgMem r)
        some (rc, (s.setSgMem r m).put r)

/-- C `ntrdma_cmd_recv_mr_delete`, which waits until the last reference is given back. -/
def regionDelete (vecAlloc : Bool) (s : RegionSys) (cmd : CmdMrDelete) :
    Option (Except Errno Unit × RegionSys) :=
  match s.store.look .rmr cmd.mrKey with
  | none => some (.error .einval, s)
  | some r =>
    if s.refs r = 0 then none
    else
      match s.store.remove r vecAlloc with
      | none => none
      | some store => some (.ok (), { s with store, refs := update s.refs r 0 }.release r)

def regionStatus : Except Errno Unit → UInt32
  | .ok () => 0
  | .error _ => ~~~0

/-! ## Undoing -/

/-- The elements that were mapped, of `n` from the `i`-th on. -/
def newBufs (sgList : Nat → RemoteBuf) (pos i n : Nat) : Multiset RemoteBuf :=
  (((List.range' i n).map fun j => sgList (pos + j)).filter fun buf =>
    buf.dmaAddr ≠ 0 : List RemoteBuf)

lemma newBufs_succ (sgList : Nat → RemoteBuf) (pos i n : Nat) :
    newBufs sgList pos i (n + 1) =
      (if (sgList (pos + i)).dmaAddr = 0 then 0 else {sgList (pos + i)}) +
        newBufs sgList pos (i + 1) n := by
  rw [newBufs, List.range'_succ, List.map_cons, List.filter_cons]
  by_cases h : (sgList (pos + i)).dmaAddr = 0
  · simp [h, newBufs]
  · simp [h, newBufs, ← Multiset.cons_coe, Multiset.singleton_add]

section
variable {ntc : NtcDev} {check : Bool} {sgDescList : Nat → RemoteBufDesc} {pos : Nat} {m : SgMem}

lemma ntcRemoteBufMap_nonzero (hntc : ntc.MapsNonzero) {desc : RemoteBufDesc} {buf : RemoteBuf}
    (h : ntcRemoteBufMap ntc desc = .ok buf) :
    desc.chanAddr = 0 ∧ buf = ⟨0, 0⟩ ∨ desc.chanAddr ≠ 0 ∧ buf.dmaAddr ≠ 0 := by
  rw [ntcRemoteBufMap] at h
  split at h
  next hempty =>
    cases h
    exact .inl ⟨hempty, rfl⟩
  next hdesc =>
    dsimp only at h
    split at h
    · cases h
    · split at h
      · cases h
      next dmaAddr hmap =>
        cases h
        exact .inr ⟨hdesc, hntc _ _ dmaAddr hmap⟩

lemma SgMem.Cleared.map (hntc : ntc.MapsNonzero) (hcleared : m.Cleared) {k : Nat}
    (hk : m.sgList k = ⟨0, 0⟩) (desc : RemoteBufDesc) :
    (∃ e, m.map ntc k desc = (.error e, m)) ∨
      ∃ m', m.map ntc k desc = (.ok (), m') ∧ m'.unmap k = m ∧ m'.Cleared ∧
        m'.mapped = (if (m'.sgList k).dmaAddr = 0 then 0 else {m'.sgList k}) + m.mapped ∧
        ∀ k', k' ≠ k → m'.sgList k' = m.sgList k' := by
  have hlist : update m.sgList k ⟨0, 0⟩ = m.sgList := by
    rw [← hk]
    exact update_eq_self k m.sgList
  rw [SgMem.map]
  cases hmap : ntcRemoteBufMap ntc desc with
  | error e =>
    refine .inl ⟨e, ?_⟩
    rw [hlist]
  | ok buf =>
    have hbuf := ntcRemoteBufMap_nonzero hntc hmap
    refine .inr ⟨_, rfl, ?_, ?_, ?_, fun k' hne => update_of_ne hne ..⟩
    · simp only [SgMem.unmap, update_self, update_idem, hlist]
      obtain ⟨hdesc, rfl⟩ | ⟨hdesc, haddr⟩ := hbuf
      · rw [if_pos rfl, if_pos hdesc]
      · rw [if_neg haddr, if_neg hdesc, Multiset.erase_cons_head]
    · refine (forall_update_iff m.sgList fun _ buf => buf.dmaAddr = 0 → buf = ⟨0, 0⟩).2
        ⟨fun haddr => ?_, fun k' _ => hcleared k'⟩
      obtain ⟨-, hzero⟩ | ⟨-, hne⟩ := hbuf
      · exact hzero
      · exact absurd haddr hne
    · simp only [update_self]
      obtain ⟨hdesc, rfl⟩ | ⟨hdesc, haddr⟩ := hbuf
      · rw [if_pos hdesc, if_pos rfl, Multiset.zero_add]
      · rw [if_neg hdesc, if_neg haddr, Multiset.singleton_add]

lemma SgMem.Cleared.unmap (hcleared : m.Cleared) (k : Nat) : (m.unmap k).Cleared :=
  (forall_update_iff m.sgList fun _ buf => buf.dmaAddr = 0 → buf = ⟨0, 0⟩).2
    ⟨fun _ => rfl, fun k' _ => hcleared k'⟩

/-- Where the loop fails, the elements before are unmapped; where it succeeds, unmapping takes them
back. -/
inductive Mapped (pos n i : Nat) (m : SgMem) : Except Errno Unit × SgMem → Prop
  | failed (e : Errno) : Mapped pos n i m (.error e, m.unmapDown pos i)
  | done (m' : SgMem) (undo : m'.unmapDown pos (i + n) = m.unmapDown pos i)
      (mapped : m'.mapped = newBufs m'.sgList pos i n + m.mapped)
      (cleared : m'.Cleared)
      (frame : ∀ k, ¬ (pos + i ≤ k ∧ k < pos + i + n) → m'.sgList k = m.sgList k) :
      Mapped pos n i m (.ok (), m')

variable {n i : Nat}

lemma Mapped.step {m' : SgMem} {res : Except Errno Unit × SgMem} (h : Mapped pos n (i + 1) m' res)
    (hundo : m'.unmap (pos + i) = m)
    (hmapped : m'.mapped =
      (if (m'.sgList (pos + i)).dmaAddr = 0 then 0 else {m'.sgList (pos + i)}) + m.mapped)
    (hframe : ∀ k, k ≠ pos + i → m'.sgList k = m.sgList k) : Mapped pos (n + 1) i m res := by
  have hdown : m'.unmapDown pos (i + 1) = m.unmapDown pos i := by rw [SgMem.unmapDown, hundo]
  cases h with
  | failed e =>
    rw [hdown]
    exact .failed e
  | done m'' undo mapped cleared frame =>
    refine .done m'' ?_ ?_ cleared fun k hk => ?_
    · rw [← hdown, ← undo, Nat.add_right_comm, Nat.add_assoc i n 1]
    · have hfirst : m''.sgList (pos + i) = m'.sgList (pos + i) := frame _ (by omega)
      rw [mapped, newBufs_succ, hfirst, hmapped, ← Multiset.add_assoc,
        Multiset.add_comm (newBufs ..)]
    · rw [frame k (by omega)]
      exact hframe k (by omega)

lemma mapLoop_mapped {ntc : Nat → NtcDev} (hntc : ∀ i, (ntc i).MapsNonzero) (hcleared : m.Cleared)
    (hnew : check = false → ∀ j, i ≤ j → m.sgList (pos + j) = ⟨0, 0⟩) :
    Mapped pos n i m (mapLoop ntc check sgDescList pos n i m) := by
  induction n generalizing i m with
  | zero => exact .done m rfl (Multiset.zero_add _).symm hcleared fun _ _ => rfl
  | succ _ ih =>
    rw [mapLoop]
    split
    · exact .failed .einval
    next hcheck =>
      -- The element is one of a new list, or was found not to be mapped.
      have hk : m.sgList (pos + i) = ⟨0, 0⟩ := by
        cases check with
        | false => exact hnew rfl i (Nat.le_refl i)
        | true =>
          refine hcleared _ ?_
          simpa using hcheck
      obtain ⟨e, he⟩ | ⟨m', hm', hundo, hcleared', hmapped, hframe⟩ :=
        hcleared.map (hntc i) hk (sgDescList i)
      · rw [he]
        exact .failed e
      · rw [hm']
        refine (ih hcleared' fun hfalse j hj => ?_).step hundo hmapped hframe
        rw [hframe _ (by omega)]
        exact hnew hfalse j (by omega)

lemma SgMem.unmapDown_sgList (i : Nat) (m : SgMem) :
    (m.unmapDown pos i).sgList = unmapSgs m.sgList pos i := by
  induction i generalizing m with
  | zero =>
    funext k
    rw [unmapSgs, if_neg (by omega), unmapDown]
  | succ i ih =>
    rw [unmapDown, ih]
    funext k
    rw [unmapSgs, unmapSgs, unmap]
    by_cases hk : k = pos + i
    · subst hk
      simp
    · dsimp only
      rw [update_of_ne hk]
      exact if_congr (by omega) rfl rfl

lemma mapLoop_eq (ntc : NtcDev) (check : Bool) (sgDescList : Nat → RemoteBufDesc) (pos n i : Nat)
    (m : SgMem) :
    (mapLoop (fun _ => ntc) check sgDescList pos n i m).map id SgMem.sgList =
      mapSgs ntc check sgDescList pos n i m.sgList := by
  induction n generalizing i m with
  | zero => rfl
  | succ _ ih =>
    rw [mapLoop, mapSgs]
    split
    · rw [← SgMem.unmapDown_sgList]
      rfl
    · rw [SgMem.map]
      cases ntcRemoteBufMap ntc (sgDescList i) with
      | error => exact congrArg _ (SgMem.unmapDown_sgList i _)
      | ok => exact ih (i + 1) _

end

lemma RresStore.add_error {s store : RresStore} {r : Nat} {alloc : Bool} {e : Errno}
    (h : s.add r alloc = some (.error e, store)) : store = s := by
  rw [RresStore.add] at h
  split at h
  · cases h
  · cases h
    rfl
  · cases h

/-! ## The states that commands lead to -/

/-- What changes the regions: commands on them, lookups (C `ntrdma_dev_rmr_look`), and commands on
queue pairs. The rest of the driver maps what it likes. -/
inductive RegionCmd where
  | create (mapper : Mapper) (env : RecvEnv) (vecAlloc : Bool) (cmd : CmdMrCreate)
  | append (mapper : Mapper) (cmd : CmdMrAppend)
  | delete (vecAlloc : Bool) (cmd : CmdMrDelete)
  | look (key : UInt32)
  | put (r : Nat)
  | qpCreate (ntc : NtcDev) (env : RecvEnv) (vecAlloc : Bool) (cmd : CmdQpCreate)
  | qpDelete (vecAlloc : Bool) (cmd : CmdQpDelete)
  | remap (mapped : Multiset RemoteBuf)

namespace RegionSys

/-- The regions after an action, unless it goes outside of a table or to a freed region. -/
def exec (s : RegionSys) : RegionCmd → Option RegionSys
  | .create mapper env vecAlloc cmd => (regionCreate mapper env vecAlloc s cmd).map Prod.snd
  | .append mapper cmd => (regionAppend mapper s cmd).map Prod.snd
  | .delete vecAlloc cmd => (regionDelete vecAlloc s cmd).map Prod.snd
  | .look key =>
    match s.store.look .rmr key with
    | none => some s
    | some r => if s.refs r = 0 then none else some (s.get r)
  | .put r => if 1 < s.refs r then some (s.put r) else none
  | .qpCreate ntc env vecAlloc cmd =>
    (s.store.create (qpCreateChecks env ntc cmd) .rqp cmd.qpKey vecAlloc).map fun res =>
      { s with store := res.2 }
  | .qpDelete vecAlloc cmd =>
    (s.store.delete .rqp cmd.qpKey vecAlloc).map fun res => { s with store := res.2 }
  | .remap mapped => some { s with mapped }

def start : RegionSys := ⟨RresStore.start, fun _ => rmrInit 0 0 0 0 0, fun _ => 0, 0⟩

def Cleared (s : RegionSys) : Prop := ∀ r, (s.sgMem r).Cleared

/-- The table, the regions that exist, their references and the mapped buffers are as before. -/
structure Unchanged (s t : RegionSys) : Prop where
  list : t.store.list = s.store.list
  vec : t.store.vec = s.store.vec
  rres : ∀ r < s.store.next, t.store.rres r = s.store.rres r
  rmr : ∀ r < s.store.next, t.rmr r = s.rmr r
  refs : ∀ r < s.store.next, t.refs r = s.refs r
  mapped : t.mapped = s.mapped

/-- Only elements of a region in a range have changed, and they are what is mapped in addition. -/
structure Appended (s t : RegionSys) (r pos n : Nat) : Prop where
  store : t.store = s.store
  refs : t.refs = s.refs
  others : ∀ r', r' ≠ r → t.rmr r' = s.rmr r'
  fields : t.rmr r = { s.rmr r with sgList := (t.rmr r).sgList }
  outside : ∀ k, ¬ (pos ≤ k ∧ k < pos + n) → (t.rmr r).sgList k = (s.rmr r).sgList k
  mapped : t.mapped = newBufs (t.rmr r).sgList pos 0 n + s.mapped

section
variable {s t : RegionSys} {r : Nat} {m : SgMem}

lemma Unchanged.refl (s : RegionSys) : Unchanged s s :=
  ⟨rfl, rfl, fun _ _ => rfl, fun _ _ => rfl, fun _ _ => rfl, rfl⟩

lemma setSgMem_self (s : RegionSys) (r : Nat) : s.setSgMem r (s.sgMem r) = s := by
  rw [setSgMem, sgMem, show { s.rmr r with sgList := (s.rmr r).sgList } = s.rmr r from rfl,
    update_eq_self]

lemma put_setSgMem_get (s : RegionSys) (h : s.refs r ≠ 0) (m : SgMem) :
    ((s.get r).setSgMem r m).put r = s.setSgMem r m := by
  have hrefs : update (s.get r).refs r ((s.get r).refs r - 1) = s.refs := by
    simp only [get, update_self, update_idem, Nat.add_sub_cancel, update_eq_self]
  rw [put, setSgMem]
  rw [hrefs, if_neg h]
  rfl

lemma put_get (s : RegionSys) (h : s.refs r ≠ 0) : (s.get r).put r = s := by
  have hput := s.put_setSgMem_get h ((s.get r).sgMem r)
  rw [setSgMem_self] at hput
  exact hput.trans (setSgMem_self s r)

inductive Creates (s : RegionSys) (vecAlloc : Bool) (cmd : CmdMrCreate) :
    Except Errno Unit → RegionSys → Prop
  | rejected (e : Errno) : Creates s vecAlloc cmd (.error e) s
  | notAdded (e : Errno) : Creates s vecAlloc cmd (.error e)
    { s with store := s.store.init .rmr cmd.mrKey }
  | added {store : RresStore} {rmr : RmrObj} {mapped : Multiset RemoteBuf}
      (hadd : (s.store.init .rmr cmd.mrKey).add s.store.next vecAlloc = some (.ok (), store))
      (hcleared : SgMem.Cleared ⟨rmr.sgList, mapped⟩) :
      Creates s vecAlloc cmd (.ok ())
        ⟨store, update s.rmr s.store.next rmr, update s.refs s.store.next 1, mapped⟩

variable {mapper : Mapper} {vecAlloc : Bool} {rc : Except Errno Unit}

lemma regionCreate_creates {env : RecvEnv} {cmd : CmdMrCreate}
    (h : regionCreate mapper env vecAlloc s cmd = some (rc, t)) : Creates s vecAlloc cmd rc t := by
  rw [regionCreate] at h
  cases hsanity : sanityMrCreate cmd with
  | error e =>
    rw [hsanity] at h
    cases h
    exact .rejected e
  | ok =>
    simp only [hsanity] at h
    split at h
    · cases h
      exact .rejected .enomem
    · have hloop : Mapped 0 cmd.sgCount.toNat 0 ⟨fun _ => ⟨0, 0⟩, s.mapped⟩
          (mapLoop mapper.ntc false cmd.sgDescList 0 cmd.sgCount.toNat 0
            ⟨fun _ => ⟨0, 0⟩, s.mapped⟩) :=
        mapLoop_mapped mapper.nonzero (fun _ _ => rfl) fun _ _ _ => rfl
      rw [rmrInit] at h
      generalize mapLoop mapper.ntc false cmd.sgDescList 0 cmd.sgCount.toNat 0
        ⟨fun _ => ⟨0, 0⟩, s.mapped⟩ = res
        at hloop h
      cases hloop with
      | failed e =>
        cases h
        exact .rejected e
      | done _ undo _ cleared =>
        rw [Nat.zero_add] at undo
        dsimp only at h
        rw [undo] at h
        split at h
        · cases h
        next e store hadd =>
          cases h
          rw [RresStore.add_error hadd]
          exact .notAdded e
        next store hadd =>
          cases h
          exact .added hadd cleared

lemma Creates.unchanged {cmd : CmdMrCreate} (h : Creates s vecAlloc cmd rc t)
    (hrc : regionStatus rc ≠ 0) : Unchanged s t := by
  cases h with
  | rejected => exact .refl s
  | notAdded =>
    refine ⟨rfl, rfl, fun r hr => ?_, fun _ _ => rfl, fun _ _ => rfl, rfl⟩
    exact update_of_ne (Nat.ne_of_lt hr) ..
  | added => exact absurd rfl hrc

inductive Appends (s : RegionSys) (cmd : CmdMrAppend) : Except Errno Unit → RegionSys → Prop
  | failed (e : Errno) : Appends s cmd (.error e) s
  | done {r : Nat} {m : SgMem} (hlook : s.store.look .rmr cmd.mrKey = some r)
      (hmapped : m.mapped = newBufs m.sgList cmd.sgPos.toNat 0 cmd.sgCount.toNat + s.mapped)
      (hcleared : m.Cleared)
      (hframe : ∀ k, ¬ (cmd.sgPos.toNat ≤ k ∧ k < cmd.sgPos.toNat + cmd.sgCount.toNat) →
        m.sgList k = (s.rmr r).sgList k) :
      Appends s cmd (.ok ()) (s.setSgMem r m)

variable {cmd : CmdMrAppend}

lemma regionAppend_appends (hs : s.Cleared) (h : regionAppend mapper s cmd = some (rc, t)) :
    Appends s cmd rc t := by
  rw [regionAppend] at h
  cases hlook : s.store.look .rmr cmd.mrKey with
  | none =>
    rw [hlook] at h
    cases h
    exact .failed .einval
  | some r =>
    simp only [hlook] at h
    split at h
    · cases h
    next hrefs =>
      split at h
      next e _ =>
        cases h
        rw [s.put_get hrefs]
        exact .failed e
      · have hloop : Mapped cmd.sgPos.toNat cmd.sgCount.toNat 0 (s.sgMem r)
            (mapLoop mapper.ntc true cmd.sgDescList cmd.sgPos.toNat cmd.sgCount.toNat 0
              ((s.get r).sgMem r)) :=
          mapLoop_mapped mapper.nonzero (hs r) nofun
        simp only [s.put_setSgMem_get hrefs] at h
        generalize mapLoop mapper.ntc true cmd.sgDescList cmd.sgPos.toNat
          cmd.sgCount.toNat 0 _ = res at hloop h
        cases hloop with
        | failed e =>
          cases h
          rw [SgMem.unmapDown, setSgMem_self]
          exact .failed e
        | done _ _ mapped cleared frame =>
          cases h
          exact .done hlook mapped cleared frame

lemma Appends.unchanged (h : Appends s cmd rc t) (hrc : regionStatus rc ≠ 0) : Unchanged s t := by
  cases h with
  | failed => exact .refl s
  | done => exact absurd rfl hrc

lemma Appends.appended (h : Appends s cmd rc t) (hrc : regionStatus rc = 0) :
    ∃ r, s.store.look .rmr cmd.mrKey = some r ∧
      Appended s t r cmd.sgPos.toNat cmd.sgCount.toNat := by
  cases h with
  | failed => exact absurd hrc (by rw [regionStatus]; decide)
  | done hlook hmapped hcleared hframe =>
    rename_i r m
    have hlist : ((s.setSgMem r m).rmr r).sgList = m.sgList := by simp only [setSgMem, update_self]
    refine ⟨r, hlook, rfl, rfl, fun r' hne => update_of_ne hne .., ?_, fun k hk => ?_, ?_⟩
    · rw [hlist]
      exact update_self ..
    · rw [hlist]
      exact hframe k hk
    · rw [hlist]
      exact hmapped

/-! ### What is not mapped is cleared -/

lemma Cleared.setSgMem (hs : s.Cleared) (hm : m.Cleared) : (s.setSgMem r m).Cleared := by
  intro r'
  by_cases hr : r' = r
  · intro k
    simp only [sgMem, RegionSys.setSgMem, hr, update_self]
    exact hm k
  · intro k
    simp only [sgMem, RegionSys.setSgMem, update_of_ne hr]
    exact hs r' k

lemma Cleared.release (hs : s.Cleared) : (s.release r).Cleared :=
  hs.setSgMem (List.foldlRecOn _ _ (hs r) fun _ hm k _ => hm.unmap k)

lemma Cleared.put (hs : s.Cleared) : (s.put r).Cleared := by
  rw [RegionSys.put]
  split
  · exact Cleared.release hs
  · exact hs

lemma Creates.cleared {cmd : CmdMrCreate} (h : Creates s vecAlloc cmd rc t) (hs : s.Cleared) :
    t.Cleared := by
  cases h with
  | rejected => exact hs
  | notAdded => exact hs
  | added _ hcleared =>
    exact (forall_update_iff s.rmr fun _ rmr => SgMem.Cleared ⟨rmr.sgList, _⟩).2
      ⟨hcleared, fun r _ => hs r⟩

lemma Appends.cleared (h : Appends s cmd rc t) (hs : s.Cleared) : t.Cleared := by
  cases h with
  | failed => exact hs
  | done _ _ hcleared => exact hs.setSgMem hcleared

lemma regionDelete_cleared {cmd : CmdMrDelete} (h : regionDelete vecAlloc s cmd = some (rc, t))
    (hs : s.Cleared) : t.Cleared := by
  rw [regionDelete] at h
  split at h
  · cases h
    exact hs
  · split at h
    · cases h
    · split at h
      · cases h
      · cases h
        exact Cleared.release hs

lemma Cleared.exec (hs : s.Cleared) {a : RegionCmd} (h : s.exec a = some t) : t.Cleared := by
  cases a with
  | create =>
    obtain ⟨⟨rc, t⟩, hcreate, rfl⟩ := Option.map_eq_some_iff.1 h
    exact (regionCreate_creates hcreate).cleared hs
  | append =>
    obtain ⟨⟨rc, t⟩, happend, rfl⟩ := Option.map_eq_some_iff.1 h
    exact (regionAppend_appends hs happend).cleared hs
  | delete =>
    obtain ⟨⟨rc, t⟩, hdelete, rfl⟩ := Option.map_eq_some_iff.1 h
    exact regionDelete_cleared hdelete hs
  | look =>
    rw [RegionSys.exec] at h
    split at h
    · cases h
      exact hs
    · obtain ⟨-, h⟩ := Option.ite_none_left_eq_some.1 h
      cases h
      exact hs
  | put =>
    obtain ⟨-, h⟩ := Option.ite_none_right_eq_some.1 h
    cases h
    exact hs.put
  | qpCreate =>
    obtain ⟨res, -, rfl⟩ := Option.map_eq_some_iff.1 h
    exact hs
  | qpDelete =>
    obtain ⟨res, -, rfl⟩ := Option.map_eq_some_iff.1 h
    exact hs
  | remap =>
    cases h
    exact hs

lemma reaches_cleared (hs : Reaches (fun s a t => exec s a = some t) start s) : s.Cleared :=
  hs.invariant (fun _ _ _ => rfl) fun _ _ _ hs hstep => hs.exec hstep

end

/-- Commands on regions are atomic: where one fails nothing has changed, and one that appends
changes only the elements that it names. -/
theorem regionCmds_atomic {s : RegionSys} (hs : Reaches (fun s a t => exec s a = some t) start s) :
    (∀ mapper env vecAlloc cmd rc t, regionCreate mapper env vecAlloc s cmd = some (rc, t) →
      regionStatus rc ≠ 0 → Unchanged s t) ∧
    ∀ mapper cmd rc t, regionAppend mapper s cmd = some (rc, t) →
      (regionStatus rc ≠ 0 → Unchanged s t) ∧
      (regionStatus rc = 0 → ∃ r, s.store.look .rmr cmd.mrKey = some r ∧
        Appended s t r cmd.sgPos.toNat cmd.sgCount.toNat) := by
  refine ⟨fun mapper env vecAlloc cmd rc t hcreate => (regionCreate_creates hcreate).unchanged,
    fun mapper cmd rc t happend => ?_⟩
  have happends := regionAppend_appends (reaches_cleared hs) happend
  exact ⟨happends.unchanged, happends.appended⟩

def flatMapper : Mapper where
  ntc := fun _ => ⟨fun _ => ⟨0x10000, 0x10000, 0, 0x10000⟩, fun ptr _ =>
    if ptr = 0 then none else some ptr⟩
  nonzero := by
    intro i ptr size dmaAddr h
    obtain ⟨hptr, h⟩ := Option.ite_none_left_eq_some.1 h
    cases h
    exact hptr

/-- A command for the elements of a region from `sgPos` on. -/
def appendCmd (sgPos sgCount : UInt32) : CmdMrAppend :=
  ⟨7, sgPos, sgCount, fun i => ⟨0x300 + 16 * UInt64.ofNat i, 16⟩⟩

theorem regionCmds_atomic_appendTwice :
    ∃ s, Reaches (fun s a t => exec s a = some t) start s ∧ s.store.look .rmr 7 = some 0 ∧
      Multiset.card s.mapped = 2 ∧
      ∃ e t, regionAppend flatMapper s (appendCmd 1 2) = some (.error e, t) ∧ Unchanged s t := by
  have hrun : ∃ s, Reaches (fun s a t => exec s a = some t) start s ∧
      decide (s.store.look .rmr 7 = some 0 ∧ Multiset.card s.mapped = 2 ∧
        (regionAppend flatMapper s (appendCmd 1 2)).map
          (fun res => regionStatus res.1) = some (~~~0)) = true :=
    Reaches.exists_of_foldlM
      [.create flatMapper easyEnv true ⟨7, 0, 0, 0x1000, 48, 3, 1, fun _ => ⟨0x200, 16⟩⟩,
        .append flatMapper (appendCmd 2 1)]
      (fun _ _ _ h => h) (by decide +kernel)
  obtain ⟨s, hs, hp⟩ := hrun
  obtain ⟨hlook, hcard, hfails⟩ := of_decide_eq_true hp
  obtain ⟨⟨rc, t⟩, happend, hrc⟩ := Option.map_eq_some_iff.1 hfails
  have hstatus : regionStatus rc ≠ 0 := by
    rw [show regionStatus rc = ~~~0 from hrc]
    decide
  have hsame := ((regionCmds_atomic hs).2 flatMapper (appendCmd 1 2) rc t happend).1 hstatus
  cases rc with
  | ok => exact absurd rfl hstatus
  | error e => exact ⟨s, hs, hlook, hcard, e, t, happend, hsame⟩

end RegionSys

/-! ## The handlers of `Ntrdma.Cmd.Recv` and the store -/

section
variable (s : RegionSys) (ntc : NtcDev) (hntc : ntc.MapsNonzero)

lemma regionCreate_store (env : RecvEnv) (vecAlloc : Bool) (cmd : CmdMrCreate) :
    (regionCreate ⟨fun _ => ntc, fun _ => hntc⟩ env vecAlloc s cmd).map
      (Prod.map id RegionSys.store) =
      s.store.create (mrCreateChecks env ntc cmd) .rmr cmd.mrKey vecAlloc := by
  rw [regionCreate, mrCreateChecks]
  cases sanityMrCreate cmd with
  | error => rfl
  | ok u =>
    dsimp only
    split
    · rfl
    · rw [rmrInit, ← mapLoop_eq ntc false cmd.sgDescList 0 cmd.sgCount.toNat 0
        ⟨fun _ => ⟨0, 0⟩, s.mapped⟩]
      generalize mapLoop (fun _ => ntc) false cmd.sgDescList 0 cmd.sgCount.toNat 0 _ = res
      obtain ⟨rc, m⟩ := res
      cases rc with
      | error => rfl
      | ok u =>
        simp only [Prod.map_fst, id, RresStore.create]
        cases (s.store.init .rmr cmd.mrKey).add s.store.next vecAlloc with
        | none => rfl
        | some res =>
          obtain ⟨rc, store⟩ := res
          cases rc with
          | error => rfl
          | ok => rfl

/-- Appending to a region that exists returns what the handler of `Ntrdma.Cmd.Recv` returns. -/
lemma regionAppend_result (host : Host) {cmd : CmdMrAppend} {rc : Except Errno Unit} {t : RegionSys}
    (h : regionAppend ⟨fun _ => ntc, fun _ => hntc⟩ s cmd = some (rc, t)) :
    rc = (mrAppend ⟨host, fun key => (s.store.look .rmr key).map s.rmr, ntc⟩ cmd).1 := by
  rw [regionAppend] at h
  rw [mrAppend]
  dsimp only
  cases hlook : s.store.look .rmr cmd.mrKey with
  | none =>
    rw [hlook] at h
    cases h
    rfl
  | some r =>
    rw [hlook] at h
    obtain ⟨-, h⟩ := Option.ite_none_left_eq_some.1 h
    dsimp only [Option.map_some] at h ⊢
    rw [show (s.get r).rmr = s.rmr from rfl] at h
    cases hsanity : sanityMrAppend cmd (s.rmr r).sgCount with
    | error =>
      rw [hsanity] at h
      cases h
      rfl
    | ok =>
      rw [hsanity] at h
      cases h
      exact congrArg Prod.fst
        (mapLoop_eq ntc true cmd.sgDescList cmd.sgPos.toNat cmd.sgCount.toNat 0 ((s.get r).sgMem r))

end

end Ntrdma
