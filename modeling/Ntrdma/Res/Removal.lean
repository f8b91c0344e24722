import Ntrdma.Res.Local
import Ntrdma.Res.Remote

/-!
# Removals that need memory

A table of resources is replaced by a changed copy, so that a removal needs memory too. Neither
`ntrdma_kvec_set_key` nor `ntrdma_rres_remove_unsafe` reports that the copy could not be allocated:
the resource is taken off its list and released, and the table still has it.

`Ntrdma.Res.Local` has the histories of the host's own resources. Those of the peer's resources are
here: the commands and resets of `Ntrdma.Res.Remote` with any outcome of their allocations, and the
resources that were removed, with the tables and the keys that they had.
-/

namespace Ntrdma
open Function Lib

namespace RresStore

variable {s : RresStore} {kind : RresKind} {checks : Except Errno Unit}
    {key : UInt32} {alloc : Bool}

lemma Tidy.create (h : s.Tidy) (hkey : checks = .ok () → key ≠ 0xFFFFFFFF ∨ alloc = false) :
    ∃ rc t, s.create checks kind key alloc = some (rc, t) ∧ t.Tidy ∧ s.next ≤ t.next ∧
      ∀ r ∈ t.list, r < s.next → r ∈ s.list := by
  cases checks with
  | error => exact ⟨_, s, rfl, h, Nat.le_refl _, fun r hr _ => hr⟩
  | ok =>
    have hsets := (h.tables kind).1.sets key (some s.next) alloc
    rw [create_ok]
    generalize (s.vec kind).set key (some s.next) alloc = res at hsets
    cases hsets with
    | failed => exact ⟨_, _, rfl, h.init kind key, Nat.le_succ _, fun r hr _ => hr⟩
    | outside halloc hones =>
      obtain hne | hfalse := hkey rfl
      · exact absurd hones hne
      · exact absurd (hfalse.symm.trans halloc) Bool.false_ne_true
    | stored _ _ hwf hcap hlt hmax hlook =>
      refine ⟨_, _, rfl, h.enlist_new hwf hcap hlt hmax hlook, Nat.le_succ _, fun r hin hold => ?_⟩
      obtain hin | hin := List.mem_append.1 hin
      · exact hin
      · exact absurd hold (List.mem_singleton.1 hin ▸ Nat.lt_irrefl _)

lemma Tidy.create_outside (h : s.Tidy) (kind : RresKind)
    (hkey : ¬ (checks = .ok () → key ≠ 0xFFFFFFFF ∨ alloc = false)) :
    s.create checks kind key alloc = none := by
  simp only [Classical.not_imp, not_or, not_not, Bool.not_eq_false] at hkey
  obtain ⟨rfl, rfl, rfl⟩ := hkey
  have hsets := (h.tables kind).1.sets 0xFFFFFFFF (some s.next) true
  rw [create_ok]
  generalize (s.vec kind).set 0xFFFFFFFF (some s.next) true = res at hsets
  cases hsets with
  | failed hfail =>
    obtain hfalse | ⟨hne, -⟩ := hfail
    · cases hfalse
    · exact absurd rfl hne
  | stored _ hne => exact absurd rfl hne
  | outside => rfl

end RresStore

/-! ## Histories -/

/-- Creations with the result of all that precedes the store, deletions and resets, and whether the
copies of the tables can be allocated. -/
inductive RresOp where
  | create (checks : Except Errno Unit) (kind : RresKind) (key : UInt32) (alloc : Bool)
  | delete (kind : RresKind) (key : UInt32) (alloc : Bool)
  | reset (alloc : Nat → Bool)

def RresStore.execOp (s : RresStore) : RresOp → Option RresStore
  | .create checks kind key alloc => (s.create checks kind key alloc).map Prod.snd
  | .delete kind key alloc => (s.delete kind key alloc).map Prod.snd
  | .reset alloc => s.reset alloc

def RresStore.removes (s : RresStore) : RresOp → List Nat
  | .create .. => []
  | .delete kind key _ => (s.look kind key).toList
  | .reset _ => s.list

/-- The store, and what was removed from it with the tables and the keys that it had. -/
structure RresHist where
  store : RresStore
  removed : List (Nat × RresKind × UInt32)

namespace RresHist

def exec (s : RresHist) (op : RresOp) : Option RresHist :=
  (s.store.execOp op).map fun store =>
    { store
      removed :=
        (s.store.removes op).map (fun r => (r, (s.store.rres r).kind,
          (s.store.rres r).key)) ++ s.removed }

def Effective (s : RresHist) : Prop := ∀ x ∈ s.removed, s.store.look x.2.1 x.2.2 ≠ some x.1

/-- The copies that the removals need can be allocated. A creation must not have the key with all
bits set, for which there is no table. -/
def Allocates (s : RresHist) : RresOp → Prop
  | .create checks _ key alloc => checks = .ok () → key ≠ 0xFFFFFFFF ∨ alloc = false
  | .delete kind key alloc => s.store.look kind key ≠ none → alloc = true
  | .reset alloc => ∀ r ∈ s.store.list, s.store.look (s.store.rres r).kind
    (s.store.rres r).key = some r →
    ∃ r' ∈ s.store.list, alloc r' = true ∧
      (s.store.rres r').kind = (s.store.rres r).kind ∧ (s.store.rres r').key = (s.store.rres r).key

structure Inv (s : RresHist) : Prop where
  tidy : s.store.Tidy
  removed : ∀ x ∈ s.removed, x.1 < s.store.next ∧ x.1 ∉ s.store.list

variable {s : RresHist}

lemma Inv.effective (h : s.Inv) : s.Effective := fun x hx hfound =>
  (h.removed x hx).2 (h.tidy.entry _ _ _ hfound).1

variable {kind : RresKind} {key : UInt32} {alloc : Bool}

lemma Inv.create (h : s.Inv) {checks : Except Errno Unit}
    (hkey : checks = .ok () → key ≠ 0xFFFFFFFF ∨ alloc = false) :
    ∃ t, s.exec (.create checks kind key alloc) = some t ∧ t.Inv := by
  obtain ⟨rc, t, hcreate, ht, hnext, hlist⟩ := h.tidy.create hkey
  refine ⟨⟨t, s.removed⟩, ?_, ht, fun x hx => ?_⟩
  · rw [exec, RresStore.execOp, hcreate]
    rfl
  · obtain ⟨hlt, hout⟩ := h.removed x hx
    exact ⟨Nat.lt_of_lt_of_le hlt hnext, fun hin => hout (hlist _ hin hlt)⟩

lemma exec_delete {r : Nat} {t : RresStore} (hlook : s.store.look kind key = some r)
    (hremove : s.store.remove r alloc = some t) :
    s.exec (.delete kind key alloc) =
      some ⟨t, (r, (s.store.rres r).kind, (s.store.rres r).key) :: s.removed⟩ := by
  rw [exec, RresStore.execOp, RresStore.delete, RresStore.removes, hlook]
  dsimp only
  rw [hremove]
  rfl

lemma Inv.delete (h : s.Inv) (halloc : s.store.look kind key ≠ none → alloc = true) :
    ∃ t, s.exec (.delete kind key alloc) = some t ∧ t.Inv := by
  cases hlook : s.store.look kind key with
  | none =>
    refine ⟨s, ?_, h⟩
    rw [exec, RresStore.execOp, RresStore.delete, RresStore.removes, hlook]
    rfl
  | some r =>
    rw [halloc (hlook ▸ Option.some_ne_none r)]
    obtain ⟨hr, -⟩ := h.tidy.entry kind key r hlook
    obtain ⟨t, hremove, ht, hrem⟩ := h.tidy.remove hr
    refine ⟨_, exec_delete hlook hremove, ht,
      List.forall_mem_cons.2 ⟨?_, fun x hx => ?_⟩⟩ <;> dsimp only
    · rw [hrem.next, hrem.list, h.tidy.nodup.mem_erase_iff]
      exact ⟨(h.tidy.listed r hr).1, fun hin => hin.1 rfl⟩
    · rw [hrem.next, hrem.list]
      exact ⟨(h.removed x hx).1, fun hin => (h.removed x hx).2 (List.mem_of_mem_erase hin)⟩

lemma Inv.reset (h : s.Inv) {alloc : Nat → Bool} (halloc : s.Allocates (.reset alloc)) :
    ∃ t, s.exec (.reset alloc) = some t ∧ t.Inv := by
  obtain ⟨t, hreset, ht, hnil, hnext, hlook⟩ := h.tidy.toSound.reset alloc
  refine ⟨_, by rw [exec, RresStore.execOp, hreset]; rfl,
    ⟨ht, fun kind key r hfound => ?_⟩, ?_⟩ <;> dsimp only
  · obtain ⟨hold, hkept⟩ := (hlook kind key r).1 hfound
    obtain ⟨hr, rfl, rfl⟩ := h.tidy.entry kind key r hold
    obtain ⟨r', hr', hclear⟩ := halloc r hr hold
    exact absurd hclear (hkept r' hr')
  · rw [hnil, hnext]
    refine List.forall_mem_append.2 ⟨fun x hx => ?_, fun x hx =>
      ⟨(h.removed x hx).1, List.not_mem_nil⟩⟩
    obtain ⟨r, hr, rfl⟩ := List.mem_map.1 hx
    exact ⟨(h.tidy.listed r hr).1, List.not_mem_nil⟩

variable {op : RresOp}

lemma Inv.exec (h : s.Inv) (halloc : s.Allocates op) : ∃ t, s.exec op = some t ∧ t.Inv := by
  cases op with
  | create => exact h.create halloc
  | delete => exact h.delete halloc
  | reset => exact h.reset halloc

lemma Inv.exec_breaks {s t : RresHist} (h : s.Inv) (halloc : ¬ s.Allocates op)
    (hexec : s.exec op = some t) : ¬ t.Effective := by
  cases op with
  | create _ kind =>
    rw [RresHist.exec, RresStore.execOp, h.tidy.create_outside kind halloc] at hexec
    cases hexec
  | delete kind key =>
    simp only [Allocates, Classical.not_imp, Bool.not_eq_true] at halloc
    obtain ⟨hne, rfl⟩ := halloc
    obtain ⟨r, hlook⟩ := Option.ne_none_iff_exists'.1 hne
    obtain ⟨hr, rfl, rfl⟩ := h.tidy.entry kind key r hlook
    obtain ⟨u, hremove, -, hrem⟩ := h.tidy.toSound.remove hr false
    rw [exec_delete hlook hremove] at hexec
    cases hexec
    intro heff
    refine heff _ List.mem_cons_self ((hrem.look _ _ r).2 ⟨hlook, fun hh => ?_⟩)
    exact Bool.false_ne_true hh.1
  | reset alloc =>
    simp only [Allocates, not_forall] at halloc
    obtain ⟨r, hr, hfound, hnone⟩ := halloc
    obtain ⟨u, hreset, -, -, -, hlook⟩ := h.tidy.toSound.reset alloc
    rw [RresHist.exec, RresStore.execOp, hreset] at hexec
    cases hexec
    intro heff
    refine heff (r, _, _) (List.mem_append_left _ (List.mem_map_of_mem hr))
      ((hlook _ _ r).2 ⟨hfound, ?_⟩)
    exact fun r' hr' hclear => hnone ⟨r', hr', hclear⟩

/-- The store as `ntrdma_dev_res_init` sets it up, from which nothing was removed. -/
def start : RresHist := ⟨RresStore.start, []⟩

lemma inv_start : start.Inv := by
  obtain ⟨hcons, htables, hlisted⟩ := RresStore.inv_start
  refine ⟨⟨⟨htables, List.nodup_nil, fun r hr => absurd hr List.not_mem_nil⟩,
    fun kind key r hfound => ?_⟩,
    fun x hx => absurd hx List.not_mem_nil⟩
  exact (hcons.look_iff kind key r).1 hfound

lemma effective_iff (ops : List RresOp) : Always exec Effective start ops ↔
    Each exec Allocates start ops :=
  always_iff_each (fun _ h => h.effective) (fun _ _ h halloc => h.exec halloc)
    (fun _ _ _ h halloc hexec => h.exec_breaks halloc hexec) inv_start ops

end RresHist

/-- With any outcome of the allocations, what was removed is never found and what was added is,
exactly if the copies that the calls need can be allocated. -/
theorem removal_effective_iff {cap numReservedKeys : Nat} {vec : Kvec Nat}
    (hinit : kvecInit cap numReservedKeys true = .ok vec) (ops : List LresOp) (rops : List RresOp) :
    (Always LresSys.exec LresSys.Effective (LresSys.start vec) ops ↔
      Each LresSys.exec LresSys.Allocates (LresSys.start vec) ops) ∧
    (Always RresHist.exec RresHist.Effective RresHist.start rops ↔
      Each RresHist.exec RresHist.Allocates RresHist.start rops) :=
  ⟨LresSys.effective_iff hinit ops, RresHist.effective_iff rops⟩

def mrVec : Kvec Nat := ⟨512, 0, 0, fun i => i < 0, fun _ => none⟩

def confirmed (setAlloc : Bool) : ResAddEnv := ⟨setAlloc, 0, 0, 0, 0, true⟩

theorem removal_with_memory : kvecInit 512 0 true = .ok mrVec ∧
    Always LresSys.exec LresSys.Effective (LresSys.start mrVec)
      [.init 0 true, .add 0 (confirmed true), .del 0 true, .release 0 true] ∧
    Always RresHist.exec RresHist.Effective RresHist.start
      [.create (.ok ()) .rmr 7 true, .delete .rmr 7 true, .reset fun _ => true] := by
  have hiff := @removal_effective_iff 512 0 mrVec rfl
    [.init 0 true, .add 0 (confirmed true), .del 0 true, .release 0 true]
    [.create (.ok ()) .rmr 7 true, .delete .rmr 7 true, .reset fun _ => true]
  refine ⟨rfl, hiff.1.2 ?_, hiff.2.2 ?_⟩
  · exact ⟨trivial, fun _ _ => ⟨fun _ _ => .inl rfl, fun _ _ => ⟨fun _ => rfl, fun _ _ =>
      ⟨trivial, fun _ _ => trivial⟩⟩⟩⟩
  · exact ⟨fun _ => .inl (by decide), fun _ _ => ⟨fun _ => rfl, fun _ _ =>
      ⟨fun r hr _ => ⟨r, hr, rfl, rfl, rfl⟩, fun _ _ => trivial⟩⟩⟩

/-- Without memory for a copy, a deleted region is still found, and an added one is not. -/
theorem removal_without_memory : kvecInit 512 0 true = .ok mrVec ∧
    ([.init 0 true, .add 0 (confirmed true), .del 0 false].foldlM LresSys.exec
      (LresSys.start mrVec)).map
        (fun s => (s.phase 0, s.table.list, s.table.vec.resLook (s.key 0))) =
      some (.removed, [], some 0) ∧
    ([.init 0 true, .add 0 (confirmed false)].foldlM LresSys.exec (LresSys.start mrVec)).map
        (fun s => (s.phase 0, s.table.list, s.table.vec.resLook (s.key 0))) =
      some (.added, [0], none) ∧
    ([.create (.ok ()) .rmr 7 true, .delete .rmr 7 false].foldlM RresHist.exec RresHist.start).map
        (fun s => (s.removed, s.store.list, s.store.look .rmr 7)) =
      some ([(0, .rmr, 7)], [], some 0) ∧
    ¬ Always LresSys.exec LresSys.Effective (LresSys.start mrVec)
        [.init 0 true, .add 0 (confirmed true), .del 0 false] ∧
    ¬ Always RresHist.exec RresHist.Effective RresHist.start
        [.create (.ok ()) .rmr 7 true, .delete .rmr 7 false] := by
  have hdel : ([.init 0 true, .add 0 (confirmed true), .del 0 false].foldlM LresSys.exec
      (LresSys.start mrVec)).map (fun s => (s.phase 0, s.table.list,
        s.table.vec.resLook (s.key 0))) =
        some (.removed, [], some 0) := by
    decide +kernel
  have hremove : ([.create (.ok ()) .rmr 7 true, .delete .rmr 7 false].foldlM RresHist.exec
      RresHist.start).map (fun s => (s.removed, s.store.list, s.store.look .rmr 7)) =
        some ([(0, .rmr, 7)], [], some 0) := by
    decide +kernel
  refine ⟨rfl, hdel, by decide +kernel, hremove, fun halways => ?_, fun halways => ?_⟩
  · obtain ⟨t, ht, heff⟩ := halways.foldlM
    rw [ht, Option.map_some, Option.some.injEq, Prod.mk.injEq, Prod.mk.injEq] at hdel
    exact heff.removed 0 hdel.1 hdel.2.2
  · obtain ⟨t, ht, heff⟩ := halways.foldlM
    rw [ht, Option.map_some, Option.some.injEq, Prod.mk.injEq, Prod.mk.injEq] at hremove
    exact heff (0, .rmr, 7) (hremove.1 ▸ List.mem_cons_self) hremove.2.2

end Ntrdma
