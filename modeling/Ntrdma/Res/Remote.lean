import Ntrdma.Cmd.Recv
import Ntrdma.Lib.Run
import Ntrdma.Res.Vec

/-!
# The store of remote resources

Model of the part of `ntrdma_res.c` that keeps the resources of the peer: one list of all of them,
and one table each for the regions and for the queue pairs, by the keys that the peer chose. A
resource is added by the handlers of `MR_CREATE` and `QP_CREATE` (`ntrdma_rres_add`), removed by
those of `MR_DELETE` and `QP_DELETE` (`ntrdma_rres_remove`), and all of them are removed by
`ntrdma_dev_rres_reset`.

Nothing looks whether a key is in use when a resource is added. The list and the tables agree in all
states exactly if the peer creates no resource under a key that is in use, nor under the key with
all bits set (`rresStore_consistent_iff`).

A resource is a number, in the order of the creations. Its memory, its references and what else the
handlers do are left out; whether a handler gets to the store is computed as in `Ntrdma.Cmd.Recv`
(`mrCreate_result`, `qpCreate_result`).
-/

namespace Ntrdma
open Function Lib

/-! ## The store -/

/-- The tables of the store (C `dev->rres.rmr_vec`, `dev->rres.rqp_vec`). -/
inductive RresKind where
  | rmr
  | rqp
  deriving DecidableEq, Repr

structure Rres where
  kind : RresKind
  key : UInt32
  inRresList : Bool

/-- C `dev->rres`, with the resources and the number of the next one. -/
structure RresStore where
  list : List Nat
  vec : RresKind → Vec Nat
  rres : Nat → Rres
  next : Nat

namespace RresStore

def look (s : RresStore) (kind : RresKind) (key : UInt32) : Option Nat := (s.vec kind).rresLook key

def init (s : RresStore) (kind : RresKind) (key : UInt32) : RresStore :=
  { s with rres := update s.rres s.next ⟨kind, key, false⟩, next := s.next + 1 }

def enlist (s : RresStore) (r : Nat) (vec : Vec Nat) : RresStore :=
  { s with
    list := s.list ++ [r]
    vec := update s.vec (s.rres r).kind vec
    rres := update s.rres r { s.rres r with inRresList := true } }

def delist (s : RresStore) (r : Nat) (vec : Vec Nat) : RresStore :=
  { s with
    list := if (s.rres r).inRresList then s.list.erase r else s.list
    vec := update s.vec (s.rres r).kind vec
    rres := update s.rres r { s.rres r with key := ~~~0, inRresList := false } }

def add (s : RresStore) (r : Nat) (alloc : Bool) : Option (Except Errno Unit × RresStore) :=
  match (s.vec (s.rres r).kind).set (s.rres r).key (some r) alloc with
  | none => none
  | some (.error e, _) => some (.error e, s)
  | some (.ok (), vec) => some (.ok (), s.enlist r vec)

/-- C `ntrdma_rres_remove_unsafe` and C `ntrdma_rres_remove`. What the store into the table returns
is not looked at. -/
def remove (s : RresStore) (r : Nat) (alloc : Bool) : Option RresStore :=
  match (s.vec (s.rres r).kind).set (s.rres r).key none alloc with
  | none => none
  | some (_, vec) => some (s.delist r vec)

def resetLoop (alloc : Nat → Bool) : List Nat → RresStore → Option RresStore
  | [], s => some s
  | r :: rest, s =>
    match s.remove r (alloc r) with
    | none => none
    | some s => resetLoop alloc rest s

/-- C `ntrdma_dev_rres_reset`: the list is gone over from its end. -/
def reset (s : RresStore) (alloc : Nat → Bool) : Option RresStore :=
  (resetLoop alloc s.list.reverse s).map fun s => { s with list := [] }

/-! ## The handlers -/

def create (s : RresStore) (checks : Except Errno Unit) (kind : RresKind) (key : UInt32)
    (alloc : Bool) : Option (Except Errno Unit × RresStore) :=
  match checks with
  | .error e => some (.error e, s)
  | .ok () => (s.init kind key).add s.next alloc

def delete (s : RresStore) (kind : RresKind) (key : UInt32) (alloc : Bool) :
    Option (Except Errno Unit × RresStore) :=
  match s.look kind key with
  | none => some (.error .einval, s)
  | some r =>
    match s.remove r alloc with
    | none => none
    | some s => some (.ok (), s)

end RresStore

/-- What `ntrdma_cmd_recv_mr_create` does before the region is added. -/
def mrCreateChecks (env : RecvEnv) (ntc : NtcDev) (cmd : CmdMrCreate) : Except Errno Unit :=
  match sanityMrCreate cmd with
  | .error e => .error e
  | .ok () =>
    if !env.alloc then .error .enomem
    else (mapSgs ntc false cmd.sgDescList 0 cmd.sgCount.toNat 0 fun _ => ⟨0, 0⟩).1

/-- What `ntrdma_cmd_recv_qp_create` does before the queue pair is added. -/
def qpCreateChecks (env : RecvEnv) (ntc : NtcDev) (cmd : CmdQpCreate) : Except Errno Unit :=
  match qpCreateSanity cmd with
  | .error e => .error e
  | .ok () =>
    if !env.alloc then .error .enomem
    else
      match ntcRemoteBufMap ntc cmd.sendCqeBufDesc with
      | .error e => .error e
      | .ok _ => env.rqpBufs.map fun _ => ()

/-- The handler gets to the store exactly if the one of `Ntrdma.Cmd.Recv` does, and returns what it
does. -/
lemma mrCreate_result (env : RecvEnv) (dev : CmdDev) (cmd : CmdMrCreate) :
    (mrCreate env dev cmd).1 = (mrCreateChecks env dev.ntc cmd).bind fun _ => env.vecSet := by
  rw [mrCreate, mrCreateChecks]
  cases sanityMrCreate cmd with
  | error => rfl
  | ok =>
    dsimp only
    split
    · rfl
    · rw [rmrInit]
      obtain ⟨rc, sgList⟩ := mapSgs dev.ntc false cmd.sgDescList 0
        cmd.sgCount.toNat 0 fun _ => ⟨0, 0⟩
      cases rc with
      | error => rfl
      | ok =>
        cases hset : env.vecSet with
        | error => rfl
        | ok => rfl

lemma qpCreate_result (env : RecvEnv) (dev : CmdDev) (cmd : CmdQpCreate) :
    (qpCreate env dev cmd).map (fun _ => ()) =
      (qpCreateChecks env dev.ntc cmd).bind fun _ => env.vecSet := by
  rw [qpCreate, qpCreateChecks]
  cases qpCreateSanity cmd with
  | error => rfl
  | ok =>
    dsimp only
    split
    · rfl
    · cases ntcRemoteBufMap dev.ntc cmd.sendCqeBufDesc with
      | error => rfl
      | ok =>
        cases env.rqpBufs with
        | error => rfl
        | ok =>
          cases hset : env.vecSet with
          | error => rfl
          | ok => rfl

/-- The commands of the peer, with what the kernel answers meanwhile, and the reset when the link
goes down. -/
inductive RresCmd where
  | mrCreate (env : RecvEnv) (cmd : CmdMrCreate)
  | mrDelete (cmd : CmdMrDelete)
  | qpCreate (env : RecvEnv) (cmd : CmdQpCreate)
  | qpDelete (cmd : CmdQpDelete)
  | reset

namespace RresStore

/-- The store after a command, where all copies of a table can be allocated. It has no result where
a handler goes outside of a table. -/
def exec (ntc : NtcDev) (s : RresStore) : RresCmd → Option RresStore
  | .mrCreate env cmd => (s.create (mrCreateChecks env ntc cmd) .rmr cmd.mrKey true).map Prod.snd
  | .mrDelete cmd => (s.delete .rmr cmd.mrKey true).map Prod.snd
  | .qpCreate env cmd => (s.create (qpCreateChecks env ntc cmd) .rqp cmd.qpKey true).map Prod.snd
  | .qpDelete cmd => (s.delete .rqp cmd.qpKey true).map Prod.snd
  | .reset => s.reset fun _ => true

/-- At most one resource is listed for a table and a key, and a lookup finds exactly what is
listed. -/
structure Consistent (s : RresStore) : Prop where
  unique : s.list.Pairwise fun r r' =>
    ¬ ((s.rres r).kind = (s.rres r').kind ∧ (s.rres r).key = (s.rres r').key)
  look_iff : ∀ kind key r,
    s.look kind key = some r ↔ r ∈ s.list ∧ (s.rres r).kind = kind ∧ (s.rres r).key = key

def CreatesFresh (s : RresStore) (checks : Except Errno Unit) (kind : RresKind) (key : UInt32) :
    Prop :=
  checks = .ok () → s.look kind key = none ∧ key ≠ 0xFFFFFFFF

def Fresh (ntc : NtcDev) (s : RresStore) : RresCmd → Prop
  | .mrCreate env cmd => s.CreatesFresh (mrCreateChecks env ntc cmd) .rmr cmd.mrKey
  | .qpCreate env cmd => s.CreatesFresh (qpCreateChecks env ntc cmd) .rqp cmd.qpKey
  | _ => True

/-! ## What the operations keep -/

/-- The list and the tables agree, the tables can be copied, and the flag of a listed resource is
set. -/
structure Inv (s : RresStore) : Prop where
  consistent : s.Consistent
  tables : ∀ kind, (s.vec kind).Wf ∧ (s.vec kind).cap < maxVecCap
  listed : ∀ r ∈ s.list, r < s.next ∧ (s.rres r).inRresList = true

/-- The tables can be copied, and the listed resources have keys inside of them. -/
structure Sound (s : RresStore) : Prop where
  tables : ∀ kind, (s.vec kind).Wf ∧ (s.vec kind).cap < maxVecCap
  nodup : s.list.Nodup
  listed : ∀ r ∈ s.list,
    r < s.next ∧ (s.rres r).inRresList = true ∧ (s.rres r).key < (s.vec (s.rres r).kind).cap

/-- What is found is listed, in the table and with the key under which it is found. -/
structure Tidy (s : RresStore) : Prop extends s.Sound where
  entry : ∀ kind key r, s.look kind key = some r →
    r ∈ s.list ∧ (s.rres r).kind = kind ∧ (s.rres r).key = key

/-- The entry under the key is gone if the copy can be allocated, and all else is as before. -/
structure Removes (s : RresStore) (r : Nat) (alloc : Bool) (t : RresStore) : Prop where
  list : t.list = s.list.erase r
  next : t.next = s.next
  rres : ∀ r', r' ≠ r → t.rres r' = s.rres r'
  look : ∀ kind key r', t.look kind key = some r' ↔
    s.look kind key = some r' ∧ ¬ (alloc = true ∧ (s.rres r).kind = kind ∧ (s.rres r).key = key)

variable {s : RresStore} {vec : Vec Nat} {kind : RresKind}

lemma look_update {p : UInt32 → Prop} [DecidablePred p] {e : Option Nat}
    (hlook : ∀ k, vec.rresLook k = if p k then e else s.look kind k) (kind' : RresKind)
    (key : UInt32) :
    (update s.vec kind vec kind').rresLook key = if kind' = kind ∧
      p key then e else s.look kind' key := by
  by_cases h : kind' = kind
  · rw [h, update_self, hlook]
    exact if_congr (and_iff_right rfl).symm rfl rfl
  · rw [update_of_ne h, if_neg fun hh => h hh.1, look]

lemma Sound.cap_le (hcap : (s.vec kind).cap ≤ vec.cap) (kind' : RresKind) :
    (s.vec kind').cap ≤ (update s.vec kind vec kind').cap := by
  by_cases heq : kind' = kind
  · rw [heq, update_self]
    exact hcap
  · rw [update_of_ne heq]
    exact UInt32.le_refl _

lemma Sound.tables_update (h : s.Sound) (hwf : vec.Wf) (hmax : vec.cap < maxVecCap)
    (kind kind' : RresKind) :
    (update s.vec kind vec kind').Wf ∧ (update s.vec kind vec kind').cap < maxVecCap :=
  (forall_update_iff s.vec fun _ vec => vec.Wf ∧ vec.cap < maxVecCap).2
    ⟨⟨hwf, hmax⟩, fun kind _ => h.tables kind⟩ kind'

variable {r : Nat}

lemma Sound.delist (h : s.Sound) (hr : r ∈ s.list) (hwf : vec.Wf)
    (hcap : (s.vec (s.rres r).kind).cap ≤ vec.cap) (hmax : vec.cap < maxVecCap) :
    (s.delist r vec).Sound := by
  have hlist : (s.delist r vec).list = s.list.erase r := if_pos (h.listed r hr).2.1
  refine ⟨h.tables_update hwf hmax _, ?_, fun r' hr' => ?_⟩
  · rw [hlist]
    exact h.nodup.erase r
  · rw [hlist, h.nodup.mem_erase_iff] at hr'
    obtain ⟨hlt, hin, hkey⟩ := h.listed r' hr'.2
    rw [show (s.delist r vec).rres r' = s.rres r' from update_of_ne hr'.1 _ _]
    exact ⟨hlt, hin, UInt32.lt_of_lt_of_le hkey (Sound.cap_le hcap _)⟩

lemma Sound.remove (h : s.Sound) (hr : r ∈ s.list) (alloc : Bool) :
    ∃ t, s.remove r alloc = some t ∧ t.Sound ∧ s.Removes r alloc t := by
  obtain ⟨hwf, hmax⟩ := h.tables (s.rres r).kind
  obtain ⟨-, hin, hkey⟩ := h.listed r hr
  obtain ⟨rc, vec, hset, hwf', hcap, hmax', hlook⟩ : ∃ rc vec,
      (s.vec (s.rres r).kind).set (s.rres r).key none alloc = some (rc, vec) ∧ vec.Wf ∧
        (s.vec (s.rres r).kind).cap ≤ vec.cap ∧ vec.cap < maxVecCap ∧
        ∀ k, vec.rresLook k =
          if alloc = true ∧ k = (s.rres r).key then none else s.look (s.rres r).kind k := by
    cases alloc with
    | true =>
      obtain ⟨vec, hset, hvec⟩ := hwf.set_present hkey hmax none
      refine ⟨_, vec, hset, hvec.1, hvec.2.1, hvec.2.2.1, fun k => (hvec.2.2.2 k).trans ?_⟩
      exact if_congr (and_iff_right rfl).symm rfl rfl
    | false =>
      have hsets := hwf.sets (s.rres r).key none false
      generalize (s.vec (s.rres r).kind).set (s.rres r).key none false = res at hsets
      cases hsets with
      | failed =>
        exact ⟨_, _, rfl, hwf, UInt32.le_refl _, hmax, fun k =>
          (if_neg fun hh => Bool.false_ne_true hh.1).symm⟩
      | stored htrue => cases htrue
      | outside htrue => cases htrue
  refine ⟨s.delist r vec, by rw [RresStore.remove, hset],
    h.delist hr hwf' hcap hmax', if_pos hin, rfl,
    fun r' hne => update_of_ne hne _ _, fun kind key r' => ?_⟩
  refine (Eq.congr_left (look_update hlook kind key)).trans ?_
  rw [ite_eq_iff]
  constructor
  · rintro (⟨-, hnone⟩ | ⟨hne, hfound⟩)
    · cases hnone
    · exact ⟨hfound, fun hh => hne ⟨hh.2.1.symm, hh.1, hh.2.2.symm⟩⟩
  · rintro ⟨hfound, hne⟩
    exact .inr ⟨fun hh => hne ⟨hh.2.1, hh.1.symm, hh.2.2.symm⟩, hfound⟩

lemma Sound.resetLoop (h : s.Sound) {l : List Nat} (hl : l.Perm s.list) (alloc : Nat → Bool) :
    ∃ t, RresStore.resetLoop alloc l s = some t ∧ t.Sound ∧ t.list = [] ∧ t.next = s.next ∧
      ∀ kind key r, t.look kind key = some r ↔ s.look kind key = some r ∧
        ∀ r' ∈ l, ¬ (alloc r' = true ∧ (s.rres r').kind = kind ∧ (s.rres r').key = key) := by
  induction l generalizing s with
  | nil =>
    exact ⟨s, rfl, h, hl.nil_eq.symm, rfl, fun kind key r =>
      (and_iff_left fun r' hr' => absurd hr' List.not_mem_nil).symm⟩
  | cons r l ih =>
    obtain ⟨u, hremove, hu, hrem⟩ := h.remove (hl.subset List.mem_cons_self) (alloc r)
    have hne : ∀ r' ∈ l, r' ≠ r := by
      rintro r' hr' rfl
      exact (List.nodup_cons.1 (hl.nodup_iff.2 h.nodup)).1 hr'
    have hperm : l.Perm u.list := by
      rw [hrem.list]
      exact (List.perm_cons_erase (hl.subset List.mem_cons_self)).symm.trans
        hl.symm |>.symm.cons_inv
    obtain ⟨t, hloop, ht, hnil, hnext, hlook⟩ := ih hu hperm
    rw [RresStore.resetLoop, hremove]
    refine ⟨t, hloop, ht, hnil, hnext.trans hrem.next, fun kind key r' => ?_⟩
    rw [hlook, hrem.look, List.forall_mem_cons, and_assoc]
    refine and_congr_right fun _ => and_congr_right fun _ => forall₂_congr fun r'' hr'' => ?_
    rw [hrem.rres r'' (hne r'' hr'')]

lemma Sound.reset (h : s.Sound) (alloc : Nat → Bool) :
    ∃ t, s.reset alloc = some t ∧ t.Sound ∧ t.list = [] ∧ t.next = s.next ∧
      ∀ kind key r, t.look kind key = some r ↔ s.look kind key = some r ∧
        ∀ r' ∈ s.list, ¬ (alloc r' = true ∧ (s.rres r').kind = kind ∧ (s.rres r').key = key) := by
  obtain ⟨t, hloop, ht, hnil, hnext, hlook⟩ := h.resetLoop s.list.reverse_perm alloc
  refine ⟨t, ?_, ht, hnil, hnext, fun kind key r => (hlook kind key r).trans ?_⟩
  · rw [RresStore.reset, hloop, Option.map_some, ← hnil]
  · simp only [List.mem_reverse]

lemma Tidy.init (h : s.Tidy) (kind : RresKind) (key : UInt32) : (s.init kind key).Tidy := by
  have hrres : ∀ r ∈ s.list, (s.init kind key).rres r = s.rres r := fun r hr =>
    update_of_ne (Nat.ne_of_lt (h.listed r hr).1) _ _
  refine ⟨⟨h.tables, h.nodup, fun r hr => ?_⟩, fun kind' key' r hfound => ?_⟩
  · rw [hrres r hr]
    obtain ⟨hlt, hin, hkey⟩ := h.listed r hr
    exact ⟨Nat.lt_succ_of_lt hlt, hin, hkey⟩
  · obtain ⟨hr, hkk⟩ := h.entry kind' key' r hfound
    rw [hrres r hr]
    exact ⟨hr, hkk⟩

lemma Tidy.enlist (h : s.Tidy) (hr : r ∉ s.list) (hlt : r < s.next) (hwf : vec.Wf)
    (hcap : (s.vec (s.rres r).kind).cap ≤ vec.cap) (hkey : (s.rres r).key < vec.cap)
    (hmax : vec.cap < maxVecCap)
    (hlook : ∀ k, vec.rresLook k = if k = (s.rres r).key then some r else
      s.look (s.rres r).kind k) : (s.enlist r vec).Tidy := by
  have hself : (s.enlist r vec).rres r = { s.rres r with inRresList := true } := update_self _ _ _
  have hrres : ∀ r' ∈ s.list, (s.enlist r vec).rres r' = s.rres r' := fun r' hr' =>
    update_of_ne (fun heq : r' = r => hr (heq ▸ hr')) _ _
  have hnodup : (s.list ++ [r]).Nodup := by
    rw [← List.concat_eq_append]
    exact h.nodup.concat hr
  refine ⟨⟨h.tables_update hwf hmax _, hnodup, fun r' hr' => ?_⟩, fun kind key r' hfound => ?_⟩
  · obtain hr' | hr' := List.mem_append.1 hr'
    · rw [hrres r' hr']
      obtain ⟨hlt', hin, hkey'⟩ := h.listed r' hr'
      exact ⟨hlt', hin, UInt32.lt_of_lt_of_le hkey' (Sound.cap_le hcap _)⟩
    · rw [List.mem_singleton.1 hr', hself]
      refine ⟨hlt, rfl, ?_⟩
      rw [show (s.enlist r vec).vec (s.rres r).kind = vec from update_self _ _ _]
      exact hkey
  · obtain ⟨hkk, hsome⟩ | ⟨-, hold⟩ := ite_eq_iff.1 ((look_update hlook kind key).symm.trans hfound)
    · cases hsome
      rw [hself]
      exact ⟨List.mem_append_right _ List.mem_cons_self, hkk.1.symm, hkk.2.symm⟩
    · obtain ⟨hr', hkk⟩ := h.entry kind key r' hold
      rw [hrres r' hr']
      exact ⟨List.mem_append_left _ hr', hkk⟩

lemma Tidy.remove (h : s.Tidy) (hr : r ∈ s.list) :
    ∃ t, s.remove r true = some t ∧ t.Tidy ∧ s.Removes r true t := by
  obtain ⟨t, hremove, ht, hrem⟩ := h.toSound.remove hr true
  refine ⟨t, hremove, ⟨ht, fun kind key r' hfound => ?_⟩, hrem⟩
  obtain ⟨hfound, hne⟩ := (hrem.look kind key r').1 hfound
  obtain ⟨hr', hkind, hkey⟩ := h.entry kind key r' hfound
  have hne' : r' ≠ r := by
    rintro rfl
    exact hne ⟨rfl, hkind, hkey⟩
  rw [hrem.list, hrem.rres r' hne', h.nodup.mem_erase_iff]
  exact ⟨⟨hne', hr'⟩, hkind, hkey⟩

lemma create_ok (s : RresStore) (kind : RresKind) (key : UInt32) (alloc : Bool) :
    s.create (.ok ()) kind key alloc =
      match (s.vec kind).set key (some s.next) alloc with
      | none => none
      | some (.error e, _) => some (.error e, s.init kind key)
      | some (.ok (), vec) => some (.ok (), (s.init kind key).enlist s.next vec) := by
  have hr : (s.init kind key).rres s.next = ⟨kind, key, false⟩ := update_self _ _ _
  simp only [RresStore.create, RresStore.add, hr]
  rfl

variable {key : UInt32}

lemma Tidy.enlist_new (h : s.Tidy) (hwf : vec.Wf) (hcap : (s.vec kind).cap ≤ vec.cap)
    (hkey : key < vec.cap) (hmax : vec.cap < maxVecCap)
    (hlook : ∀ k, vec.rresLook k = if k = key then some s.next else s.look kind k) :
    ((s.init kind key).enlist s.next vec).Tidy := by
  have hr : (s.init kind key).rres s.next = ⟨kind, key, false⟩ := update_self _ _ _
  have hnew : s.next ∉ s.list := fun hin => absurd (h.listed _ hin).1 (Nat.lt_irrefl _)
  refine (h.init kind key).enlist hnew (Nat.lt_succ_self _) hwf ?_ ?_ hmax ?_ <;> rw [hr]
  exacts [hcap, hkey, hlook]

lemma inv_iff : s.Inv ↔ s.Tidy ∧ ∀ r ∈ s.list, s.look (s.rres r).kind (s.rres r).key = some r := by
  constructor
  · intro h
    have hfound : ∀ r ∈ s.list, s.look (s.rres r).kind (s.rres r).key = some r := fun r hr =>
      (h.consistent.look_iff _ _ r).2 ⟨hr, rfl, rfl⟩
    refine ⟨⟨⟨h.tables, ?_, fun r hr => ⟨(h.listed r hr).1, (h.listed r hr).2, ?_⟩⟩,
      fun kind key r => (h.consistent.look_iff kind key r).1⟩, hfound⟩
    · exact h.consistent.unique.imp fun hne heq => hne (by rw [heq]; exact ⟨rfl, rfl⟩)
    · by_contra hge
      have hlook := hfound r hr
      rw [look, Vec.rresLook, if_neg hge] at hlook
      cases hlook
  · rintro ⟨h, hfound⟩
    refine ⟨⟨h.nodup.imp_of_mem ?_, fun kind key r => ⟨h.entry kind key r, ?_⟩⟩, h.tables,
      fun r hr => ⟨(h.listed r hr).1, (h.listed r hr).2.1⟩⟩
    · rintro r r' hr hr' hne ⟨hkind, hkey⟩
      have hlook := hfound r hr
      rw [hkind, hkey, hfound r' hr'] at hlook
      exact hne (Option.some.inj hlook).symm
    · rintro ⟨hr, rfl, rfl⟩
      exact hfound r hr

lemma Inv.remove (h : s.Inv) (hr : r ∈ s.list) : ∃ t, s.remove r true = some t ∧ t.Inv := by
  obtain ⟨htidy, hfound⟩ := inv_iff.1 h
  obtain ⟨t, hremove, ht, hrem⟩ := htidy.remove hr
  refine ⟨t, hremove, inv_iff.2 ⟨ht, fun r' hr' => ?_⟩⟩
  rw [hrem.list, htidy.nodup.mem_erase_iff] at hr'
  rw [hrem.rres r' hr'.1, hrem.look]
  refine ⟨hfound r' hr'.2, ?_⟩
  rintro ⟨-, hkind, hkey⟩
  have hlook := hfound r' hr'.2
  rw [← hkind, ← hkey, hfound r hr] at hlook
  exact hr'.1 (Option.some.inj hlook).symm

lemma Inv.reset (h : s.Inv) : ∃ t, s.reset (fun _ => true) = some t ∧ t.Inv := by
  obtain ⟨htidy, -⟩ := inv_iff.1 h
  obtain ⟨t, hreset, ht, hnil, -, hlook⟩ := htidy.toSound.reset fun _ => true
  refine ⟨t, hreset, inv_iff.2 ⟨⟨ht, fun kind key r hfound => ?_⟩, fun r hr => ?_⟩⟩
  · -- every entry is one of a listed resource, whose removal clears it
    obtain ⟨hold, hkept⟩ := (hlook kind key r).1 hfound
    obtain ⟨hr, hkk⟩ := htidy.entry kind key r hold
    exact absurd ⟨rfl, hkk⟩ (hkept r hr)
  · rw [hnil] at hr
    cases hr

lemma Inv.delete (h : s.Inv) (kind : RresKind) (key : UInt32) :
    ∃ rc t, s.delete kind key true = some (rc, t) ∧ t.Inv := by
  rw [RresStore.delete]
  cases hlook : s.look kind key with
  | none => exact ⟨_, s, rfl, h⟩
  | some r =>
    obtain ⟨t, hremove, ht⟩ := h.remove ((h.consistent.look_iff _ _ r).1 hlook).1
    dsimp only
    rw [hremove]
    exact ⟨_, t, rfl, ht⟩

lemma Inv.enlist_new (h : s.Inv) (hfree : s.look kind key = none) (hwf : vec.Wf)
    (hcap : (s.vec kind).cap ≤ vec.cap) (hkey : key < vec.cap) (hmax : vec.cap < maxVecCap)
    (hlook : ∀ k, vec.rresLook k = if k = key then some s.next else s.look kind k) :
    ((s.init kind key).enlist s.next vec).Inv := by
  obtain ⟨htidy, hfound⟩ := inv_iff.1 h
  have hr : (s.init kind key).rres s.next = ⟨kind, key, false⟩ := update_self _ _ _
  refine inv_iff.2 ⟨htidy.enlist_new hwf hcap hkey hmax hlook, fun r hin => ?_⟩
  simp only [look, RresStore.enlist, hr]
  rw [look_update (s := s.init kind key) hlook]
  obtain hin | hin := List.mem_append.1 hin
  · have hne : r ≠ s.next := Nat.ne_of_lt (h.listed r hin).1
    rw [update_of_ne hne, show (s.init kind key).rres r =
      s.rres r from update_of_ne hne _ _, if_neg]
    · exact hfound r hin
    · rintro ⟨rfl, rfl⟩
      rw [hfound r hin] at hfree
      cases hfree
  · rw [List.mem_singleton.1 hin, update_self]
    exact if_pos ⟨rfl, rfl⟩

variable {checks : Except Errno Unit}

lemma Inv.create (h : s.Inv) (hfresh : s.CreatesFresh checks kind key) :
    ∃ rc t, s.create checks kind key true = some (rc, t) ∧ t.Inv := by
  cases checks with
  | error => exact ⟨_, s, rfl, h⟩
  | ok =>
    obtain ⟨hfree, hones⟩ := hfresh rfl
    obtain ⟨htidy, hfound⟩ := inv_iff.1 h
    have hsets := (h.tables kind).1.sets key (some s.next) true
    rw [create_ok]
    generalize (s.vec kind).set key (some s.next) true = res at hsets
    cases hsets with
    | failed =>
      refine ⟨_, _, rfl, inv_iff.2 ⟨htidy.init kind key, fun r hr => ?_⟩⟩
      rw [show (s.init kind key).rres r = s.rres r from update_of_ne
        (Nat.ne_of_lt (h.listed r hr).1) _ _]
      exact hfound r hr
    | outside _ hkey => exact absurd hkey hones
    | stored _ _ hwf hcap hkey hmax hlook =>
      exact ⟨_, _, rfl, h.enlist_new hfree hwf hcap hkey hmax hlook⟩

lemma Inv.create_breaks (h : s.Inv) (hstale : ¬ s.CreatesFresh checks kind key) :
    ∀ rc t, s.create checks kind key true = some (rc, t) → ¬ t.Consistent := by
  simp only [CreatesFresh, Classical.not_imp, not_and_or, not_not] at hstale
  obtain ⟨rfl, hstale⟩ := hstale
  have hsets := (h.tables kind).1.sets key (some s.next) true
  rw [create_ok]
  generalize (s.vec kind).set key (some s.next) true = res at hsets
  cases hsets with
  | outside =>
    rintro _ _ ⟨⟩
  | failed hfail =>
    obtain hfalse | ⟨hones, hcap⟩ := hfail
    · cases hfalse
    obtain ⟨r, hfound⟩ := Option.ne_none_iff_exists'.1 (hstale.resolve_right hones)
    obtain ⟨hin, rfl, rfl⟩ := (h.consistent.look_iff _ _ r).1 hfound
    obtain hge | hmax := hcap
    · exact absurd ((inv_iff.1 h).1.listed r hin).2.2 (UInt32.not_lt.2 hge)
    · exact absurd (h.tables _).2 (UInt32.not_lt.2 hmax)
  | stored _ hones =>
    obtain ⟨r, hfound⟩ := Option.ne_none_iff_exists'.1 (hstale.resolve_right hones)
    obtain ⟨hin, hkind, hkey⟩ := (h.consistent.look_iff _ _ r).1 hfound
    rintro _ _ ⟨⟩ hcons
    have hne : r ≠ s.next := Nat.ne_of_lt (h.listed r hin).1
    refine (List.pairwise_append.1 hcons.unique).2.2 r hin s.next List.mem_cons_self ?_
    simp only [RresStore.enlist, RresStore.init, update_self, update_of_ne hne]
    exact ⟨hkind, hkey⟩

/-! ## The store under any sequence of commands -/

/-- The store as `ntrdma_dev_res_init` sets it up. -/
def start : RresStore where
  list := []
  vec := fun _ => ⟨512, List.replicate 512 none⟩
  rres := fun _ => ⟨.rmr, 0, false⟩
  next := 0

lemma start_vec (kind : RresKind) : vecInit 512 true = .ok (start.vec kind) := rfl

lemma inv_start : start.Inv := by
  have hvec := fun kind => vecInit_ok (start_vec kind)
  refine ⟨⟨List.Pairwise.nil, fun kind key r => ?_⟩, fun kind => ⟨(hvec kind).1, (hvec kind).2.2.1⟩,
    fun r hr => absurd hr List.not_mem_nil⟩
  rw [look, (hvec kind).2.2.2 key]
  exact iff_of_false (fun hnone => absurd hnone.symm (Option.some_ne_none _)) fun hin =>
    absurd hin.1 List.not_mem_nil

variable {ntc : NtcDev} {cmd : RresCmd}

lemma Inv.exec (h : s.Inv) (hfresh : s.Fresh ntc cmd) : ∃ t, s.exec ntc cmd = some t ∧ t.Inv := by
  cases cmd with
  | mrCreate =>
    obtain ⟨rc, t, hcreate, ht⟩ := h.create hfresh
    exact ⟨t, congrArg (Option.map Prod.snd) hcreate, ht⟩
  | mrDelete cmd =>
    obtain ⟨rc, t, hdelete, ht⟩ := h.delete .rmr cmd.mrKey
    exact ⟨t, congrArg (Option.map Prod.snd) hdelete, ht⟩
  | qpCreate =>
    obtain ⟨rc, t, hcreate, ht⟩ := h.create hfresh
    exact ⟨t, congrArg (Option.map Prod.snd) hcreate, ht⟩
  | qpDelete cmd =>
    obtain ⟨rc, t, hdelete, ht⟩ := h.delete .rqp cmd.qpKey
    exact ⟨t, congrArg (Option.map Prod.snd) hdelete, ht⟩
  | reset => exact h.reset

lemma Inv.exec_breaks {s t : RresStore} (h : s.Inv) (hstale : ¬ s.Fresh ntc cmd)
    (hexec : s.exec ntc cmd = some t) : ¬ t.Consistent := by
  cases cmd with
  | mrCreate =>
    obtain ⟨⟨rc, t⟩, hcreate, rfl⟩ := Option.map_eq_some_iff.1 hexec
    exact h.create_breaks hstale rc t hcreate
  | qpCreate =>
    obtain ⟨⟨rc, t⟩, hcreate, rfl⟩ := Option.map_eq_some_iff.1 hexec
    exact h.create_breaks hstale rc t hcreate
  | mrDelete => exact absurd trivial hstale
  | qpDelete => exact absurd trivial hstale
  | reset => exact absurd trivial hstale

/-- The list and the tables agree throughout exactly if each command uses a fresh key. -/
theorem rresStore_consistent_iff (ntc : NtcDev) (cmds : List RresCmd) :
    Always (exec ntc) Consistent start cmds ↔ Each (exec ntc) (Fresh ntc) start cmds :=
  always_iff_each (fun _ h => h.consistent) (fun _ _ h hfresh => h.exec hfresh)
    (fun _ _ _ h hstale hexec => h.exec_breaks hstale hexec) inv_start cmds

def regionCmd (key : UInt32) : RresCmd :=
  .mrCreate easyEnv ⟨key, 0, 0, 0x1000, 16, 1, 1, fun _ => ⟨0, 16⟩⟩

/-- Two regions under one key are both listed, and only the second is found; a key with all bits set
leads outside of the table. -/
theorem rresStore_repeated_key :
    ([regionCmd 7, regionCmd 7].foldlM (exec idleDev.ntc) start).map
        (fun s => (s.list, s.list.map fun r => ((s.rres r).kind, (s.rres r).key), s.look .rmr 7)) =
      some ([0, 1], [(.rmr, 7), (.rmr, 7)], some 1) ∧
    (exec idleDev.ntc start (regionCmd 0xFFFFFFFF)).isNone = true ∧
    ¬ Always (exec idleDev.ntc) Consistent start [regionCmd 7, regionCmd 7] := by
  have hrun : ([regionCmd 7, regionCmd 7].foldlM (exec idleDev.ntc) start).map
      (fun s => (s.list, s.list.map fun r => ((s.rres r).kind, (s.rres r).key), s.look .rmr 7)) =
        some ([0, 1], [(.rmr, 7), (.rmr, 7)], some 1) := by
    decide +kernel
  refine ⟨hrun, by decide +kernel, fun halways => ?_⟩
  obtain ⟨t, ht, hcons⟩ := halways.foldlM
  rw [ht, Option.map_some, Option.some.injEq, Prod.mk.injEq, Prod.mk.injEq] at hrun
  obtain ⟨hlist, hkeys, -⟩ := hrun
  rw [hlist] at hkeys
  have hunique := hcons.unique
  rw [hlist] at hunique
  have hne := List.rel_of_pairwise_cons hunique (List.mem_singleton_self 1)
  simp only [List.map_cons, List.map_nil, List.cons.injEq, Prod.mk.injEq, and_true] at hkeys
  obtain ⟨⟨hkind, hkey⟩, hkind', hkey'⟩ := hkeys
  exact hne ⟨hkind.trans hkind'.symm, hkey.trans hkey'.symm⟩

end RresStore

end Ntrdma
