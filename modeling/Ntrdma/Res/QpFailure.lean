import Ntrdma.Cmd.QpCreate
import Ntrdma.Res.Local

/-!
# Creations of queue pairs that fail

Model of `ntrdma_create_qp` to its end, as far as the list and the vector of queue pairs are
concerned. The creation can fail before it reserves a key, in `ntrdma_qp_init`, in `ntrdma_res_add`,
and where it exchanges buffers with the user afterwards.

The first three ways undo what was done: `ntrdma_res_add` takes the queue pair off the list and out
of the vector, `ntrdma_qp_deinit` disposes of the key. The last one only drops the initial
reference; with it `qp_release_work` calls `ntrdma_qp_deinit`, and nothing takes the queue pair off
the list or out of the vector. (A file that was opened meanwhile has a reference too, which goes
when it is closed.)
-/

namespace Ntrdma
open Lib

/-- What a creation reads from the user, and what `get_user_pages_fast` returns. -/
structure ExtInbuf where
  copied : Bool
  goodDesc : Bool
  pagePtr : Bool
  pages : Except Errno Unit

/-- A file for the user: what `get_unused_fd_flags` and `anon_inode_getfile` return, and whether the
descriptor can be copied out. -/
structure ExtOutbuf where
  fd : Except Errno Unit
  file : Except Errno Unit
  copied : Bool

/-- The part of `ntrdma_create_qp` that makes a file; there is none if the user left no room for
it. -/
def qpUserOut : Option ExtOutbuf → Except Errno Unit
  | none => .ok ()
  | some out =>
    match out.fd with
    | .error e => .error e
    | .ok () =>
      match out.file with
      | .error e => .error e
      | .ok () => if !out.copied then .error .efault else .ok ()

/-- The part of `ntrdma_create_qp` that follows `ntrdma_res_add`. -/
def qpUser (inbuf : Option ExtInbuf) (outbuf : Option ExtOutbuf) : Except Errno Unit :=
  match inbuf with
  | none => qpUserOut outbuf
  | some inp =>
    if !inp.copied then .error .efault
    else if !inp.goodDesc then .ok ()
    else if !inp.pagePtr then .error .einval
    else
      match inp.pages with
      | .error e => .error e
      | .ok () => qpUserOut outbuf

/-- A call of `ntrdma_create_qp`, and what the kernel, the peer and the user answer. -/
structure CreateQpCall where
  qp : Nat
  pdKey : UInt32
  cap : IbQpCap
  qpNum : Nat
  slab : Bool
  reserveAlloc : Bool
  bufs : Except Errno RemoteBufDesc
  add : ResAddEnv
  inbuf : Option ExtInbuf
  outbuf : Option ExtOutbuf
  disposeAlloc : Bool

/-- What `ERR_PTR` carries: an error number, or what `ntrdma_res_add` returned. -/
inductive CreateQpErr where
  | errno (e : Errno)
  | add (rc : Int)

structure CreateQpDone where
  rc : Except CreateQpErr Unit
  key : Option Nat
  table : ResTable

/-- The checks of `ntrdma_create_qp` before the queue pair is initialized. -/
def createQpChecks (call : CreateQpCall) : Except Errno Unit :=
  if call.qpNum ≥ devMaxQp then .error .etoomanyrefs
  else if !call.slab then .error .enomem
  else
    let attr := qpInitAttr call.pdKey call.cap
    if attr.recvWqeCap > devMaxQpWr || attr.sendWqeCap > devMaxQpWr ||
      attr.sendWqeSgCap > devMaxSge ||
        attr.recvWqeSgCap > devMaxSge then .error .etoomanyrefs
    else .ok ()

lemma createQp_checks (call : CreateQpCall) (key : Except Errno UInt32) (sendCqVbell : CqVbell) :
    createQp ⟨call.qpNum, call.slab, key, call.bufs⟩ call.pdKey sendCqVbell call.cap =
      (createQpChecks call).bind fun _ =>
        qpInit ⟨call.qpNum, call.slab, key, call.bufs⟩ sendCqVbell
          (qpInitAttr call.pdKey call.cap) := by
  rw [createQp, createQpChecks]
  dsimp only
  split
  · rfl
  split
  · rfl
  split
  · rfl
  · rfl

def qpDeinit (t : ResTable) (key : Nat) (alloc : Bool) : Option ResTable :=
  (t.vec.disposeKey key alloc).map fun vec => { t with vec }

/-- C `ntrdma_create_qp`. A queue pair that could not reserve a key has the key zero. -/
def createQpAll (t : ResTable) (call : CreateQpCall) : Option CreateQpDone :=
  match createQpChecks call with
  | .error e => some ⟨.error (.errno e), none, t⟩
  | .ok () =>
    match t.vec.reserveKey call.reserveAlloc with
    | (.error e, vec) =>
      (qpDeinit { t with vec } 0 call.disposeAlloc).map fun t => ⟨.error (.errno e), none, t⟩
    | (.ok key, vec) =>
      match call.bufs with
      | .error e =>
        (qpDeinit { t with vec } key call.disposeAlloc).map fun t =>
          ⟨.error (.errno e), some key, t⟩
      | .ok _ =>
        match resAdd { t with vec } call.add call.qp key with
        | none => none
        | some (rc, t) =>
          if rc ≠ 0 then
            (qpDeinit t key call.disposeAlloc).map fun t => ⟨.error (.add rc), some key, t⟩
          else
            match qpUser call.inbuf call.outbuf with
            | .error e =>
              (qpDeinit t key call.disposeAlloc).map fun t => ⟨.error (.errno e), some key, t⟩
            | .ok () => some ⟨.ok (), some key, t⟩

def CreateQpDone.NoTrace (done : CreateQpDone) (qp : Nat) : Prop :=
  ∀ e, done.rc = .error e → qp ∉ done.table.list ∧
    ∀ key, done.key = some key → done.table.vec.resLook key = none ∧ done.table.vec.keys key = false

/-- Where a creation fails, the copies to dispose of the key and to clear the entry can be
allocated, as far as they are needed; and it does not fail later. -/
structure ResTable.CleansUp (t : ResTable) (call : CreateQpCall) (key : Nat) : Prop where
  init : ∀ e, call.bufs = .error e → t.vec.resLook key = none ∧ call.disposeAlloc = true
  add : ∀ buf, call.bufs = .ok buf → call.add.rc ≠ 0 → call.disposeAlloc = true ∧
    (call.add.clearAlloc = true ∨ call.add.setAlloc = false ∧ t.vec.resLook key = none)
  user : ∀ buf, call.bufs = .ok buf → call.add.rc = 0 → qpUser call.inbuf call.outbuf = .ok ()

/-! ## What the steps do -/

variable {key : Nat}

lemma Kvec.Wf.reserveKey_ok {vec vec' : Kvec Nat} (h : vec.Wf) {alloc : Bool}
    (hres : vec.reserveKey alloc = (.ok key, vec')) :
    vec'.Wf ∧ vec'.numReservedKeys ≤ key ∧ key < vec'.cap ∧ vec'.keys key = true ∧
      vec'.look = vec.look := by
  have hwf := h.reserveKey alloc
  have hreserves := h.reserves alloc
  rw [hres] at hwf hreserves
  cases hreserves with
  | reserved _ hkey =>
    obtain ⟨hge, -, -⟩ := h.key_free hkey
    have hnext := h.next_lt
    exact ⟨hwf, hge, by dsimp only; omega, Function.update_self _ _ _, rfl⟩

variable {t : ResTable}

lemma qpDeinit_eq (h : t.vec.Wf) (hge : t.vec.numReservedKeys ≤ key) (hlt : key < t.vec.cap)
    (htaken : t.vec.keys key = true) (alloc : Bool) :
    ∃ t', qpDeinit t key alloc = some t' ∧ t'.list = t.list ∧
      t'.vec.resLook key = t.vec.resLook key ∧
      (t'.vec.keys key = false ↔ alloc = true) := by
  rw [qpDeinit, h.disposeKey_lt hge hlt]
  refine ⟨_, rfl, rfl, rfl, ?_⟩
  cases alloc with
  | false =>
    exact iff_of_false (fun hclear => Bool.false_ne_true (hclear.symm.trans htaken))
      Bool.false_ne_true
  | true => exact iff_of_true (Function.update_self _ _ _) rfl

/-- A creation that fails after the deinitialization has left no trace exactly if all was clean
before, and the copy could be allocated. -/
lemma noTrace_deinit (h : t.vec.Wf) (hge : t.vec.numReservedKeys ≤ key) (hlt : key < t.vec.cap)
    (htaken : t.vec.keys key = true) (alloc : Bool) (e : CreateQpErr) (qp : Nat) :
    (∃ done : CreateQpDone, ((qpDeinit t key alloc).map fun t =>
      ⟨.error e, some key, t⟩) = some done ∧
      done.NoTrace qp) ↔ qp ∉ t.list ∧ t.vec.resLook key = none ∧ alloc = true := by
  obtain ⟨t', hdeinit, hlist, hlook, hfree⟩ := qpDeinit_eq h hge hlt htaken alloc
  rw [hdeinit, Option.map_some, ← hlist, ← hlook, ← hfree]
  constructor
  · rintro ⟨_, ⟨⟩, htrace⟩
    obtain ⟨hout, hkey⟩ := htrace e rfl
    exact ⟨hout, hkey key rfl⟩
  · rintro ⟨hout, hclean⟩
    refine ⟨_, rfl, fun _ _ => ⟨hout, fun key' hkey' => ?_⟩⟩
    cases hkey'
    exact hclean

lemma noTrace_keyless {qp : Nat} (hnew : qp ∉ t.list) (e : CreateQpErr) :
    (⟨.error e, none, t⟩ : CreateQpDone).NoTrace qp := by
  intro _ _
  refine ⟨hnew, fun key hkey => ?_⟩
  cases hkey

lemma addLook_none_iff {env : ResAddEnv} (hrc : env.rc ≠ 0) (look : Nat → Option Nat)
    (res key : Nat) :
    env.look look res key key = none ↔ env.clearAlloc = true ∨
      env.setAlloc = false ∧ look key = none := by
  rw [env.look_self, ← Bool.not_eq_true]
  by_cases hclear : env.clearAlloc = true
  · rw [if_pos ⟨hrc, hclear⟩]
    exact iff_of_true rfl (.inl hclear)
  rw [if_neg fun hh => hclear hh.2, or_iff_right hclear]
  by_cases hset : env.setAlloc = true
  · rw [if_pos hset]
    exact iff_of_false (Option.some_ne_none _) fun hh => hh.1 hset
  · rw [if_neg hset, and_iff_right hset]

/-! ## Failed creations -/

section
variable {t : ResTable} {call : CreateQpCall} {key : Nat} {vec : Kvec Nat}

lemma createQpAll_key (hchecks : createQpChecks call = .ok ())
    (hkey : t.vec.reserveKey call.reserveAlloc = (.ok key, vec)) (hwf : t.vec.Wf)
    (hnew : call.qp ∉ t.list) :
    (∃ done, createQpAll t call = some done ∧ done.NoTrace call.qp) ↔ t.CleansUp call key := by
  obtain ⟨hwf', hge, hlt, htaken, hlook⟩ := hwf.reserveKey_ok hkey
  have hentry : vec.resLook key = t.vec.resLook key := by
    rw [hwf'.resLook_eq, hwf.resLook_eq, hlook]
  rw [createQpAll, hchecks]
  dsimp only
  rw [hkey]
  dsimp only
  cases hbufs : call.bufs with
  | error e =>
    dsimp only
    rw [noTrace_deinit (t := ⟨t.list, vec⟩) hwf' hge hlt htaken, and_iff_right hnew, hentry]
    constructor
    · intro hclean
      refine ⟨fun _ _ => hclean, fun _ hok => ?_, fun _ hok => ?_⟩
      · rw [hbufs] at hok
        cases hok
      · rw [hbufs] at hok
        cases hok
    · intro hclean
      exact hclean.init e hbufs
  | ok buf =>
    dsimp only
    rw [resAdd_eq hwf' hlt]
    dsimp only
    have hwf'' := hwf'.addLook hlt call.add call.qp
    by_cases hrc : call.add.rc = 0
    · -- the queue pair is on the list, and stays there
      rw [if_neg (not_not.2 hrc), if_pos hrc]
      cases huser : qpUser call.inbuf call.outbuf with
      | ok =>
        refine iff_of_true ⟨_, rfl, fun e he => ?_⟩
          ⟨fun e he => ?_, fun _ _ hne => absurd hrc hne, fun _ _ _ => huser⟩
        · cases he
        · rw [hbufs] at he
          cases he
      | error =>
        dsimp only
        rw [noTrace_deinit hwf'' hge hlt htaken]
        refine iff_of_false (fun hh => hh.1 (List.mem_append_right _ List.mem_cons_self))
          fun hh => ?_
        have hok := hh.user buf hbufs hrc
        rw [huser] at hok
        cases hok
    · rw [if_pos hrc, if_neg hrc, noTrace_deinit hwf'' hge hlt htaken, hwf''.resLook_eq,
        addLook_none_iff hrc, hlook, ← hwf.resLook_eq]
      have herase : call.qp ∉ (t.list ++ [call.qp]).erase call.qp := by
        rw [List.erase_append_right _ hnew, List.erase_cons_head, List.append_nil]
        exact hnew
      rw [and_iff_right herase]
      constructor
      · intro hclean
        refine ⟨fun e he => ?_, fun _ _ _ => hclean.symm, fun _ _ h0 => absurd h0 hrc⟩
        rw [hbufs] at he
        cases he
      · intro hclean
        exact (hclean.add buf hbufs hrc).symm

end

/-- A creation leaves no trace when it fails, exactly if one that gets a key cleans up after it. -/
theorem createQp_noTrace_iff {t : ResTable} (hwf : t.vec.Wf)
    (hpermanent : 0 < t.vec.numReservedKeys) {call : CreateQpCall} (hnew : call.qp ∉ t.list) :
    (∃ done, createQpAll t call = some done ∧ done.NoTrace call.qp) ↔
      (createQpChecks call = .ok () →
        ∀ key, (t.vec.reserveKey call.reserveAlloc).1 = .ok key → t.CleansUp call key) := by
  cases hchecks : createQpChecks call with
  | error e =>
    refine iff_of_true ⟨⟨.error (.errno e), none, t⟩, ?_, noTrace_keyless hnew _⟩ fun hok => ?_
    · rw [createQpAll, hchecks]
    · cases hok
  | ok =>
    rcases hres : t.vec.reserveKey call.reserveAlloc with ⟨rc, vec⟩
    cases rc with
    | ok key =>
      rw [createQpAll_key hchecks hres hwf hnew]
      constructor
      · rintro hclean - _ ⟨⟩
        exact hclean
      · intro hclean
        exact hclean rfl key rfl
    | error =>
      have hreserves := hwf.reserves call.reserveAlloc
      rw [hres] at hreserves
      cases hreserves
      refine iff_of_true ⟨⟨.error (.errno .enomem), none, t⟩, ?_, noTrace_keyless hnew _⟩
        fun _ key hkey => ?_
      · rw [createQpAll, hchecks]
        dsimp only
        rw [hres]
        dsimp only
        rw [qpDeinit, Kvec.disposeKey, if_pos hpermanent]
        rfl
      · cases hkey

/-- The list and the vector of queue pairs as `ntrdma_dev_res_init` sets them up. -/
def noQps : ResTable := ⟨[], ⟨512, 2, 2, fun i => i < 2, fun _ => none⟩⟩

def pageCall (status : Int) (pagePtr : Bool) : CreateQpCall where
  qp := 0
  pdKey := 0
  cap := ⟨16, 16, 1, 1, 0⟩
  qpNum := 1
  slab := true
  reserveAlloc := true
  bufs := .ok ⟨0, 0⟩
  add := ⟨true, 0, 0, 0, status, true⟩
  inbuf := some ⟨true, true, pagePtr, .ok ()⟩
  outbuf := none
  disposeAlloc := true

theorem createQp_noTrace_refused :
    kvecInit 512 2 true = .ok noQps.vec ∧
      ((createQpAll noQps (pageCall (-22) true)).map fun done => (done.key, done.table.list)) =
        some (some 2, []) ∧
      ∃ done, createQpAll noQps (pageCall (-22) true) = some done ∧ done.NoTrace 0 := by
  have hinit : kvecInit 512 2 true = .ok noQps.vec := rfl
  refine ⟨hinit, rfl,
    (createQp_noTrace_iff (kvecInit_wf hinit) (by decide) List.not_mem_nil).2 fun _ key _ =>
    ⟨fun e he => ?_, fun _ _ _ => ⟨rfl, .inl rfl⟩, fun _ _ hrc => ?_⟩⟩
  · cases he
  · exact absurd hrc (by decide)

/-- A queue pair whose user passes no page pointer stays on the list and is found under its key,
which is free. -/
theorem createQp_leaves_qp :
    kvecInit 512 2 true = .ok noQps.vec ∧
      ((createQpAll noQps (pageCall 0 false)).map fun done =>
        (done.key, done.table.list, done.table.vec.resLook 2, done.table.vec.keys 2)) =
          some (some 2, [0], some 0, false) ∧
      ∃ done, createQpAll noQps (pageCall 0 false) = some done ∧ done.rc = .error (.errno .einval) ∧
        ¬ done.NoTrace 0 := by
  refine ⟨rfl, by decide +kernel, _, rfl, rfl, fun htrace => ?_⟩
  exact (htrace _ rfl).1 List.mem_cons_self

end Ntrdma
