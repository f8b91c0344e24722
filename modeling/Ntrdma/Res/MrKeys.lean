import Ntrdma.Cmd.MrCreate
import Ntrdma.Res.Exhaust

/-!
# The keys of memory regions

A region gets its key from the vector `dev->res.mr_vec`, which `ntrdma_dev_res_init` sets up with
512 keys, none of them permanent. `NTRDMA_RESERVED_DMA_LEKY` is a number that the vector can hand
out: the data path takes it for "no region, the address is a DMA address".

The system here is the host's regions: a registration (`ntrdma_reg_user_mr` with `ntrdma_mr_init`
and `ntrdma_res_add`), the removal of a region from the lookup (`ntrdma_res_del`) and the release of
its key with the last reference (`mr_release`). A registration that fails in `ntrdma_res_add` is one
that is removed and released at once.
-/

namespace Ntrdma
open Lib

/-- The vector of keys, the counter `mr_num`, and the keys of the regions that are not released. -/
structure MrSys where
  vec : Kvec MrObj
  mrNum : Nat
  alive : Finset Nat

/-- The arguments of `ntrdma_reg_user_mr`, with what the kernel answers meanwhile. -/
structure RegMr where
  env : RegMrEnv
  pdKey : UInt32
  start : UInt64
  length : UInt64
  virtAddr : UInt64
  access : UInt32

def MrSys.regMr (s : MrSys) (reg : RegMr) (alloc : Bool) : Except Errno MrObj :=
  regUserMr
    { reg.env with
      mrNum := s.mrNum + 1
      key := (s.vec.reserveKey alloc).1.map Nat.toUInt32 }
    reg.pdKey reg.start reg.length reg.virtAddr reg.access

inductive MrKeyAct
  | reg (reg : RegMr) (alloc setAlloc : Bool)
  | del (key : Nat) (alloc : Bool)
  | release (key : Nat) (alloc : Bool)

def MrSys.apply (s : MrSys) : MrKeyAct → Option MrSys
  | .reg reg alloc setAlloc =>
    match s.regMr reg alloc with
    | .error _ => some s
    | .ok mr =>
      ((s.vec.reserveKey alloc).2.setKey mr.key.toNat (some mr) setAlloc).map fun vec =>
        ⟨vec, s.mrNum + 1, insert mr.key.toNat s.alive⟩
  | .del key alloc =>
    if key ∈ s.alive then (s.vec.setKey key none alloc).map fun vec => { s with vec } else none
  | .release key alloc =>
    if key ∈ s.alive then
      (s.vec.disposeKey key alloc).map fun vec => ⟨vec, s.mrNum - 1, s.alive.erase key⟩
    else none

def MrSys.Step (s : MrSys) (act : MrKeyAct) (t : MrSys) : Prop := s.apply act = some t

/-! ## What holds in every history -/

/-- The vector is well formed, has no permanent keys and one of the capacities from 512 on. -/
structure MrSys.Inv (s : MrSys) : Prop where
  wf : s.vec.Wf
  cap : s.vec.cap ∈ kvecCapacities 512

lemma MrSys.Inv.step {s t : MrSys} {act : MrKeyAct} (h : s.Inv) (hstep : s.Step act t) : t.Inv := by
  obtain ⟨hwf, hcap⟩ := h
  cases act with
  | reg _ alloc =>
    simp only [Step, apply] at hstep
    split at hstep
    · cases hstep
      exact ⟨hwf, hcap⟩
    · obtain ⟨vec, hset, rfl⟩ := Option.map_eq_some_iff.mp hstep
      have hwf' := hwf.reserveKey alloc
      refine ⟨hwf'.setKey hset, ?_⟩
      rw [hwf'.setKey_cap hset]
      exact hwf.reserveKey_cap alloc hcap
  | del =>
    simp only [Step, apply] at hstep
    split at hstep
    · obtain ⟨vec, hset, rfl⟩ := Option.map_eq_some_iff.mp hstep
      exact ⟨hwf.setKey hset, by rw [hwf.setKey_cap hset]; exact hcap⟩
    · cases hstep
  | release =>
    simp only [Step, apply] at hstep
    split at hstep
    · obtain ⟨vec, hdispose, rfl⟩ := Option.map_eq_some_iff.mp hstep
      exact ⟨hwf.disposeKey hdispose, by rw [hwf.disposeKey_cap hdispose]; exact hcap⟩
    · cases hstep

variable {s : MrSys}

lemma MrSys.inv_of_reaches {vec : Kvec MrObj} (hinit : kvecInit 512 0 true = .ok vec)
    (hrun : Reaches Step ⟨vec, 0, ∅⟩ s) : s.Inv :=
  hrun.invariant (I := Inv) ⟨kvecInit_wf hinit, kvecInit_cap hinit⟩
    fun _ _ _ h hstep => h.step hstep

/-- The vector has room for `NTRDMA_RESERVED_DMA_LEKY`, its bit is clear and not below the cursor,
and every bit between the cursor and it is set. -/
structure MrSys.ReservedNext (s : MrSys) : Prop where
  lt : reservedDmaLkey.toNat < s.vec.cap
  next_le : s.vec.nextKey ≤ reservedDmaLkey.toNat
  free : s.vec.keys reservedDmaLkey.toNat = false
  taken : ∀ key, s.vec.nextKey ≤ key → key < reservedDmaLkey.toNat → s.vec.keys key = true

lemma reserved_notMem_kvecCapacities : reservedDmaLkey.toNat ∉ kvecCapacities 512 := by
  rintro ⟨n, heq, -⟩
  have hodd : reservedDmaLkey.toNat % 2 = 1 := rfl
  omega

def byteReg : RegMr where
  env := ⟨0, some ⟨0x1000, 1⟩, .error .einval, true, fun _ => ⟨0, 0⟩, .error .einval⟩
  pdKey := 0
  start := 0
  length := 1
  virtAddr := 0
  access := 0

variable {key : Nat}

lemma byteReg_ok (hnum : s.mrNum + 1 < devMaxMr) (hkey : (s.vec.reserveKey true).1 = .ok key) :
    ∃ mr, s.regMr byteReg true = .ok mr ∧ mr.key = key.toUInt32 := by
  simp only [MrSys.regMr, hkey, regUserMr]
  rw [if_neg (by decide), if_neg (by omega), if_neg (by decide)]
  exact ⟨_, rfl, rfl⟩

/-- The key of a new region is the reserved one exactly if the cursor has come to it: the vector is
larger, it is free, and every key from the cursor up to it is taken. -/
theorem mrKey_reserved_iff {vec : Kvec MrObj} {s : MrSys} (hinit : kvecInit 512 0 true = .ok vec)
    (hrun : Reaches MrSys.Step ⟨vec, 0, ∅⟩ s) (reg : RegMr) (alloc : Bool) {mr : MrObj}
    (hreg : s.regMr reg alloc = .ok mr) : mr.key ≠ reservedDmaLkey ↔ ¬ s.ReservedNext := by
  obtain ⟨hwf, hcap⟩ := MrSys.inv_of_reaches hinit hrun
  obtain ⟨-, _, _, key, -, -, hkey, rfl⟩ := regUserMr_ok hreg
  rw [not_iff_not]
  have hmax := hwf.lt_max
  have hres := hwf.reserves alloc
  dsimp only at hkey ⊢
  generalize s.vec.reserveKey alloc = res at hres hkey
  cases hres with
  | failed => cases hkey
  | @reserved _ k _ hnext =>
    cases hkey
    have hle : k ≤ s.vec.cap := hnext ▸ nextZero_le
    have hnat : k.toUInt32.toNat = k := by
      rw [Nat.toUInt32_eq, UInt32.toNat_ofNat', Nat.mod_eq_of_lt]
      have : maxKvecCap = 2 ^ 23 := rfl
      omega
    rw [← UInt32.toNat_inj, hnat]
    constructor
    · rintro rfl
      -- the key is not the capacity, so it is one of the bits that the search looked at
      have hlt : reservedDmaLkey.toNat < s.vec.cap :=
        lt_of_le_of_ne hle fun heq => reserved_notMem_kvecCapacities (heq ▸ hcap)
      refine ⟨hlt, hnext ▸ le_nextZero hwf.next_lt.le, (hwf.key_free hnext).2.2, ?_⟩
      intro key hge hkey
      exact nextZero_set hge (hnext.symm ▸ hkey)
    · rintro ⟨hlt, hge, hfree, htaken⟩
      rw [← hnext]
      exact nextZero_eq hge hlt.le htaken (.inr hfree)

/-! ## Regions in step with a vector of keys -/

section
variable {α β : Type}

structure Kvec.SameKeys (v : Kvec α) (w : Kvec β) : Prop where
  cap : v.cap = w.cap
  reserved : v.numReservedKeys = w.numReservedKeys
  next : v.nextKey = w.nextKey
  keys : v.keys = w.keys

lemma Kvec.SameKeys.reserveKey {v : Kvec α} {w : Kvec β} (h : v.SameKeys w) (alloc : Bool) :
    (v.reserveKey alloc).1 = (w.reserveKey alloc).1 ∧
      (v.reserveKey alloc).2.SameKeys (w.reserveKey alloc).2 := by
  cases v
  cases w
  obtain ⟨rfl, rfl, rfl, rfl⟩ := h
  simp only [Kvec.reserveKey, newCopy]
  split_ifs <;> exact ⟨rfl, rfl, rfl, rfl, rfl⟩

end

lemma MrSys.step_del (hwf : s.vec.Wf) (hin : key ∈ s.alive) (hlt : key < s.vec.cap) :
    s.Step (.del key true)
      { s with vec := { s.vec with look := Function.update s.vec.look key none } } := by
  rw [Step, apply, if_pos hin, hwf.setKey_eq hlt]
  rfl

lemma MrSys.step_release (hwf : s.vec.Wf) (hin : key ∈ s.alive) (hge : s.vec.numReservedKeys ≤ key)
    (hlt : key < s.vec.cap) :
    s.Step (.release key true)
      ⟨{ s.vec with keys := Function.update s.vec.keys key false },
        s.mrNum - 1, s.alive.erase key⟩ := by
  rw [Step, apply, if_pos hin, hwf.disposeKey_eq hge hlt]
  rfl

/-- An action after which at most `n` regions are alive. -/
def MrSys.Within (n : Nat) (s : MrSys) (act : MrKeyAct) (t : MrSys) : Prop :=
  s.Step act t ∧ t.alive.card ≤ n

/-- The regions hold the keys that a history of a vector holds, at most `n`. -/
structure MrSys.Follows (n : Nat) (k : KvecSys MrObj) (s : MrSys) : Prop where
  inv : k.Inv 0
  wf : s.vec.Wf
  same : k.vec.SameKeys s.vec
  alive : s.alive = k.held
  num : s.mrNum = k.held.card
  le : k.held.card ≤ n

section
variable {k k' : KvecSys MrObj} {s : MrSys} {n : Nat}

lemma MrSys.Follows.reserve (h : Follows n k s) (hn : n < devMaxMr)
    (hstep : KvecSys.Holding n k .reserve k') :
    ∃ s', Reaches (MrSys.Within n) s s' ∧ Follows n k' s' := by
  obtain ⟨hstep, hcard⟩ := hstep
  have hinv := h.inv.step hstep
  obtain ⟨hkey, hsame⟩ := h.same.reserveKey true
  have hwf := h.wf.reserveKey true
  have hres := h.inv.wf.reserves true
  simp only [KvecSys.Step, KvecSys.apply] at hstep
  generalize k.vec.reserveKey true = res at hres hkey hsame hstep
  cases hres with
  | failed =>
    cases hstep
    exact ⟨s, .refl, h⟩
  | @reserved _ key _ hnext =>
    cases hstep
    have hfree := h.inv.wf.key_free hnext
    have hout : key ∉ k.held := fun hin => by
      rw [(h.inv.keys_iff key).2 (.inr hin)] at hfree
      exact absurd hfree.2.2.symm Bool.false_ne_true
    have hnum := h.num
    rw [Finset.card_insert_of_notMem hout] at hcard
    obtain ⟨mr, hreg, hmr⟩ := byteReg_ok (by omega) hkey.symm
    have hlt : key < (s.vec.reserveKey true).2.cap := by
      have := h.inv.wf.next_lt
      rw [← hsame.cap]
      dsimp only
      omega
    have hnat : mr.key.toNat = key := by
      have hmax := hwf.lt_max
      have : maxKvecCap = 2 ^ 23 := rfl
      rw [hmr, Nat.toUInt32_eq, UInt32.toNat_ofNat', Nat.mod_eq_of_lt (by omega)]
    have hset := hwf.setKey_eq hlt (some mr)
    refine ⟨⟨_, s.mrNum + 1, insert key s.alive⟩,
      .snoc .refl (a := .reg byteReg true true) ⟨?_, ?_⟩, hinv, hwf.setKey hset, ?_, ?_, ?_, ?_⟩
    · simp only [Step, apply, hreg]
      rw [hnat, hset]
      rfl
    · dsimp only
      rwa [h.alive, Finset.card_insert_of_notMem hout]
    · exact ⟨hsame.cap, hsame.reserved, hsame.next, hsame.keys⟩
    · dsimp only
      rw [h.alive]
    · dsimp only
      rw [Finset.card_insert_of_notMem hout, hnum]
    · dsimp only
      rwa [Finset.card_insert_of_notMem hout]

lemma MrSys.Follows.dispose {key : Nat} (h : Follows n k s)
    (hstep : KvecSys.Holding n k (.dispose key) k') :
    ∃ s', Reaches (MrSys.Within n) s s' ∧ Follows n k' s' := by
  obtain ⟨hstep, hcard⟩ := hstep
  have hinv := h.inv.step hstep
  have halive := h.alive
  have hreserved := h.inv.reserved
  cases KvecSys.moves_of_step h.inv.wf hstep with
  | permanent => omega
  | dispose hkey =>
    by_cases hin : key ∈ k.held
    · have hlt : key < s.vec.cap := by
        by_contra hge
        have hclear := h.wf.keys_clear key (by omega)
        rw [← h.same.keys, (h.inv.keys_iff key).2 (.inr hin)] at hclear
        cases hclear
      have hin' : key ∈ s.alive := halive ▸ hin
      have hge : s.vec.numReservedKeys ≤ key := h.same.reserved ▸ hkey
      have hwf := h.wf.store hlt none
      have hdel := step_del h.wf hin' hlt
      have hrelease := step_release
        (s := { s with vec := { s.vec with look := Function.update s.vec.look key none } }) hwf
          hin' hge hlt
      refine ⟨_, .snoc (.snoc .refl ⟨hdel, ?_⟩) ⟨hrelease, ?_⟩, hinv,
        hwf.clear hge, ?_, ?_, ?_, hcard⟩
      · dsimp only
        rw [halive]
        exact h.le
      · dsimp only
        rwa [halive]
      · exact ⟨h.same.cap, h.same.reserved, h.same.next, by dsimp only; rw [h.same.keys]⟩
      · dsimp only
        rw [halive]
      · dsimp only
        rw [Finset.card_erase_of_mem hin, h.num]
    · -- the key is free: neither its bit nor the held keys change
      have hclear : k.vec.keys key = false := by
        rw [← Bool.not_eq_true, h.inv.keys_iff]
        simp only [Nat.not_lt_zero, hin, or_self, not_false_eq_true]
      have hkeys : Function.update k.vec.keys key false = k.vec.keys := by
        rw [← hclear, Function.update_eq_self]
      rw [hkeys, Finset.erase_eq_of_notMem hin] at hinv ⊢
      exact ⟨s, .refl, hinv, h.wf, h.same, halive, h.num, h.le⟩

lemma MrSys.Follows.step {op : KvecOp MrObj} (h : Follows n k s) (hn : n < devMaxMr)
    (hstep : KvecSys.Holding n k op k') : ∃ s',
      Reaches (MrSys.Within n) s s' ∧ Follows n k' s' := by
  cases op with
  | reserve => exact h.reserve hn hstep
  | dispose => exact h.dispose hstep
  | set =>
    have hinv := h.inv.step hstep.1
    cases KvecSys.moves_of_step h.inv.wf hstep.1 with
    | set =>
      exact ⟨s, .refl, hinv, h.wf, ⟨h.same.cap, h.same.reserved, h.same.next, h.same.keys⟩, h.alive,
        h.num, h.le⟩

/-- A history of a vector that holds at most two keys is one of registrations and removals. -/
lemma MrSys.exists_follows (hrun : Reaches (KvecSys.Holding 2) (heldVec MrObj 512 0 ∅) k) :
    ∃ s, Reaches (MrSys.Within 2) ⟨(heldVec MrObj 512 0 ∅).vec, 0, ∅⟩ s ∧ Follows 2 k s := by
  have hinit := heldVec_init MrObj
  have hstart : Follows 2 (heldVec MrObj 512 0 ∅) ⟨(heldVec MrObj 512 0 ∅).vec, 0, ∅⟩ :=
    ⟨KvecSys.inv_of_reaches hinit .refl, kvecInit_wf hinit,
      ⟨rfl, rfl, rfl, rfl⟩, rfl, rfl, Nat.zero_le 2⟩
  exact hrun.simulate hstart fun _ _ _ _ h hstep => h.step (by decide) hstep

end

/-- With two regions alive at most at any time, a registration gets the reserved key. -/
theorem mrKey_reserved :
    ∃ vec : Kvec MrObj, kvecInit 512 0 true = .ok vec ∧
      ∃ s, Reaches (MrSys.Within 2) ⟨vec, 0, ∅⟩ s ∧ s.alive = ∅ ∧
        ∃ mr, s.regMr byteReg true = .ok mr ∧ mr.key = reservedDmaLkey := by
  have hmax : 2 * (512 * 2 ^ 6) < maxKvecCap := by decide
  have hchurn := (heldVec_churn MrObj 6 (by decide)).trans (heldVec_grow MrObj (by decide) hmax)
  obtain ⟨s, hrun, hfollows⟩ := MrSys.exists_follows hchurn
  refine ⟨_, heldVec_init MrObj, s, hrun, hfollows.alive, ?_⟩
  have hkey := (hfollows.same.reserveKey true).1
  rw [heldVec_reserveKey MrObj hmax (by decide) none_held le_rfl
    (fun i hi hlt => absurd hlt hi.not_gt)
    (Finset.notMem_empty _) (.inl ⟨by decide, rfl⟩)] at hkey
  obtain ⟨mr, hreg, hmr⟩ := byteReg_ok (by rw [hfollows.num]; decide) hkey.symm
  exact ⟨mr, hreg, hmr⟩

/-- After a history that left a larger table with one region, the cursor is back at the first
key. -/
theorem mrKey_churned : ∃ s mr, Reaches MrSys.Step ⟨(heldVec MrObj 512 0 ∅).vec, 0, ∅⟩ s ∧
    s.vec.cap = 512 * 2 ^ 7 ∧ s.alive = { 512 * 2 ^ 7 - 1 } ∧ s.regMr byteReg true = .ok mr ∧
    mr.key ≠ reservedDmaLkey := by
  have hmax : 512 * 2 ^ 7 < maxKvecCap := by decide
  obtain ⟨s, hrun, hfollows⟩ := MrSys.exists_follows (heldVec_churn MrObj 7 hmax)
  have hfree : s.vec.keys 0 = false := hfollows.same.keys ▸ rfl
  have hkey := (hfollows.same.reserveKey true).1
  rw [heldVec_reserveKey MrObj hmax (by decide) (last_held (by decide)) (Nat.zero_le 0)
    (fun i _ hlt => absurd hlt (Nat.not_lt_zero i)) (by decide) (.inl ⟨by decide, rfl⟩)] at hkey
  obtain ⟨mr, hreg, -⟩ := byteReg_ok (by rw [hfollows.num]; decide) hkey.symm
  have hnext : ¬ s.ReservedNext := by
    rintro ⟨-, -, -, htaken⟩
    have htaken0 := htaken 0 (hfollows.same.next ▸ Nat.le_refl 0) (by decide)
    exact Bool.false_ne_true (hfree.symm.trans htaken0)
  have hrun' := hrun.mono fun _ _ _ hstep => hstep.1
  have hne := (mrKey_reserved_iff (heldVec_init MrObj) hrun' byteReg true hreg).2 hnext
  exact ⟨s, mr, hrun', hfollows.same.cap.symm, hfollows.alive, hreg, hne⟩

end Ntrdma
