import Mathlib.Order.Bounds.Basic
import Ntrdma.Res.Kvec

/-!
# Running out of keys

A reservation searches from the cursor to the end of the table and doubles the table if it finds
nothing; it does not go back to the keys below the cursor. It fails when the table cannot double any
more, which leaves the keys below the cursor unused.

`reserve_exhausts_iff` says in which states a failure means that the keys are used up. A history
that holds two keys at most reaches a state in which it does not: one key at the end of the table is
kept while the cursor is led up to it by reserving and disposing of the others one by one
(`heldVec_churn`).
-/

namespace Ntrdma
open Lib

section
variable {α : Type}

def kvecCapacities (cap : Nat) : Set Nat := { c | ∃ n, c = cap * 2 ^ n ∧ c < maxKvecCap }

lemma double_mem_kvecCapacities {cap c : Nat} (h : c ∈ kvecCapacities cap)
    (hmax : 2 * c < maxKvecCap) : 2 * c ∈ kvecCapacities cap := by
  obtain ⟨n, rfl, -⟩ := h
  exact ⟨n + 1, by ring, hmax⟩

variable {vec : Kvec α} {cap : Nat}

lemma Kvec.Wf.reserveKey_cap (h : vec.Wf) (alloc : Bool) (hcap : vec.cap ∈ kvecCapacities cap) :
    (vec.reserveKey alloc).2.cap ∈ kvecCapacities cap := by
  have hres := h.reserves alloc
  generalize vec.reserveKey alloc = res at hres
  cases hres with
  | failed => exact hcap
  | reserved _ _ hgrow =>
    obtain ⟨-, rfl⟩ | ⟨-, rfl, hmax⟩ := hgrow
    · exact hcap
    · exact double_mem_kvecCapacities hcap hmax

variable {alloc : Bool}

lemma kvecInit_cap {cap numReservedKeys : Nat}
    (hinit : kvecInit cap numReservedKeys alloc = .ok vec) : vec.cap ∈ kvecCapacities cap := by
  obtain ⟨-, hmax, rfl⟩ := kvecInit_ok hinit
  exact ⟨0, by rw [pow_zero, mul_one], hmax⟩

lemma KvecSys.cap_of_step {s t : KvecSys α} {op : KvecOp α} (hwf : s.vec.Wf)
    (hcap : s.vec.cap ∈ kvecCapacities cap) (hstep : s.Step op t) :
    t.vec.cap ∈ kvecCapacities cap := by
  cases moves_of_step hwf hstep with
  | reserve _ hgrow =>
    obtain ⟨-, rfl⟩ | ⟨-, rfl, hmax⟩ := hgrow
    · exact hcap
    · exact double_mem_kvecCapacities hcap hmax
  | _ => exact hcap

variable {s : KvecSys α}

lemma KvecSys.cap_of_reaches {cap numReservedKeys : Nat}
    (hinit : kvecInit cap numReservedKeys alloc = .ok vec) (hrun : Reaches Step ⟨vec, ∅⟩ s) :
    s.vec.cap ∈ kvecCapacities cap := by
  suffices h : s.Inv numReservedKeys ∧ s.vec.cap ∈ kvecCapacities cap from h.2
  refine hrun.invariant (I := fun s => s.Inv numReservedKeys ∧ s.vec.cap ∈ kvecCapacities cap) ?_ ?_
  · exact ⟨inv_of_reaches hinit .refl, kvecInit_cap hinit⟩
  · rintro s op t ⟨h, hcap⟩ hstep
    exact ⟨h.step hstep, cap_of_step h.wf hcap hstep⟩

lemma largest_of_max {cap c top : Nat} (hc : c ∈ kvecCapacities cap)
    (htop : IsGreatest (kvecCapacities cap) top) (hmax : maxKvecCap ≤ 2 * c) : top = c := by
  have hle := htop.2 hc
  obtain ⟨n, rfl, -⟩ := hc
  obtain ⟨m, rfl, hlt⟩ := htop.1
  rcases Nat.lt_or_ge n m with hnm | hnm
  · -- a larger power is at least twice as large
    have hpow : 2 ^ (n + 1) ≤ 2 ^ m := Nat.pow_le_pow_right (by decide) hnm
    have hmul := Nat.mul_le_mul_left cap hpow
    have htwice : cap * 2 ^ (n + 1) = 2 * (cap * 2 ^ n) := by ring
    omega
  · exact le_antisymm (Nat.mul_le_mul_left cap (Nat.pow_le_pow_right (by decide) hnm)) hle

/-! ## When a reservation fails -/

def KvecSys.Taken (s : KvecSys α) (key : Nat) : Prop := key < s.vec.numReservedKeys ∨ key ∈ s.held

/-- The table cannot double, every key from the cursor on is taken, and one below it is free. -/
structure KvecSys.Stuck (s : KvecSys α) : Prop where
  full : maxKvecCap ≤ 2 * s.vec.cap
  above : ∀ key, s.vec.nextKey ≤ key → key < s.vec.cap → s.Taken key
  below : ∃ key, key < s.vec.nextKey ∧ ¬ s.Taken key

lemma KvecSys.Inv.keys_eq_true {numReservedKeys : Nat} (h : s.Inv numReservedKeys) (key : Nat) :
    s.vec.keys key = true ↔ s.Taken key := by
  rw [Taken, h.reserved]
  exact h.keys_iff key

lemma KvecSys.Inv.reserve_error_iff {numReservedKeys : Nat} (h : s.Inv numReservedKeys) :
    (∃ e, (s.vec.reserveKey true).1 = .error e) ↔
      maxKvecCap ≤ 2 * s.vec.cap ∧ ∀ key, s.vec.nextKey ≤ key → key < s.vec.cap → s.Taken key := by
  have hnone : nextZero s.vec.keys s.vec.cap s.vec.nextKey = s.vec.cap ↔ _ :=
    nextZero_eq_size_iff h.wf.next_lt.le
  simp only [h.keys_eq_true] at hnone
  rw [← hnone]
  have hres := h.wf.reserves true
  generalize s.vec.reserveKey true = res at hres
  cases hres with
  | failed hfail =>
    obtain hfalse | ⟨heq, hmax⟩ := hfail
    · cases hfalse
    · exact ⟨fun _ => ⟨hmax, heq⟩, fun _ => ⟨_, rfl⟩⟩
  | reserved =>
    constructor
    · rintro ⟨e, he⟩
      cases he
    · rintro ⟨hmax, heq⟩
      omega

/-- A failed reservation means that no key is free exactly in the states that are not stuck; there,
it succeeds while fewer keys are held than there are. -/
theorem reserve_exhausts_iff {cap numReservedKeys top : Nat} {vec : Kvec α} {s : KvecSys α}
    (hinit : kvecInit cap numReservedKeys true = .ok vec) (hrun : Reaches KvecSys.Step ⟨vec, ∅⟩ s)
    (htop : IsGreatest (kvecCapacities cap) top) :
    (((∃ e, (s.vec.reserveKey true).1 = .error e) → ∀ key, key < top → s.Taken key) ↔ ¬ s.Stuck) ∧
    (¬ s.Stuck → s.held.card < top - numReservedKeys → ∃ key,
      (s.vec.reserveKey true).1 = .ok key) := by
  have hinv := KvecSys.inv_of_reaches hinit hrun
  have hcap := KvecSys.cap_of_reaches hinit hrun
  have hnext := hinv.wf.next_lt
  have hiff : ((∃ e, (s.vec.reserveKey true).1 = .error e) → ∀ key, key < top → s.Taken key) ↔
      ¬ s.Stuck := by
    rw [hinv.reserve_error_iff]
    constructor
    · rintro hclaim ⟨hfull, habove, key, hlt, hfree⟩
      rw [largest_of_max hcap htop hfull] at hclaim
      exact hfree (hclaim ⟨hfull, habove⟩ key (by omega))
    · rintro hstuck ⟨hfull, habove⟩ key hlt
      rw [largest_of_max hcap htop hfull] at hlt
      rcases Nat.lt_or_ge key s.vec.nextKey with hbelow | hge
      · by_contra hfree
        exact hstuck ⟨hfull, habove, key, hbelow, hfree⟩
      · exact habove key hge hlt
  refine ⟨hiff, fun hstuck hcard => ?_⟩
  cases hres : (s.vec.reserveKey true).1 with
  | ok key => exact ⟨key, rfl⟩
  | error e =>
    -- every key below `top` is taken, so at least `top - numReservedKeys` keys are held
    have hall := hiff.2 hstuck ⟨e, hres⟩
    have hsub : Finset.Ico numReservedKeys top ⊆ s.held := by
      intro key hkey
      rw [Finset.mem_Ico] at hkey
      obtain hpermanent | hheld := hall key hkey.2
      · rw [hinv.reserved] at hpermanent
        omega
      · exact hheld
    have hle := Finset.card_le_card hsub
    rw [Nat.card_Ico] at hle
    omega

/-! ## Leading the cursor to a key that is kept -/

/-- An operation after which at most `n` keys are held. -/
def KvecSys.Holding (n : Nat) (s : KvecSys α) (op : KvecOp α) (t : KvecSys α) : Prop :=
  s.Step op t ∧ t.held.card ≤ n

variable (α)

def heldVec (cap next : Nat) (held : Finset Nat) : KvecSys α :=
  ⟨⟨cap, 0, next, fun key => key ∈ held, fun _ => none⟩, held⟩

lemma heldVec_wf {cap next : Nat} {held : Finset Nat} (hmax : cap < maxKvecCap) (hnext : next < cap)
    (hheld : ∀ key ∈ held, key < cap) : (heldVec α cap next held).vec.Wf := by
  refine ⟨hmax, Nat.zero_le _, hnext, fun i hi => absurd hi (Nat.not_lt_zero i), ?_, fun _ _ => rfl⟩
  intro i hi
  refine decide_eq_false fun hin => ?_
  have := hheld i hin
  simp only [heldVec] at hi
  omega

lemma heldVec_insert (cap next key : Nat) (held : Finset Nat) :
    (⟨cap, 0, next, Function.update (fun key => key ∈ held) key true, fun _ => none⟩ : Kvec α) =
      (heldVec α cap next (insert key held)).vec := by
  rw [heldVec]
  congr 1
  funext i
  rw [Function.update_apply]
  split
  next heq => exact (decide_eq_true (heq ▸ Finset.mem_insert_self i held)).symm
  next hne => simp only [Finset.mem_insert, hne, false_or]

lemma heldVec_erase (cap next key : Nat) (held : Finset Nat) :
    (⟨⟨cap, 0, next, Function.update (fun key => key ∈ held) key false,
      fun _ => none⟩, held.erase key⟩ :
      KvecSys α) = heldVec α cap next (held.erase key) := by
  rw [heldVec]
  congr 2
  funext i
  rw [Function.update_apply]
  split
  next heq => exact (decide_eq_false (heq ▸ Finset.notMem_erase i held)).symm
  next hne => simp only [Finset.mem_erase, ne_eq, hne, not_false_eq_true, true_and]

section
variable {cap next n : Nat} {held : Finset Nat} (hmax : cap < maxKvecCap) (hnext : next < cap)
  (hheld : ∀ key ∈ held, key < cap)

include hmax hnext hheld

variable {cap' key : Nat}

lemma heldVec_reserveKey (hge : next ≤ key) (htaken : ∀ i, next ≤ i → i < key → i ∈ held)
    (hfree : key ∉ held)
    (hcap : key < cap ∧ cap' = cap ∨ key = cap ∧ cap' = 2 * cap ∧ cap' < maxKvecCap) :
    (heldVec α cap next held).vec.reserveKey true =
      (.ok key, (heldVec α cap' (if key + 1 = cap' then 0 else key + 1)
        (insert key held)).vec) := by
  have hkey : nextZero (heldVec α cap next held).vec.keys cap next = key := by
    refine nextZero_eq hge (by omega) (fun i hi hlt => decide_eq_true (htaken i hi hlt)) ?_
    exact .inr (decide_eq_false hfree)
  have hres := (heldVec_wf α hmax hnext hheld).reserves true
  generalize (heldVec α cap next held).vec.reserveKey true = res at hres
  cases hres with
  | failed hfail =>
    obtain hfalse | ⟨heq, hfull⟩ := hfail
    · cases hfalse
    · simp only [heldVec] at heq hfull hkey
      omega
  | @reserved cap'' key' _ hkey' hcap'' =>
    simp only [heldVec] at hkey hkey' hcap''
    obtain rfl : key' = key := hkey'.symm.trans hkey
    obtain rfl : cap'' = cap' := by omega
    rw [← heldVec_insert]
    rfl

lemma heldVec_reserve (hge : next ≤ key) (htaken : ∀ i, next ≤ i → i < key → i ∈ held)
    (hfree : key ∉ held)
    (hcap : key < cap ∧ cap' = cap ∨ key = cap ∧ cap' = 2 * cap ∧ cap' < maxKvecCap) :
    (heldVec α cap next held).Step .reserve
      (heldVec α cap' (if key + 1 = cap' then 0 else key + 1) (insert key held)) := by
  rw [KvecSys.Step, KvecSys.apply, heldVec_reserveKey α hmax hnext hheld hge htaken hfree hcap]
  rfl

lemma heldVec_dispose {key : Nat} (hlt : key < cap) :
    (heldVec α cap next held).Step (.dispose key) (heldVec α cap next (held.erase key)) := by
  have hwf := heldVec_wf α hmax hnext hheld
  rw [KvecSys.Step, KvecSys.apply, hwf.disposeKey_eq (Nat.zero_le key) hlt, ← heldVec_erase]
  rfl

omit hnext in
lemma heldVec_walk {stop : Nat} (hle : next ≤ stop) (hstop : stop < cap)
    (hfree : ∀ key, next ≤ key → key < stop → key ∉ held) (hcard : held.card + 1 ≤ n) :
    Reaches (KvecSys.Holding n) (heldVec α cap next held) (heldVec α cap stop held) := by
  induction stop, hle using Nat.le_induction with
  | base => exact .refl
  | succ key hge ih =>
    have hrun := ih (by omega) fun i hi hlt => hfree i hi (by omega)
    have hout := hfree key hge (Nat.lt_succ_self key)
    have hinsert := heldVec_reserve α hmax (show key < cap by omega) hheld le_rfl
      (fun i hi hlt => absurd hi (by omega)) hout (.inl ⟨by omega, rfl⟩)
    rw [if_neg (by omega)] at hinsert
    have hlt : ∀ i ∈ insert key held, i < cap := by
      intro i hi
      rcases Finset.mem_insert.mp hi with rfl | hi
      · omega
      · exact hheld i hi
    have hdispose := heldVec_dispose α hmax hstop hlt (show key < cap by omega)
    rw [Finset.erase_insert hout] at hdispose
    refine (hrun.snoc ⟨hinsert, ?_⟩).snoc ⟨hdispose, ?_⟩
    · exact (Finset.card_insert_le key held).trans hcard
    · exact (Nat.le_succ _).trans hcard

end

lemma none_held : ∀ key ∈ (∅ : Finset Nat), key < cap :=
  fun key hkey => absurd hkey (Finset.notMem_empty key)

lemma last_held (hcap : 0 < cap) : ∀ key ∈ ({ cap - 1 } : Finset Nat), key < cap := by
  intro key hkey
  rw [Finset.mem_singleton] at hkey
  omega

/-- From a table whose last key is held to one of twice the capacity, with the cursor at the last
key. -/
lemma heldVec_grow (hcap : 1 < cap) (hmax : 2 * cap < maxKvecCap) :
    Reaches (KvecSys.Holding 2) (heldVec α cap 0 { cap - 1 })
      (heldVec α (2 * cap) (2 * cap - 1) ∅) := by
  have hone := last_held (show 0 < cap by omega)
  have hwalk := heldVec_walk α (n := 2) (show cap < maxKvecCap by omega) hone
    (Nat.zero_le (cap - 1)) (by omega) (fun key _ hlt => by rw [Finset.mem_singleton]; omega) le_rfl
  have hdouble := heldVec_reserve α (show cap < maxKvecCap by omega)
    (show cap - 1 < cap by omega) hone
    (show cap - 1 ≤ cap by omega) (fun i _ _ => by rw [Finset.mem_singleton]; omega)
    (by rw [Finset.mem_singleton]; omega) (.inr ⟨rfl, rfl, hmax⟩)
  rw [if_neg (by omega)] at hdouble
  have htwo : ∀ key ∈ ({ cap, cap - 1 } : Finset Nat), key < 2 * cap := by
    intro key hkey
    rw [Finset.mem_insert, Finset.mem_singleton] at hkey
    omega
  have hfirst := heldVec_dispose α hmax (show cap + 1 < 2 * cap by omega) htwo
    (show cap < 2 * cap by omega)
  rw [Finset.erase_insert (by rw [Finset.mem_singleton]; omega)] at hfirst
  have hsecond := heldVec_dispose α hmax (show cap + 1 < 2 * cap by omega)
    (fun key hkey => (hone key hkey).trans (by omega)) (show cap - 1 < 2 * cap by omega)
  rw [Finset.erase_singleton] at hsecond
  have hrest := heldVec_walk α (n := 2) hmax none_held
    (show cap + 1 ≤ 2 * cap - 1 by omega) (by omega)
    (fun key _ _ => Finset.notMem_empty key) (by decide)
  refine Reaches.trans ?_ hrest
  refine ((hwalk.snoc ⟨hdouble, ?_⟩).snoc ⟨hfirst, ?_⟩).snoc ⟨hsecond, ?_⟩
  · exact Finset.card_le_two
  · exact (Finset.card_singleton _).le.trans (by decide)
  · exact Nat.zero_le _

lemma heldVec_last (hcap : 0 < cap) (hmax : cap < maxKvecCap) :
    KvecSys.Holding 2 (heldVec α cap (cap - 1) ∅) .reserve (heldVec α cap 0 { cap - 1 }) := by
  have hstep := heldVec_reserve α hmax (show cap - 1 < cap by omega)
    none_held le_rfl (fun i hi hlt => absurd hi (by omega))
      (Finset.notMem_empty _) (.inl ⟨by omega, rfl⟩)
  rw [if_pos (by omega)] at hstep
  exact ⟨hstep, (Finset.card_singleton _).le.trans (by decide)⟩

lemma heldVec_churn (n : Nat) (hmax : 512 * 2 ^ n < maxKvecCap) :
    Reaches (KvecSys.Holding 2) (heldVec α 512 0 ∅)
      (heldVec α (512 * 2 ^ n) 0 { 512 * 2 ^ n - 1 }) := by
  induction n with
  | zero =>
    have hwalk := heldVec_walk α (n := 2) hmax none_held (Nat.zero_le 511) (by decide)
      (fun key _ _ => Finset.notMem_empty key) (by decide)
    exact hwalk.snoc (heldVec_last α (by decide) hmax)
  | succ n ih =>
    have hpos : 0 < 2 ^ n := Nat.two_pow_pos n
    rw [show 512 * 2 ^ (n + 1) = 2 * (512 * 2 ^ n) by ring] at hmax ⊢
    have hgrow := heldVec_grow α (show 1 < 512 * 2 ^ n by omega) hmax
    exact ((ih (by omega)).trans hgrow).snoc (heldVec_last α (by omega) hmax)

lemma heldVec_init : kvecInit 512 0 true = .ok (heldVec α 512 0 ∅).vec := rfl

lemma heldVec_stuck (hcap : 0 < cap) (hmax : cap < maxKvecCap) (hfull : maxKvecCap ≤ 2 * cap) :
    ((heldVec α cap (cap - 1) { cap - 1 }).vec.reserveKey true).1 = .error .enomem := by
  have hnone : nextZero (heldVec α cap (cap - 1) { cap - 1 }).vec.keys cap (cap - 1) = cap := by
    refine nextZero_eq (by omega) le_rfl (fun i hle hlt => decide_eq_true ?_) (.inl rfl)
    rw [Finset.mem_singleton]
    omega
  have hres := (heldVec_wf α hmax (show cap - 1 < cap by omega) (last_held hcap)).reserves true
  generalize (heldVec α cap (cap - 1) { cap - 1 }).vec.reserveKey true = res at hres
  cases hres with
  | failed => rfl
  | reserved _ hkey hgrow =>
    simp only [heldVec] at hnone hkey hgrow
    omega

end

lemma largest_of_512 : IsGreatest (kvecCapacities 512) (512 * 2 ^ 13) := by
  refine ⟨⟨13, rfl, by decide⟩, ?_⟩
  rintro c ⟨n, rfl, hlt⟩
  rcases Nat.lt_or_ge 13 n with hn | hn
  · have hpow : 512 * 2 ^ 14 ≤ 512 * 2 ^ n :=
      Nat.mul_le_mul_left 512 (Nat.pow_le_pow_right (by decide) hn)
    exact absurd (hpow.trans_lt hlt) (by decide)
  · exact Nat.mul_le_mul_left 512 (Nat.pow_le_pow_right (by decide) hn)

/-- After a history that left the largest table with one key held, a reservation succeeds. -/
theorem churned_table_reserves : ∃ s, Reaches KvecSys.Step (heldVec Nat 512 0 ∅) s ∧
    s.vec.cap = 512 * 2 ^ 13 ∧ s.held = { 512 * 2 ^ 13 - 1 } ∧ ¬ s.Stuck ∧
    ∃ key, (s.vec.reserveKey true).1 = .ok key := by
  have hrun := (heldVec_churn Nat 13 (by decide)).mono fun _ _ _ hstep => hstep.1
  have hstuck : ¬ (heldVec Nat (512 * 2 ^ 13) 0 { 512 * 2 ^ 13 - 1 }).Stuck := by
    rintro ⟨-, -, key, hlt, -⟩
    exact absurd hlt (Nat.not_lt_zero key)
  have h := reserve_exhausts_iff (heldVec_init Nat) hrun largest_of_512
  exact ⟨_, hrun, rfl, rfl, hstuck, h.2 hstuck (by decide)⟩

/-- A reservation fails with one key held, the last one of the largest table, and all others
free. -/
theorem reserve_fails_stuck :
    IsGreatest (kvecCapacities 512) (512 * 2 ^ 13) ∧
    ∃ vec : Kvec Nat, kvecInit 512 0 true = .ok vec ∧
      ∃ s, Reaches (KvecSys.Holding 2) ⟨vec, ∅⟩ s ∧ s.held = { 512 * 2 ^ 13 - 1 } ∧
        (s.vec.reserveKey true).1 = .error .enomem ∧ ¬ s.Taken 0 := by
  have hmax : 512 * 2 ^ 13 < maxKvecCap := by decide
  have hchurn := heldVec_churn Nat 13 hmax
  have hwalk := heldVec_walk Nat (n := 2) hmax (last_held (show 0 < 512 * 2 ^ 13 by decide))
    (Nat.zero_le (512 * 2 ^ 13 - 1)) (by decide)
    (fun key _ hlt hkey => absurd (Finset.mem_singleton.1 hkey) hlt.ne) le_rfl
  refine ⟨largest_of_512, _, heldVec_init Nat, _, hchurn.trans hwalk, rfl, ?_, ?_⟩
  · exact heldVec_stuck Nat (by decide) hmax (by decide)
  · rintro (hlt | hkey)
    · exact absurd hlt (Nat.not_lt_zero 0)
    · exact absurd (Finset.mem_singleton.1 hkey) (by decide)

end Ntrdma
