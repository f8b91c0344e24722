import Ntrdma.Lib.Align
import Ntrdma.Lib.Cyclic
import Ntrdma.Ring.Basic

/-!
# Ring indices as unrolled counters

What the index arithmetic of `Ring/Basic.lean` means: an index stands for an unbounded counter kept
modulo `2 * cap` (`Idx`), and a position handed out by `consume` or `produce`, together with its
`base`, stands for a counter too (`Stands`). Every loop over a ring follows one pattern, and there
is one rule for each of its parts: `consume_stands`/`produce_stands` open the range, `Stands.succ`
moves on by one entry, `Stands.slot` names the entry, and `Stands.update` stores the index back.
-/

namespace Ntrdma.Ring
open Ntrdma.Lib

/-- A capacity for which the index arithmetic cannot overflow; `ntrdma_create_qp` takes from 1 to
`NTRDMA_DEV_MAX_QP_WR` (4096). -/
structure Cap (cap : UInt32) : Prop where
  pos : 0 < cap.toNat
  lt : 2 * cap.toNat < 2 ^ 32

/-- The index `i` stores the unrolled counter `n`. -/
def Idx (cap i : UInt32) (n : Nat) : Prop := i.toNat = n % (2 * cap.toNat)

/-- The position `pos` above `base` stands for the unrolled counter `n`. -/
structure Stands (cap base pos : UInt32) (n : Nat) : Prop where
  half : base.toNat = 0 ∨ base.toNat = cap.toNat
  le : pos.toNat ≤ cap.toNat
  eq : (base.toNat + pos.toNat) % (2 * cap.toNat) = n % (2 * cap.toNat)

lemma Idx.lt {cap i n} (hc : Cap cap) (h : Idx cap i n) : i.toNat < 2 * cap.toNat := by
  have hm := Nat.mod_lt n (show 0 < 2 * cap.toNat by have := hc.pos; omega)
  simp only [Idx] at h
  omega

lemma Idx.inj {cap i : UInt32} {m n : Nat} (hm : Idx cap i m) (hn : Idx cap i n) (hle : m ≤ n)
    (hlt : n < m + 2 * cap.toNat) : m = n := by
  simp only [Idx] at hm hn
  exact slot_inj le_rfl (by omega) hle hlt (hm.symm.trans hn)

lemma Stands.slot {cap base pos n} (hc : Cap cap) (h : Stands cap base pos n)
    (hlt : pos.toNat < cap.toNat) : pos.toNat = n % cap.toNat := by
  have hs := slot_cases n hc.pos
  have he := h.eq
  rw [Nat.mod_eq_of_lt (by rcases h.half with hb | hb <;> omega)] at he
  rcases h.half with hb | hb <;> omega

lemma Stands.add {cap base pos pos' n d} (h : Stands cap base pos n)
    (hpos : pos'.toNat = pos.toNat + d) (hle : pos'.toNat ≤ cap.toNat) :
    Stands cap base pos' (n + d) := by
  refine ⟨h.half, hle, ?_⟩
  rw [hpos, ← Nat.add_assoc, Nat.add_mod, h.eq, ← Nat.add_mod]

lemma toNat_succ {pos : UInt32} (h : pos.toNat + 1 < 2 ^ 32) : (pos + 1).toNat = pos.toNat + 1 := by
  rw [UInt32.toNat_add, UInt32.toNat_one, Nat.mod_eq_of_lt h]

lemma Stands.succ {cap base pos n} (hc : Cap cap) (h : Stands cap base pos n)
    (hlt : pos.toNat < cap.toNat) : Stands cap base (pos + 1) (n + 1) := by
  have h32 := hc.lt
  have hnat : (pos + 1).toNat = pos.toNat + 1 := toNat_succ (by omega)
  exact h.add hnat (by omega)

lemma Stands.update {cap base pos n} (hc : Cap cap) (h : Stands cap base pos n) :
    Idx cap (update pos base cap) n := by
  obtain ⟨h0, h32⟩ := hc
  obtain ⟨hb, hle, he⟩ := h
  simp only [Idx, ← he, Ring.update]
  split
  next hpos =>
    subst hpos
    rw [toNat_sub32 (by omega)]
    rcases hb with hb | hb <;> rw [hb]
    · rw [Nat.mod_eq_of_lt (by omega)]; omega
    · rw [← Nat.two_mul, Nat.mod_self]; omega
  next hpos =>
    have hne : pos.toNat ≠ cap.toNat := fun h => hpos (UInt32.toNat_inj.1 h)
    rw [UInt32.toNat_add, Nat.mod_eq_of_lt (by omega), Nat.mod_eq_of_lt (by omega)]

lemma Idx.stands {cap i n} (hc : Cap cap) (h : Idx cap i n) :
    (i < cap → Stands cap 0 i n) ∧
      (¬ i < cap → Stands cap cap (i - cap) n ∧ (i - cap).toNat = i.toNat - cap.toNat) := by
  have hlt := h.lt hc
  simp only [Idx] at h
  refine ⟨fun hi => ?_, fun hi => ?_⟩
  · rw [UInt32.lt_iff_toNat_lt] at hi
    exact ⟨.inl rfl, hi.le, by rw [UInt32.toNat_zero, Nat.zero_add, h, Nat.mod_mod]⟩
  · rw [UInt32.lt_iff_toNat_lt, not_lt] at hi
    have hsub : (i - cap).toNat = i.toNat - cap.toNat := toNat_sub32 hi
    refine ⟨⟨.inr rfl, by omega, ?_⟩, hsub⟩
    rw [hsub, show cap.toNat + (i.toNat - cap.toNat) = i.toNat by omega, h, Nat.mod_mod]

lemma consume_stands {cap cons C} (prod : UInt32) (hc : Cap cap) (hcons : Idx cap cons C) :
    Stands cap (consume prod cons cap).base (consume prod cons cap).pos C ∧
      (consume prod cons cap).pos.toNat < cap.toNat := by
  have hlt := hcons.lt hc
  simp only [consume]
  split
  next h => exact ⟨(hcons.stands hc).1 h, by rwa [UInt32.lt_iff_toNat_lt] at h⟩
  next h =>
    obtain ⟨hst, hsub⟩ := (hcons.stands hc).2 h
    rw [UInt32.lt_iff_toNat_lt, not_lt] at h
    exact ⟨hst, by dsimp only; omega⟩

lemma consume_stop {cap prod cons P C} (hc : Cap cap) (hp : Idx cap prod P) (hcons : Idx cap cons C)
    (hle : C ≤ P) (hcap : P ≤ C + cap.toNat) :
    (consume prod cons cap).stop.toNat =
      (consume prod cons cap).pos.toNat + min (P - C) (cap.toNat - C % cap.toNat) := by
  obtain ⟨d, rfl⟩ : ∃ d, P = C + d := ⟨P - C, by omega⟩
  have h0 := hc.pos
  have hmod := mod_add_cases C d (m := 2 * cap.toNat) (by omega)
  have hslot := slot_cases C h0
  have hps := hp.stands hc
  have hcs := hcons.stands hc
  simp only [Idx] at hp hcons
  rw [← hp, ← hcons] at hmod
  rw [← hcons] at hslot
  rw [show C + d - C = d by omega]
  -- one case for each half the two indices may be in
  simp only [consume]
  split <;> rename_i h1 <;> split <;> rename_i h2 <;> dsimp only
  · rw [UInt32.lt_iff_toNat_lt] at h1 h2; omega
  · rw [UInt32.lt_iff_toNat_lt] at h1 h2; omega
  · rw [(hcs.2 h1).2]
    rw [UInt32.lt_iff_toNat_lt] at h1 h2; omega
  · rw [(hcs.2 h1).2, (hps.2 h2).2]
    rw [UInt32.lt_iff_toNat_lt] at h1 h2; omega

lemma consume_empty_iff {cap prod cons P C} (hc : Cap cap) (hp : Idx cap prod P)
    (hcons : Idx cap cons C) :
    (consume prod cons cap).pos = (consume prod cons cap).stop ↔ prod = cons := by
  have hp2 := hp.lt hc
  have hc2 := hcons.lt hc
  have hps := hp.stands hc
  have hcs := hcons.stands hc
  rw [← UInt32.toNat_inj, ← UInt32.toNat_inj]
  simp only [consume]
  split <;> rename_i h1 <;> split <;> rename_i h2 <;> dsimp only
  · exact eq_comm
  · rw [UInt32.lt_iff_toNat_lt] at h1 h2
    omega
  · rw [(hcs.2 h1).2]
    rw [UInt32.lt_iff_toNat_lt] at h1 h2
    omega
  · rw [(hcs.2 h1).2, (hps.2 h2).2]
    rw [UInt32.lt_iff_toNat_lt] at h1 h2
    omega

lemma produce_stands {cap prod P} (cons : UInt32) (hc : Cap cap) (hp : Idx cap prod P) :
    Stands cap (produce prod cons cap).2.base (produce prod cons cap).2.pos P ∧
      (produce prod cons cap).2.pos.toNat < cap.toNat := by
  have hlt := hp.lt hc
  simp only [produce]
  split
  next h => exact ⟨(hp.stands hc).1 h, by rwa [UInt32.lt_iff_toNat_lt] at h⟩
  next h =>
    obtain ⟨hst, hsub⟩ := (hp.stands hc).2 h
    rw [UInt32.lt_iff_toNat_lt, not_lt] at h
    exact ⟨hst, by dsimp only; omega⟩

lemma produce_stop {cap prod cons P C} (hc : Cap cap) (hp : Idx cap prod P) (hcons : Idx cap cons C)
    (hle : C ≤ P) (hcap : P ≤ C + cap.toNat) :
    (produce prod cons cap).2.stop.toNat =
      (produce prod cons cap).2.pos.toNat +
        min (C + cap.toNat - P) (cap.toNat - P % cap.toNat) := by
  obtain ⟨d, rfl⟩ : ∃ d, P = C + d := ⟨P - C, by omega⟩
  have h0 := hc.pos
  have hmod := mod_add_cases C d (m := 2 * cap.toNat) (by omega)
  have hslot := slot_cases (C + d) h0
  have hlt := hcons.lt hc
  have hps := hp.stands hc
  have hcs := hcons.stands hc
  simp only [Idx] at hp hcons
  rw [← hp, ← hcons] at hmod
  rw [← hp] at hslot
  rw [show C + cap.toNat - (C + d) = cap.toNat - d by omega]
  simp only [produce]
  split <;> rename_i h1 <;> dsimp only <;> split <;> rename_i h2
  · rw [UInt32.lt_iff_toNat_lt] at h1 h2; omega
  · rw [(hcs.2 h2).2]
    rw [UInt32.lt_iff_toNat_lt] at h1 h2; omega
  · rw [(hps.2 h1).2]
    rw [UInt32.lt_iff_toNat_lt] at h1 h2; omega
  · rw [(hps.2 h1).2]
    rw [UInt32.lt_iff_toNat_lt] at h1 h2; omega

lemma produce_fst {prod cons cap} :
    (produce prod cons cap).1 = true ↔
      (produce prod cons cap).2.pos ≠ (produce prod cons cap).2.stop := by
  simp [produce]

/-! ## Consuming entry by entry -/

/-- The range is open for consuming from the counter `C` on, of a producer at `P`. -/
structure Taking (cap : UInt32) (r : Range) (C P : Nat) : Prop where
  hcap : Cap cap
  stands : Stands cap r.base r.pos C
  lt : r.pos.toNat < cap.toNat
  stop : r.stop.toNat = r.pos.toNat + min (P - C) (cap.toNat - C % cap.toNat)
  le : C ≤ P
  full : P ≤ C + cap.toNat

lemma consume_taking {cap prod cons P C} (hc : Cap cap) (hp : Idx cap prod P)
    (hcons : Idx cap cons C) (hle : C ≤ P) (hcap : P ≤ C + cap.toNat) :
    Taking cap (consume prod cons cap) C P :=
  have hst := consume_stands prod hc hcons
  ⟨hc, hst.1, hst.2, consume_stop hc hp hcons hle hcap, hle, hcap⟩

section
variable {cap : UInt32} {r : Range} {C P : Nat}

lemma Taking.slot (h : Taking cap r C P) : r.pos.toNat = C % cap.toNat := h.stands.slot h.hcap h.lt

lemma Taking.slot_add {k : Nat} (h : Taking cap r C P)
    (hk : k < min (P - C) (cap.toNat - C % cap.toNat)) : (C + k) % cap.toNat = r.pos.toNat + k := by
  have hslot := h.slot
  have hmod := mod_add_cases C k (show k < cap.toNat by omega)
  omega

lemma Taking.stop_le (h : Taking cap r C P) : r.stop.toNat ≤ cap.toNat := by
  have := h.stop
  have := h.slot
  have := h.lt
  omega

lemma Taking.empty_iff (h : Taking cap r C P) : r.pos = r.stop ↔ C = P := by
  have hstop := h.stop
  have hle := h.le
  have hmod := Nat.mod_lt C h.hcap.pos
  rw [← UInt32.toNat_inj]
  omega

lemma Taking.key (h : Taking cap r C P) : Idx cap (r.pos + r.base) C := by
  have hlt := h.lt
  have h32 := h.hcap.lt
  have heq := h.stands.eq
  have hnat : (r.pos + r.base).toNat = r.base.toNat + r.pos.toNat := by
    rw [UInt32.toNat_add]
    rcases h.stands.half with hb | hb <;> omega
  rw [Idx, hnat, ← heq, Nat.mod_eq_of_lt]
  rcases h.stands.half with hb | hb <;> omega

lemma Taking.update (h : Taking cap r C P) : Idx cap (update r.pos r.base cap) C :=
  h.stands.update h.hcap

lemma Taking.succ (h : Taking cap r C P) (hne : r.pos ≠ r.stop) (hlast : r.pos + 1 ≠ r.stop) :
    Taking cap { r with pos := r.pos + 1 } (C + 1) P := by
  have hstop := h.stop
  have hle := h.stop_le
  have hslot := h.slot
  have hlt := h.lt
  have h32 := h.hcap.lt
  have hmod := Nat.mod_lt C h.hcap.pos
  have hst := h.stands.succ h.hcap hlt
  have hnat : (r.pos + 1).toNat = r.pos.toNat + 1 := toNat_succ (by omega)
  rw [ne_eq, ← UInt32.toNat_inj] at hne hlast
  have hslot' := hst.slot h.hcap (by omega)
  have hfull := h.full
  refine ⟨h.hcap, hst, by dsimp only; omega, ?_, by omega, by omega⟩
  dsimp only
  omega

lemma Taking.reopen {prod : UInt32} (h : Taking cap r C P) (hp : Idx cap prod P)
    (hne : r.pos ≠ r.stop) :
    Taking cap (consume prod (Ring.update (r.pos + 1) r.base cap) cap) (C + 1) P := by
  have hst := h.stands.succ h.hcap h.lt
  have hfull := h.full
  have hle := h.le
  rw [ne_eq, h.empty_iff] at hne
  exact consume_taking h.hcap hp (hst.update h.hcap) (by omega) (by omega)

end

/-! ## Portions of a ring -/

/-- The portions of positions cover the counters from `n` up to `m`, in order. -/
inductive Portions (cap : UInt32) : List (UInt32 × UInt32) → Nat → Nat → Prop where
  | nil (n) : Portions cap [] n n
  | cons {start stop rest n k m} : start.toNat = n % cap.toNat →
    stop.toNat = start.toNat + k → 0 < k →
    stop.toNat ≤ cap.toNat → Portions cap rest (n + k) m → Portions cap ((start, stop) :: rest) n m

lemma Portions.append {cap l l' n m p} (h : Portions cap l n m) (h' : Portions cap l' m p) :
    Portions cap (l ++ l') n p := by
  induction h with
  | nil => exact h'
  | cons hstart hstop hpos hle _ ih => exact .cons hstart hstop hpos hle (ih h')

lemma Portions.le {cap l n m} (h : Portions cap l n m) : n ≤ m := by
  induction h with
  | nil n => exact Nat.le_refl n
  | cons => omega

lemma Portions.covers_iff {cap l n m} (h : Portions cap l n m) (slot : UInt32) :
    (∃ c ∈ l, c.1 ≤ slot ∧ slot < c.2) ↔ ∃ k, n ≤ k ∧ k < m ∧ slot.toNat = k % cap.toNat := by
  induction h with
  | nil => exact ⟨fun ⟨_, hc, _⟩ => absurd hc nofun, fun ⟨k, hle, hlt, _⟩ => absurd hle (by omega)⟩
  | @cons start _ _ n k _ hstart _ _ _ hrest ih =>
    have hle := hrest.le
    have hslot (j : Nat) (hj : j < k) : (n + j) % cap.toNat = start.toNat + j := by
      rw [Nat.add_mod, ← hstart, Nat.add_mod_mod, Nat.mod_eq_of_lt (by omega)]
    simp only [List.mem_cons, exists_eq_or_imp]
    rw [ih, UInt32.le_iff_toNat_le, UInt32.lt_iff_toNat_lt]
    constructor
    · rintro (⟨hlo, hhi⟩ | ⟨i, hlo, hhi, hi⟩)
      · refine ⟨n + (slot.toNat - start.toNat), by omega, by omega, ?_⟩
        rw [hslot _ (by omega)]
        omega
      · exact ⟨i, by omega, hhi, hi⟩
    · rintro ⟨i, hlo, hhi, hi⟩
      by_cases hin : i < n + k
      · left
        have := hslot (i - n) (by omega)
        rw [Nat.add_sub_cancel' hlo] at this
        omega
      · exact .inr ⟨i, by omega, hhi, hi⟩

lemma Taking.portion {cap r C P} (h : Taking cap r C P) (hne : r.pos ≠ r.stop) :
    Portions cap [(r.pos, r.stop)] C (C + min (P - C) (cap.toNat - C % cap.toNat)) ∧
      Idx cap (Ring.update r.stop r.base cap) (C + min (P - C) (cap.toNat - C % cap.toNat)) := by
  have hstop := h.stop
  rw [ne_eq, ← UInt32.toNat_inj] at hne
  exact ⟨.cons h.slot hstop (by omega) h.stop_le (.nil _),
    (h.stands.add hstop h.stop_le).update h.hcap⟩

/-! ## Producing entry by entry -/

/-- The range is open for producing from the counter `P` on, with `n` slots, of a consumer at
`C`. -/
structure Filling (cap : UInt32) (r : Range) (P C n : Nat) : Prop where
  hcap : Cap cap
  le : C ≤ P
  stands : Stands cap r.base r.pos P
  stop : r.stop.toNat = r.pos.toNat + n
  fits : r.stop.toNat ≤ cap.toNat
  free : P + n ≤ C + cap.toNat

lemma produce_filling {cap prod cons P C} (hc : Cap cap) (hp : Idx cap prod P)
    (hcons : Idx cap cons C) (hle : C ≤ P) (hcap : P ≤ C + cap.toNat) :
    Filling cap (produce prod cons cap).2 P C
      (min (C + cap.toNat - P) (cap.toNat - P % cap.toNat)) := by
  obtain ⟨hst, hlt⟩ := produce_stands cons hc hp
  have hstop := produce_stop hc hp hcons hle hcap
  have hslot := hst.slot hc hlt
  exact ⟨hc, hle, hst, hstop, by omega, by omega⟩

lemma produce_room {cap prod cons P C} (hc : Cap cap) (hp : Idx cap prod P) (hcons : Idx cap cons C)
    (hle : C ≤ P) (hcap : P ≤ C + cap.toNat) (hget : (produce prod cons cap).1 = true) :
    0 < min (C + cap.toNat - P) (cap.toNat - P % cap.toNat) := by
  have hstop := produce_stop hc hp hcons hle hcap
  rw [produce_fst, ne_eq, ← UInt32.toNat_inj] at hget
  omega

section
variable {cap : UInt32} {r : Range} {P C n : Nat}

lemma Filling.slot (h : Filling cap r P C (n + 1)) : r.pos.toNat = P % cap.toNat :=
  h.stands.slot h.hcap (by have := h.stop; have := h.fits; omega)

lemma Filling.update (h : Filling cap r P C n) : Idx cap (update r.pos r.base cap) P :=
  h.stands.update h.hcap

lemma Filling.succ (h : Filling cap r P C (n + 1)) :
    Filling cap { r with pos := r.pos + 1 } (P + 1) C n := by
  have hstop := h.stop
  have hfits := h.fits
  have hfree := h.free
  have hle := h.le
  have h32 := h.hcap.lt
  have hnat : (r.pos + 1).toNat = r.pos.toNat + 1 := toNat_succ (by omega)
  exact ⟨h.hcap, by omega, h.stands.succ h.hcap (by omega), by dsimp only; omega, hfits, by omega⟩

lemma Filling.room (h : Filling cap r P C n) (hne : r.pos ≠ r.stop) : 0 < n := by
  have := h.stop
  rw [ne_eq, ← UInt32.toNat_inj] at hne
  omega

end

/-! ## Counting -/

lemma Cap.twice {cap : UInt32} (hc : Cap cap) : (cap <<< 1).toNat = 2 * cap.toNat := by
  have := hc.lt
  rw [UInt32.toNat_shiftLeft, show (1 : UInt32).toNat % 32 = 1 from rfl, Nat.shiftLeft_eq]
  omega

variable {cap prod cons : UInt32}

lemma count_cases (hc : Cap cap) (hp : prod.toNat < 2 * cap.toNat)
    (hcons : cons.toNat < 2 * cap.toNat) :
    (prod.toNat < cons.toNat ∧
        (count prod cons cap).toNat = prod.toNat + 2 * cap.toNat - cons.toNat) ∨
      (cons.toNat ≤ prod.toNat ∧ (count prod cons cap).toNat = prod.toNat - cons.toNat) := by
  have h32 := hc.lt
  simp only [count]
  split <;> rename_i hlt <;> rw [UInt32.lt_iff_toNat_lt] at hlt
  · refine .inl ⟨hlt, ?_⟩
    rw [UInt32.toNat_sub, UInt32.toNat_add, hc.twice]
    omega
  · refine .inr ⟨by omega, ?_⟩
    rw [UInt32.toNat_sub]
    omega

lemma valid_iff (hc : Cap cap) :
    valid prod cons cap = true ↔ prod.toNat < 2 * cap.toNat ∧ cons.toNat < 2 * cap.toNat ∧
      (count prod cons cap).toNat ≤ cap.toNat := by
  simp only [valid, UInt32.le_iff_toNat_le, hc.twice]
  split
  · simp only [Bool.false_eq_true, false_iff]
    omega
  · split
    · simp only [Bool.false_eq_true, false_iff]
      omega
    · rw [decide_eq_true_eq]
      omega

lemma valid_of_idx {cap prod cons P C} (hc : Cap cap) (hp : Idx cap prod P) (hcons : Idx cap cons C)
    (hle : C ≤ P) (hcap : P ≤ C + cap.toNat) : valid prod cons cap = true := by
  obtain ⟨d, rfl⟩ : ∃ d, P = C + d := ⟨P - C, by omega⟩
  have h0 := hc.pos
  have hmod := mod_add_cases C d (m := 2 * cap.toNat) (by omega)
  have hcount := count_cases hc (hp.lt hc) (hcons.lt hc)
  refine (valid_iff hc).2 ⟨hp.lt hc, hcons.lt hc, ?_⟩
  simp only [Idx] at hp hcons
  rw [← hp, ← hcons] at hmod
  omega

lemma idx_of_valid {cap prod cons} (hc : Cap cap) (h : valid prod cons cap = true) :
    Idx cap cons cons.toNat ∧ Idx cap prod (cons.toNat + (count prod cons cap).toNat) ∧
      (count prod cons cap).toNat ≤ cap.toNat := by
  obtain ⟨hp, hcons, hle⟩ := (valid_iff hc).1 h
  refine ⟨by rw [Idx, Nat.mod_eq_of_lt hcons], ?_, hle⟩
  rw [Idx]
  obtain ⟨hlt, hcount⟩ | ⟨hge, hcount⟩ := count_cases hc hp hcons
  · rw [hcount, show cons.toNat + (prod.toNat + 2 * cap.toNat - cons.toNat) =
      prod.toNat + 2 * cap.toNat by omega, Nat.add_mod_right, Nat.mod_eq_of_lt hp]
  · rw [hcount, Nat.add_sub_cancel' hge, Nat.mod_eq_of_lt hp]

end Ntrdma.Ring
