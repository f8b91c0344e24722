import Ntrdma.Lib.Mirror
import Ntrdma.Ring.Unrolled

/-!
# The ring as a bounded queue

What the index arithmetic is for. Between the counters `C` and `P` the slots `C % cap`, …,
`(P - 1) % cap` are filled and the others are free. `produce` and `consume` open the longest run of
free and of filled slots at their counter (`Opens`), two rounds cover all of them, and a buffer that
is written and read through such runs is a queue of at most `cap` entries (`Buffer.Queues`): what is
put in comes out once, in order.
-/

namespace Ntrdma.Ring
open Ntrdma.Lib

/-! ## Filled and free slots -/

/-- The slots of `w` counters from `n` on. -/
def Window (c n w s : Nat) : Prop := ∃ m, n ≤ m ∧ m < n + w ∧ s = m % c

def Filled (c C P s : Nat) : Prop := Window c C (P - C) s

def Free (c C P s : Nat) : Prop := s < c ∧ ¬ Filled c C P s

/-- The free slots are those of the counters from `P` up to one revolution after `C`. -/
lemma free_iff {c C P s : Nat} (hle : C ≤ P) (hcap : P ≤ C + c) :
    Free c C P s ↔ Window c P (C + c - P) s := by
  constructor
  · rintro ⟨hs, hfree⟩
    obtain ⟨m, hlo, hhi, hm⟩ := slot_surj C hs
    refine ⟨m, ?_, by omega, hm⟩
    by_contra hlt
    exact hfree ⟨m, hlo, by omega, hm⟩
  · rintro ⟨m, hlo, hhi, rfl⟩
    refine ⟨Nat.mod_lt _ (by omega), ?_⟩
    rintro ⟨k, hk, hk', heq⟩
    exact slot_ne (show k < m by omega) (by omega) heq.symm

/-- The range is the longest run of slots with `Q` from that of `n` on, and storing the index behind
some of them advances the counter by as many. -/
structure Opens (cap : UInt32) (r : Range) (n : Nat) (Q : Nat → Prop) : Prop where
  pos : r.pos.toNat = n % cap.toNat
  le : r.pos.toNat ≤ r.stop.toNat
  fits : r.stop.toNat ≤ cap.toNat
  all : ∀ s, r.pos.toNat ≤ s → s < r.stop.toNat → Q s
  maximal : r.stop.toNat = cap.toNat ∨ ¬ Q r.stop.toNat
  update : ∀ k, k ≤ r.stop.toNat - r.pos.toNat →
    Idx cap (update (r.pos + UInt32.ofNat k) r.base cap) (n + k)

variable {cap : UInt32}

lemma opens_window {r : Range} {n w : Nat} (hc : Cap cap) (hst : Stands cap r.base r.pos n)
    (hlt : r.pos.toNat < cap.toNat) (hw : w ≤ cap.toNat)
    (hstop : r.stop.toNat = r.pos.toNat + min w (cap.toNat - n % cap.toNat)) :
    Opens cap r n (Window cap.toNat n w) := by
  have hslot := hst.slot hc hlt
  have hadd (k : Nat) (hk : n % cap.toNat + k < cap.toNat) :
      (n + k) % cap.toNat = n % cap.toNat + k := by
    have := mod_add_cases n k (show k < cap.toNat by omega)
    omega
  refine ⟨hslot, by omega, by omega, ?_, ?_, ?_⟩
  · intro s hlo hhi
    refine ⟨n + (s - r.pos.toNat), by omega, by omega, ?_⟩
    rw [hadd _ (by omega)]
    omega
  · by_cases hend : r.stop.toNat = cap.toNat
    · exact .inl hend
    · refine .inr ?_
      rintro ⟨m, hlo, hhi, hm⟩
      -- the run ends behind the `w` counters, and none of them has the slot of `n + w`
      have hbehind := hadd w (by omega)
      exact slot_ne (c := cap.toNat) (show m < n + w by omega) (by omega) (by omega)
  · intro k hk
    have h32 := hc.lt
    have hnat : (r.pos + UInt32.ofNat k).toNat = r.pos.toNat + k := by
      rw [UInt32.toNat_add, UInt32.toNat_ofNat', Nat.add_mod_mod, Nat.mod_eq_of_lt (by omega)]
    have hle : (r.pos + UInt32.ofNat k).toNat ≤ cap.toNat := by omega
    exact (hst.add hnat hle).update hc

section
variable {cap prod cons : UInt32} {P C : Nat} (hc : Cap cap) (hp : Idx cap prod P)
  (hcons : Idx cap cons C) (hle : C ≤ P) (hcap : P ≤ C + cap.toNat)

include hc hp hcons hle hcap

lemma consume_opens : Opens cap (consume prod cons cap) C (Filled cap.toNat C P) := by
  obtain ⟨hst, hlt⟩ := consume_stands prod hc hcons
  exact opens_window hc hst hlt (by omega) (consume_stop hc hp hcons hle hcap)

lemma produce_opens : Opens cap (produce prod cons cap).2 P (Free cap.toNat C P) := by
  obtain ⟨hst, hlt⟩ := produce_stands cons hc hp
  have h := opens_window hc hst hlt (by omega) (produce_stop hc hp hcons hle hcap)
  exact { h with
    all := fun s hlo hhi => (free_iff hle hcap).2 (h.all s hlo hhi)
    maximal := h.maximal.imp_right fun hno hfree => hno ((free_iff hle hcap).1 hfree) }

lemma produce_none_iff : (produce prod cons cap).1 = false ↔ P = C + cap.toNat := by
  have hstop := produce_stop hc hp hcons hle hcap
  have hmod := Nat.mod_lt P hc.pos
  rw [← Bool.not_eq_true, produce_fst, not_not, ← UInt32.toNat_inj]
  omega

lemma consume_twice {cons' : UInt32}
    (hcons' : cons' = update (consume prod cons cap).stop (consume prod cons cap).base cap) :
    Idx cap (update (consume prod cons' cap).stop (consume prod cons' cap).base cap) P := by
  have htake := consume_taking hc hp hcons hle hcap
  have hidx := (htake.stands.add htake.stop htake.stop_le).update hc
  have htake' := consume_taking hc hp (hcons' ▸ hidx) (by omega) (by omega)
  have htwo := (htake'.stands.add htake'.stop htake'.stop_le).update hc
  have hruns := two_runs C hc.pos (show P - C ≤ cap.toNat by omega) rfl
  convert htwo using 1
  omega

lemma produce_twice {prod' : UInt32}
    (hprod' : prod' = update (produce prod cons cap).2.stop (produce prod cons cap).2.base cap) :
    Idx cap (update (produce prod' cons cap).2.stop (produce prod' cons cap).2.base cap)
      (C + cap.toNat) := by
  have hfill := produce_filling hc hp hcons hle hcap
  have hidx := (hfill.stands.add hfill.stop hfill.fits).update hc
  have hfill' := produce_filling hc (hprod' ▸ hidx) hcons (by omega) (by omega)
  have htwo := (hfill'.stands.add hfill'.stop hfill'.fits).update hc
  have hruns := two_runs P hc.pos (show C + cap.toNat - P ≤ cap.toNat by omega) rfl
  convert htwo using 1
  omega

lemma count_eq : (count prod cons cap).toNat = P - C := by
  obtain ⟨d, rfl⟩ : ∃ d, P = C + d := ⟨P - C, by omega⟩
  have h0 := hc.pos
  have hmod := mod_add_cases C d (m := 2 * cap.toNat) (by omega)
  have hcount := count_cases hc (hp.lt hc) (hcons.lt hc)
  simp only [Idx] at hp hcons
  rw [← hp, ← hcons] at hmod
  omega

lemma count_add_space : (count prod cons cap).toNat + (space prod cons cap).toNat = cap.toNat := by
  have hcount := count_eq hc hp hcons hle hcap
  have h32 := hc.lt
  simp only [space, count] at hcount ⊢
  generalize (if prod < cons then prod + cap <<< 1 else prod) = x at hcount ⊢
  rw [UInt32.toNat_sub] at hcount ⊢
  rw [UInt32.toNat_sub, UInt32.toNat_add]
  have hx := x.toNat_lt
  have hlt := cons.toNat_lt
  omega

end

/-! ## Warnings -/

lemma toInt_of_lt {a : UInt32} (ha : a.toNat < 2 ^ 31) : a.toInt32.toInt = a.toNat :=
  BitVec.toInt_eq_toNat_of_lt (x := a.toBitVec) (by rw [UInt32.toNat_toBitVec]; omega)

lemma toInt_sub_of_lt {a b : UInt32} (ha : a.toNat < 2 ^ 31) (hb : b.toNat < 2 ^ 31) :
    (a.toInt32 - b.toInt32).toInt = (a.toNat : Int) - b.toNat := by
  rw [Int32.toInt_sub, toInt_of_lt ha, toInt_of_lt hb]
  exact Int.bmod_eq_of_le (by omega) (by omega)

/-- `ntrdma_ring_produce` warns exactly about the indices that `ntrdma_ring_valid` rejects. -/
lemma warns_iff (prod cons : UInt32) (h0 : 0 < cap.toNat) (h31 : 2 * cap.toNat < 2 ^ 31) :
    (warnsRange prod cons cap || warnsDistance prod cons cap) = true ↔
      valid prod cons cap = false := by
  have hc : Cap cap := ⟨h0, by omega⟩
  rw [← Bool.not_eq_true, valid_iff hc, Bool.or_eq_true]
  simp only [warnsRange, Bool.or_eq_true, decide_eq_true_eq, UInt32.le_iff_toNat_le, hc.twice]
  by_cases hrange : prod.toNat < 2 * cap.toNat ∧ cons.toNat < 2 * cap.toNat
  · obtain ⟨hp, hcons⟩ := hrange
    have hcount := count_cases hc hp hcons
    have hdist : warnsDistance prod cons cap = true ↔ cap.toNat < (count prod cons cap).toNat := by
      simp only [warnsDistance, Bool.or_eq_true, Bool.and_eq_true, decide_eq_true_eq,
        Int32.lt_iff_toInt_lt]
      rw [toInt_sub_of_lt (by omega) (by omega), toInt_sub_of_lt (by omega) (by omega),
        toInt_of_lt (by omega), Int32.toInt_zero]
      omega
    rw [hdist]
    omega
  · omega

/-! ## A buffer behind the indices -/

section
variable {α : Type}

structure Buffer (α : Type) where
  cap : UInt32
  prod : UInt32
  cons : UInt32
  slots : Nat → α

def Buffer.room (b : Buffer α) : Nat :=
  (produce b.prod b.cons b.cap).2.stop.toNat - (produce b.prod b.cons b.cap).2.pos.toNat

def Buffer.ready (b : Buffer α) : Nat :=
  (consume b.prod b.cons b.cap).stop.toNat - (consume b.prod b.cons b.cap).pos.toNat

/-- One round of producing: open the range, store the entries in it and the index behind them. -/
def Buffer.put (b : Buffer α) (xs : List α) : Buffer α :=
  let r := (produce b.prod b.cons b.cap).2
  { b with
    slots := store b.slots r.pos.toNat xs
    prod := update (r.pos + UInt32.ofNat xs.length) r.base b.cap }

/-- One round of consuming: open the range, take the first `k` entries of it and store the index
behind them. -/
def Buffer.get (b : Buffer α) (k : Nat) : List α × Buffer α :=
  let r := consume b.prod b.cons b.cap
  ((List.range k).map fun i => b.slots (r.pos.toNat + i),
    { b with cons := update (r.pos + UInt32.ofNat k) r.base b.cap })

/-- The buffer holds the queue, whose first entry has the counter `C`. -/
structure Buffer.Queues (b : Buffer α) (C : Nat) (q : List α) : Prop where
  hcap : Cap b.cap
  cons : Idx b.cap b.cons C
  prod : Idx b.cap b.prod (C + q.length)
  le : q.length ≤ b.cap.toNat
  holds : Holds b.cap.toNat b.slots C q

section
variable {b : Buffer α} {C : Nat} {q : List α} (h : b.Queues C q)

include h

lemma Buffer.Queues.produce_opens : Opens b.cap (produce b.prod b.cons b.cap).2 (C + q.length)
    (Free b.cap.toNat C (C + q.length)) :=
  Ring.produce_opens h.hcap h.prod h.cons (by omega) (by have := h.le; omega)

lemma Buffer.Queues.consume_opens : Opens b.cap (consume b.prod b.cons b.cap) C
    (Filled b.cap.toNat C (C + q.length)) :=
  Ring.consume_opens h.hcap h.prod h.cons (by omega) (by have := h.le; omega)

lemma Buffer.Queues.room_eq : b.room =
    min (b.cap.toNat - q.length) (b.cap.toNat - (C + q.length) % b.cap.toNat) := by
  have hle := h.le
  rw [room, produce_stop h.hcap h.prod h.cons (by omega) (by omega)]
  omega

lemma Buffer.Queues.ready_eq : b.ready = min q.length (b.cap.toNat - C % b.cap.toNat) := by
  have hle := h.le
  rw [ready, consume_stop h.hcap h.prod h.cons (by omega) (by omega)]
  omega

variable {xs : List α}

lemma Buffer.Queues.put (hxs : xs.length ≤ b.room) : (b.put xs).Queues C (q ++ xs) := by
  have hopen := h.produce_opens
  have hroom := h.room_eq
  have hpos := hopen.pos
  have hfits := hopen.fits
  have hmod := Nat.mod_lt (C + q.length) h.hcap.pos
  have hle := h.le
  have hidx := hopen.update xs.length hxs
  refine ⟨h.hcap, h.cons, ?_, ?_, ?_⟩
  · rw [List.length_append, ← Nat.add_assoc]
    exact hidx
  · rw [List.length_append]
    simp only [Buffer.put]
    omega
  intro k a ha
  simp only [Buffer.put]
  rw [hpos]
  rcases Nat.lt_or_ge k q.length with hk | hk
  · -- an entry of the old queue: its slot is not one of the run
    rw [List.getElem?_append_left hk] at ha
    rw [← h.holds.getElem? ha]
    rcases Nat.lt_or_ge ((C + k) % b.cap.toNat) ((C + q.length) % b.cap.toNat) with hlt | hge
    · exact store_outside (.inl hlt)
    · refine store_outside (.inr ?_)
      by_contra hin
      refine (hopen.all ((C + k) % b.cap.toNat) (by omega) ?_).2 ⟨C + k, by omega, by omega, rfl⟩
      simp only [Buffer.room] at hxs
      omega
  · rw [List.getElem?_append_right hk] at ha
    have hlen := (List.getElem?_eq_some_iff.1 ha).1
    have hslot := mod_add_cases (m := b.cap.toNat) (C + q.length) (k - q.length) (by omega)
    rw [show C + k = C + q.length + (k - q.length) by omega]
    rw [show (C + q.length + (k - q.length)) % b.cap.toNat =
      (C + q.length) % b.cap.toNat + (k - q.length) by omega]
    exact store_inside ha

lemma Buffer.Queues.get {k : Nat} (hk : k ≤ b.ready) :
    (b.get k).1 = q.take k ∧ (b.get k).2.Queues (C + k) (q.drop k) := by
  have hopen := h.consume_opens
  have hready := h.ready_eq
  have hle := h.le
  have hpos := hopen.pos
  have hidx := hopen.update k hk
  have hlen : (q.drop k).length = q.length - k := List.length_drop
  refine ⟨?_, h.hcap, hidx, ?_, ?_, ?_⟩
  · have hlens : (b.get k).1.length = k := by rw [Buffer.get, List.length_map, List.length_range]
    refine List.ext_getElem (by rw [hlens, List.length_take]; omega) fun i hi hi' => ?_
    rw [hlens] at hi
    simp only [Buffer.get, List.getElem_map, List.getElem_range, List.getElem_take]
    have hslot := mod_add_cases (m := b.cap.toNat) C i (by omega)
    rw [hpos, show C % b.cap.toNat + i = (C + i) % b.cap.toNat by omega]
    exact h.holds i _ (List.getElem?_eq_getElem _)
  · rw [hlen, show C + k + (q.length - k) = C + q.length by omega]
    exact h.prod
  · rw [hlen]
    exact le_trans (Nat.sub_le _ _) hle
  · intro i a ha
    rw [List.getElem?_drop] at ha
    rw [Nat.add_assoc]
    exact h.holds (k + i) a ha

lemma Buffer.Queues.put_twice (hxs : q.length + xs.length ≤ b.cap.toNat) :
    ((b.put (xs.take b.room)).put (xs.drop b.room)).Queues C (q ++ xs) := by
  have h1 : (b.put (xs.take b.room)).Queues C (q ++ xs.take b.room) :=
    h.put (by rw [List.length_take]; omega)
  have hroom := h.room_eq
  have hroom' := h1.room_eq
  have hfirst : (b.put (xs.take b.room)).cap = b.cap := rfl
  have hruns := two_runs (C + q.length) h.hcap.pos
    (show b.cap.toNat - q.length ≤ b.cap.toNat by omega) hroom
  suffices hrest : (xs.drop b.room).length ≤ (b.put (xs.take b.room)).room by
    have h2 := h1.put hrest
    rwa [List.append_assoc, List.take_append_drop] at h2
  rw [List.length_drop]
  rcases Nat.le_total xs.length b.room with hfew | hmany
  · omega
  · rw [List.length_append, List.length_take, Nat.min_eq_left hmany, hfirst] at hroom'
    rw [← Nat.add_assoc] at hroom'
    omega

lemma Buffer.Queues.get_twice :
    (b.get b.ready).1 ++ ((b.get b.ready).2.get (b.get b.ready).2.ready).1 = q ∧
      ((b.get b.ready).2.get (b.get b.ready).2.ready).2.Queues (C + q.length) [] := by
  obtain ⟨hfst, h1⟩ := h.get le_rfl
  obtain ⟨hsnd, h2⟩ := h1.get le_rfl
  have hready := h.ready_eq
  have hready' := h1.ready_eq
  have hcap : (b.get b.ready).2.cap = b.cap := rfl
  have hruns := two_runs C h.hcap.pos h.le hready
  rw [List.length_drop, hcap] at hready'
  have hall : b.ready + (b.get b.ready).2.ready = q.length := by omega
  rw [List.drop_drop, hall, List.drop_length, Nat.add_assoc, hall] at h2
  have hrest : (q.drop b.ready).take (b.get b.ready).2.ready = q.drop b.ready :=
    List.take_of_length_le (by rw [List.length_drop]; omega)
  rw [hfst, hsnd, hrest, List.take_append_drop]
  exact ⟨rfl, h2⟩

end

/-- A round appends to the queue or takes from its front, never exceeding the capacity, and two
rounds are enough for everything. -/
structure Buffer.Refines (b : Buffer α) (C : Nat) (q : List α) : Prop where
  put : ∀ xs, xs.length ≤ b.room → (b.put xs).Queues C (q ++ xs)
  get : ∀ k, k ≤ b.ready → (b.get k).1 = q.take k ∧ (b.get k).2.Queues (C + k) (q.drop k)
  fill : ∀ xs, q.length + xs.length ≤ b.cap.toNat →
    ((b.put (xs.take b.room)).put (xs.drop b.room)).Queues C (q ++ xs)
  drain : (b.get b.ready).1 ++ ((b.get b.ready).2.get (b.get b.ready).2.ready).1 = q ∧
    ((b.get b.ready).2.get (b.get b.ready).2.ready).2.Queues (C + q.length) []

end

/-! ## The ring refines the queue -/

/-- At the counters `C ≤ P ≤ C + cap`: runs of free and of filled slots, none exactly when the ring
is full or empty, two of which reach the other counter, and the two counts. -/
structure Laws (cap prod cons : UInt32) (P C : Nat) : Prop where
  produce_run : Opens cap (produce prod cons cap).2 P (Free cap.toNat C P)
  produce_none : (produce prod cons cap).1 = false ↔ P = C + cap.toNat
  produce_twice : ∀ prod',
    prod' = update (produce prod cons cap).2.stop (produce prod cons cap).2.base cap →
      Idx cap (update (produce prod' cons cap).2.stop (produce prod' cons cap).2.base cap)
        (C + cap.toNat)
  consume_run : Opens cap (consume prod cons cap) C (Filled cap.toNat C P)
  consume_none : (consume prod cons cap).pos = (consume prod cons cap).stop ↔ C = P
  consume_twice : ∀ cons',
    cons' = update (consume prod cons cap).stop (consume prod cons cap).base cap →
      Idx cap (update (consume prod cons' cap).stop (consume prod cons' cap).base cap) P
  counts : (count prod cons cap).toNat = P - C
  total : (count prod cons cap).toNat + (space prod cons cap).toNat = cap.toNat

/-- The index arithmetic refines a bounded queue, and `ntrdma_ring_produce` warns exactly about the
indices that `ntrdma_ring_valid` rejects. -/
theorem ring_refines_fifo (cap : UInt32) (h0 : 0 < cap.toNat) (h31 : 2 * cap.toNat < 2 ^ 31) :
    (∀ prod cons P C, Idx cap prod P → Idx cap cons C → C ≤ P → P ≤ C + cap.toNat →
      Laws cap prod cons P C) ∧
    (∀ (α : Type) (b : Buffer α) C q, b.cap = cap → b.Queues C q → b.Refines C q) ∧
    (∀ prod cons, (warnsRange prod cons cap || warnsDistance prod cons cap) = true ↔
      valid prod cons cap = false) := by
  have hc : Cap cap := ⟨h0, by omega⟩
  refine ⟨?_, ?_, fun prod cons => warns_iff prod cons h0 h31⟩
  · intro prod cons P C hp hcons hle hcap
    exact {
      produce_run := produce_opens hc hp hcons hle hcap
      produce_none := produce_none_iff hc hp hcons hle hcap
      produce_twice := fun _ h => produce_twice hc hp hcons hle hcap h
      consume_run := consume_opens hc hp hcons hle hcap
      consume_none := (consume_taking hc hp hcons hle hcap).empty_iff
      consume_twice := fun _ h => consume_twice hc hp hcons hle hcap h
      counts := count_eq hc hp hcons hle hcap
      total := count_add_space hc hp hcons hle hcap }
  · intro α b C q _ h
    exact {
      put := fun _ hxs => h.put hxs
      get := fun _ hk => h.get hk
      fill := fun _ hxs => h.put_twice hxs
      drain := h.get_twice }

/-- A ring of three entries whose producer has gone round: the queue `[5, 6]` wraps around the end
and is taken out in two rounds. -/
theorem three_slots_refine :
    Laws 3 4 2 4 2 ∧
      (⟨3, 4, 2, fun s => if s = 2 then 5 else 6⟩ : Buffer Nat).Refines 2 [5, 6] ∧
      (warnsRange 0 1 3 || warnsDistance 0 1 3) = true := by
  have h := ring_refines_fifo 3 (by decide) (by decide)
  refine ⟨h.1 4 2 4 2 rfl rfl (by decide) (by decide), h.2.1 Nat _ 2 [5, 6] rfl ?_, ?_⟩
  · refine ⟨⟨by decide, by decide⟩, rfl, rfl, by decide, ?_⟩
    simp [holds_cons]
  · exact (h.2.2 0 1).2 (by decide)

end Ntrdma.Ring
