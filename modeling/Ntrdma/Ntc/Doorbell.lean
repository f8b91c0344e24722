import Ntrdma.Lib.Bitmap
import Ntrdma.Ntc.Dma

/-!
# Doorbell vectors

Model of how `ntc_ntb_msi.c` turns a vector into a doorbell bit of the peer. `ntc_req_signal` writes
to the doorbell register that `ntc_ntb_db_config_and_recv_addr` noted for the vector, which is that
of the vector-th set bit of the mask of valid doorbells; `ntc_signal` rings the bit with the number
of the vector; and `ntc_clear_signal` computes the bit in an `int`. `doorbell_agrees_iff` says where
they agree.

A call has no result where the source shifts by a negative number or reads behind the end of an
array. The requests of `ntc_req_signal` are accepted by the DMA channel.
-/

namespace Ntrdma
open Lib

def ntbMaxIrqs : Nat := 64

def intelDoorbellRegSize : Nat := 4

/-- C `peer_irq_num`, `peer_irq_shift`, `peer_irq_data` and the size of `peer_irq_base`. -/
structure PeerIrqs where
  num : Nat
  shift : Nat → Nat
  data : Nat → UInt32
  baseSize : Nat

/-- A round of the loop in `ntc_ntb_db_config_and_recv_addr`, whose counter is `peer_irq_num`. -/
def PeerIrqs.note (irqs : PeerIrqs) (bit : Nat) : PeerIrqs :=
  { irqs with
    num := irqs.num + 1
    shift := Function.update irqs.shift irqs.num (bit * intelDoorbellRegSize)
    data := Function.update irqs.data irqs.num 1 }

/-- The loop in `ntc_ntb_db_config_and_recv_addr`, with the number of rounds up to `max_irqs`. -/
def dbConfigLoop : Nat → BitVec 64 → PeerIrqs → PeerIrqs
  | 0, _, irqs => irqs
  | rounds + 1, dbBits, irqs =>
    if dbBits = 0#64 then irqs
    else dbConfigLoop rounds (dbBits &&& (dbBits - 1#64)) (irqs.note dbBits.ctz.toNat)

/-- C `ntc_ntb_db_config_and_recv_addr`, with the results of `ntb_db_vector_count` and
`ntb_db_valid_mask`. -/
def dbConfig (maxIrqs : Int) (mask : BitVec 64) (irqs : PeerIrqs) : Except Errno PeerIrqs :=
  if maxIrqs ≤ 0 ∨ ntbMaxIrqs < maxIrqs then .error .einval
  else
    .ok (dbConfigLoop maxIrqs.toNat mask
      { irqs with num := 0, baseSize := maxIrqs.toNat * intelDoorbellRegSize })

def doorbellWrite (offset : Nat) (data : UInt32) : BitVec 64 :=
  if data = 0 then 0#64 else .twoPow 64 (offset / intelDoorbellRegSize)

section
variable (irqs : PeerIrqs) (vec : Int)

/-- C `ntc_signal`: the bits that are rung. -/
def ntcSignal : Option (Except Errno (BitVec 64)) :=
  if irqs.num ≤ vec then some (.error .efault)
  else if vec < 0 then none
  else some (.ok (1#64 <<< vec.toNat))

/-- C `ntc_req_signal`: the bits that are rung. The comparison with `ARRAY_SIZE` is unsigned. -/
def ntcReqSignal : Option (Except Errno (BitVec 64)) :=
  if vec < 0 ∨ ntbMaxIrqs < vec then some (.error .efault)
  else if irqs.num < vec then some (.error .efault)
  else if vec = ntbMaxIrqs then none
  else
    let shift := irqs.shift vec.toNat
    if ntcSegmentValid (.ofNat irqs.baseSize) (.ofNat shift) 4 then
      some (.ok (doorbellWrite shift (irqs.data vec.toNat)))
    else some (.error .einval)

/-- C `BIT_ULL` assigned to an `int`, where it meets a `u64`. -/
def intBit (n : Nat) : BitVec 64 := ((1#64 <<< n).setWidth 32).signExtend 64

/-- C `ntc_clear_signal` with the doorbell bits of the device: whether the signal was set, and the
bits after it. -/
def ntcClearSignal (db : BitVec 64) : Option (Bool × BitVec 64) :=
  let n := vec.tmod (if irqs.num = 0 then 1 else irqs.num)
  if n < 0 then none
  else if db &&& intBit n.toNat ≠ 0#64 then some
    (true, db &&& ~~~intBit n.toNat) else some (false, db)

def OneBit (mask : BitVec 64) : Prop :=
  ∃ bit, mask.getLsbD bit = true ∧ ntcReqSignal irqs vec = some (.ok (.twoPow 64 bit)) ∧
    ntcSignal irqs vec = some (.ok (.twoPow 64 bit)) ∧
    ∀ db, ntcClearSignal irqs vec db = some (db.getLsbD bit, db &&& ~~~.twoPow 64 bit)

def Refused : Prop :=
  (∃ e, ntcReqSignal irqs vec = some (.error e)) ∧ ∃ e, ntcSignal irqs vec = some (.error e)

end

/-! ## The registers that are noted -/

/-- The noted registers from `irqs.num` on are those of bits of `x`, each that of its own number
exactly if `x` has no gap before it. -/
structure Noted (x : BitVec 64) (irqs irqs' : PeerIrqs) (rounds : Nat) : Prop where
  le : irqs.num ≤ irqs'.num ∧ irqs'.num ≤ irqs.num + rounds
  baseSize : irqs'.baseSize = irqs.baseSize
  before : ∀ i < irqs.num, irqs'.shift i = irqs.shift i ∧ irqs'.data i = irqs.data i
  noted : ∀ i, irqs.num ≤ i → i < irqs'.num → irqs'.data i = 1 ∧
    ∃ bit, x.getLsbD bit = true ∧ irqs'.shift i = bit * intelDoorbellRegSize ∧
      (bit = i ↔ ∀ j, irqs.num ≤ j → j ≤ i → x.getLsbD j = true)

section
variable {x : BitVec 64} {irqs irqs' : PeerIrqs}

lemma dbConfigLoop_noted (rounds : Nat) (hlow : ∀ j < irqs.num, x.getLsbD j = false) :
    Noted x irqs (dbConfigLoop rounds x irqs) rounds := by
  induction rounds generalizing x irqs with
  | zero =>
    exact ⟨⟨le_rfl, le_rfl⟩, rfl, fun _ _ => ⟨rfl, rfl⟩, fun i hge hlt =>
      absurd hlt (Nat.not_lt.2 hge)⟩
  | succ _ ih =>
    rw [dbConfigLoop]
    split
    · exact ⟨⟨le_rfl, Nat.le_add_right ..⟩, rfl, fun _ _ => ⟨rfl, rfl⟩,
        fun i hge hlt => absurd hlt (Nat.not_lt.2 hge)⟩
    next hx =>
      have hbits := getLsbD_and_sub_one hx
      have hctz := ctz_eq_iff hx hlow
      obtain ⟨⟨hle, hle'⟩, hbase, hbefore, hnoted⟩ :=
        @ih (x &&& (x - 1#64)) (irqs.note x.ctz.toNat) (by
        intro j hj
        rw [hbits]
        by_cases hlt : j < irqs.num
        · rw [hlow j hlt, Bool.false_and]
        · cases Nat.le_antisymm (Nat.le_of_lt_succ hj) (Nat.not_lt.1 hlt)
          rw [Bool.and_eq_false_imp]
          exact fun hset => decide_eq_false (not_not.2 (hctz.2 hset).symm))
      refine ⟨⟨Nat.le_of_succ_le hle, hle'.trans (Nat.le_of_eq (Nat.succ_add ..))⟩,
        hbase, fun i hi => ?_,
        fun i hge hlt => ?_⟩
      · obtain ⟨hshift, hdata⟩ := hbefore i (Nat.lt_succ_of_lt hi)
        rw [hshift, hdata]
        exact ⟨Function.update_of_ne (Nat.ne_of_lt hi) ..,
          Function.update_of_ne (Nat.ne_of_lt hi) ..⟩
      · obtain rfl | hgt := Nat.eq_or_lt_of_le hge
        · obtain ⟨hshift, hdata⟩ := hbefore _ (Nat.lt_succ_self _)
          rw [hshift, hdata]
          refine ⟨Function.update_self .., x.ctz.toNat, BitVec.getLsbD_true_ctz_of_ne_zero hx,
            Function.update_self .., hctz.trans
              ⟨fun hset j hge hle => ?_, fun hall => hall _ le_rfl le_rfl⟩⟩
          rw [← Nat.le_antisymm hge hle]
          exact hset
        · obtain ⟨hdata, bit, hset, hshift, hgap⟩ := hnoted i hgt hlt
          rw [hbits, Bool.and_eq_true] at hset
          exact ⟨hdata, bit, hset.1, hshift, hgap.trans (clear_lowest_forall_iff hx hlow hgt)⟩

/-! ## What the functions ring, test and clear -/

lemma dbConfig_ok {maxIrqs : Int} {mask : BitVec 64} (h : dbConfig maxIrqs mask irqs = .ok irqs') :
    irqs'.num ≤ ntbMaxIrqs ∧ irqs'.num * 4 ≤ irqs'.baseSize ∧ irqs'.baseSize ≤ 256 ∧
      ∀ n < irqs'.num, irqs'.data n = 1 ∧ ∃ bit, mask.getLsbD bit = true ∧
        irqs'.shift n = bit * intelDoorbellRegSize ∧
          (bit = n ↔ ∀ j ≤ n, mask.getLsbD j = true) := by
  rw [dbConfig] at h
  split at h
  · cases h
  next hmax =>
    cases h
    obtain ⟨⟨-, hle⟩, hbase, -, hnoted⟩ := @dbConfigLoop_noted mask
      { irqs with num := 0, baseSize := maxIrqs.toNat * intelDoorbellRegSize } maxIrqs.toNat
      fun _ hj => absurd hj (Nat.not_lt_zero _)
    rw [hbase]
    dsimp only [intelDoorbellRegSize, ntbMaxIrqs] at *
    refine ⟨by omega, by omega, by omega, fun n hn => ?_⟩
    obtain ⟨hdata, bit, hset, hshift, hgap⟩ := hnoted n (Nat.zero_le n) hn
    exact ⟨hdata, bit, hset, hshift,
      hgap.trans ⟨fun hall j => hall j (Nat.zero_le j), fun hall j _ => hall j⟩⟩

lemma twoPow_inj {i j : Nat} (hi : i < 64) (h : BitVec.twoPow 64 i = BitVec.twoPow 64 j) :
    i = j := by
  have hbit := congrArg (BitVec.getLsbD · i) h
  rw [BitVec.getLsbD_twoPow, BitVec.getLsbD_twoPow, decide_eq_true hi,
    decide_eq_true rfl, Bool.true_and,
    eq_comm, Bool.and_eq_true, decide_eq_true_eq, decide_eq_true_eq] at hbit
  exact hbit.2.symm

lemma intBit_eq_iff {n : Nat} (hn : n < 64) : intBit n = .twoPow 64 n ↔ n < 31 := by
  have hall : ∀ n : Fin 64, intBit n = .twoPow 64 n ↔ n.val < 31 := by decide +kernel
  exact hall ⟨n, hn⟩

lemma ntcClearSignal_iff {n : Nat} (hn : n < irqs.num) (hmax : n < 64) :
    (∀ db, ntcClearSignal irqs n db = some (db.getLsbD n, db &&& ~~~.twoPow 64 n)) ↔ n < 31 := by
  have hmod : (n : Int).tmod (if irqs.num = 0 then 1 else irqs.num) = n := by
    rw [if_neg (by omega)]
    exact Int.tmod_eq_of_lt (by omega) (by omega)
  have hclear (db : BitVec 64) : ntcClearSignal irqs n db =
      if db &&& intBit n ≠ 0#64 then some (true, db &&& ~~~intBit n) else some (false, db) := by
    rw [ntcClearSignal, hmod, if_neg (by omega), Int.toNat_natCast]
  simp only [hclear]
  rw [← intBit_eq_iff hmax]
  constructor
  · intro hall
    have hones := hall (.allOnes 64)
    rw [BitVec.allOnes_and, BitVec.allOnes_and, BitVec.allOnes_and, BitVec.getLsbD_allOnes,
      decide_eq_true hmax] at hones
    split at hones
    · rw [Option.some.injEq, Prod.mk.injEq, BitVec.not_inj] at hones
      exact hones.2
    · cases congrArg Prod.fst (Option.some.inj hones)
  · intro heq db
    rw [heq, BitVec.and_twoPow]
    cases hbit : db.getLsbD n with
    | true =>
      have hne : BitVec.twoPow 64 n ≠ 0#64 := fun hzero => by
        have hset := congrArg (BitVec.getLsbD · n) hzero
        rw [BitVec.getLsbD_twoPow, decide_eq_true hmax, decide_eq_true rfl,
          BitVec.getLsbD_zero] at hset
        cases hset
      rw [if_pos rfl, if_pos hne]
    | false =>
      have hsame : db &&& ~~~.twoPow 64 n = db := by
        refine BitVec.eq_of_getLsbD_eq fun j hj => ?_
        rw [BitVec.getLsbD_and, BitVec.getLsbD_not, BitVec.getLsbD_twoPow, decide_eq_true hj,
          decide_eq_true hmax]
        by_cases heq : n = j
        · rw [← heq, hbit, Bool.false_and]
        · rw [decide_eq_false heq, Bool.and_false, Bool.not_false, Bool.true_and, Bool.and_true]
      rw [hsame]
      rfl

lemma oneBit_iff {maxIrqs : Int} {mask : BitVec 64} (h : dbConfig maxIrqs mask irqs = .ok irqs')
    {n : Nat} (hn : n < irqs'.num) :
    OneBit irqs' n mask ↔ n < 31 ∧ ∀ j ≤ n, mask.getLsbD j = true := by
  obtain ⟨hmax, hbase, hbase', hall⟩ := dbConfig_ok h
  obtain ⟨hdata, bit, hset, hshift, hgap⟩ := hall n hn
  dsimp only [ntbMaxIrqs, intelDoorbellRegSize] at hmax hshift
  have hbit : bit < 64 := BitVec.lt_of_getLsbD hset
  have hsig : ntcSignal irqs' n = some (.ok (.twoPow 64 n)) := by
    rw [ntcSignal, if_neg (by omega), if_neg (by omega), BitVec.twoPow_eq, Int.toNat_natCast]
  have hreq : ntcReqSignal irqs' n = if ntcSegmentValid
    (.ofNat irqs'.baseSize) (.ofNat (bit * 4)) 4 then
      some (.ok (.twoPow 64 bit)) else some (.error .einval) := by
    have hwrite : doorbellWrite (bit * 4) 1 = .twoPow 64 bit := by
      rw [doorbellWrite, if_neg (by decide), intelDoorbellRegSize, Nat.mul_div_cancel _ (by decide)]
    rw [ntcReqSignal, ntbMaxIrqs, if_neg (by omega), if_neg (by omega),
      if_neg (by omega), Int.toNat_natCast,
      hdata, hshift]
    dsimp only
    rw [hwrite]
  rw [← hgap, ← ntcClearSignal_iff hn (by omega)]
  constructor
  · rintro ⟨b, -, hreq', hsig', hclear⟩
    rw [hsig, Option.some.injEq, Except.ok.injEq] at hsig'
    cases twoPow_inj (by omega) hsig'
    refine ⟨hclear, ?_⟩
    rw [hreq] at hreq'
    split at hreq'
    · exact twoPow_inj hbit (Except.ok.inj (Option.some.inj hreq'))
    · cases hreq'
  · rintro ⟨hclear, rfl⟩
    refine ⟨bit, hset, ?_, hsig, hclear⟩
    rw [hreq, if_pos]
    refine ntcSegmentValid_of_le (by decide) ?_
    rw [UInt64.toNat_ofNat', UInt64.toNat_ofNat', Nat.mod_eq_of_lt (by omega),
      Nat.mod_eq_of_lt (by omega)]
    change bit * 4 + 4 ≤ irqs'.baseSize
    omega

end

/-- A vector is one bit for all exactly below 31 and up to the first gap of the mask; one that is
too large is refused unless it is the next and its register lies in the window. -/
theorem doorbell_agrees_iff {maxIrqs : Int} {mask : BitVec 64} {irqs irqs' : PeerIrqs}
    (h : dbConfig maxIrqs mask irqs = .ok irqs') (vec : Int) :
    (vec < irqs'.num →
      (OneBit irqs' vec mask ↔ 0 ≤ vec ∧ vec < 31 ∧ ∀ j : Nat, j ≤ vec → mask.getLsbD j = true)) ∧
    (irqs'.num ≤ vec →
      (Refused irqs' vec ↔ vec ≠ irqs'.num ∨ vec < ntbMaxIrqs ∧
        ntcSegmentValid (.ofNat irqs'.baseSize) (.ofNat (irqs'.shift irqs'.num)) 4 = false)) := by
  refine ⟨fun hlt => ?_, fun hge => ?_⟩
  · by_cases hneg : vec < 0
    · refine iff_of_false ?_ fun hvec => absurd hvec.1 (by omega)
      rintro ⟨bit, -, hreq, -⟩
      rw [ntcReqSignal, if_pos (.inl hneg)] at hreq
      cases hreq
    · obtain ⟨n, rfl⟩ := Int.eq_ofNat_of_zero_le (Int.not_lt.1 hneg)
      rw [oneBit_iff h (by omega)]
      refine ⟨fun hn => ⟨by omega, by omega, fun j hj => hn.2 j (by omega)⟩,
        fun hn => ⟨by omega, fun j hj => hn.2.2 j (by omega)⟩⟩
  · have hsig : ntcSignal irqs' vec = some (.error .efault) := if_pos hge
    rw [Refused, hsig, and_iff_left ⟨_, rfl⟩, ntcReqSignal]
    have hmax := (dbConfig_ok h).1
    by_cases heq : vec = irqs'.num
    · subst heq
      rw [if_neg (by omega), if_neg (by omega), Int.toNat_natCast, or_iff_right (not_not.2 rfl)]
      split
      · exact iff_of_false (fun ⟨_, hnone⟩ => nomatch hnone) fun hlt => absurd hlt.1 (by omega)
      · rw [and_iff_right (by omega)]
        dsimp only
        split
        next hvalid =>
          rw [hvalid]
          exact iff_of_false (fun ⟨_, hok⟩ => nomatch hok) nofun
        next hvalid => exact iff_of_true ⟨.einval, rfl⟩ (Bool.eq_false_iff.2 hvalid)
    · refine iff_of_true ⟨.efault, ?_⟩ (.inl heq)
      split
      · rfl
      · rw [if_pos (by omega)]

def noIrqs : PeerIrqs := ⟨0, fun _ => 0, fun _ => 0, 0⟩

theorem doorbell_agrees_iff_four : ∃ irqs, dbConfig 4 0xf#64 noIrqs = .ok irqs ∧
    OneBit irqs 2 0xf#64 := by
  refine ⟨_, rfl, ?_⟩
  have hiff := doorbell_agrees_iff (show dbConfig 4 0xf#64 noIrqs = .ok _ from rfl) 2
  refine (hiff.1 (by decide)).2 ⟨by decide, by decide, fun j hj => ?_⟩
  have hle : j ≤ 2 := by omega
  interval_cases j <;> rfl

/-- With the mask 5, vector 1 is another bit for each sender; with all bits valid, clearing vector
31 clears those above it. -/
theorem doorbell_vectors_differ :
    ((dbConfig 4 5#64 noIrqs).toOption.map fun irqs => (irqs.num,
        [ntcReqSignal irqs 1, ntcSignal irqs 1, ntcReqSignal irqs 2].map
          (·.bind Except.toOption))) =
      some (2, [some 4#64, some 2#64, some 0#64]) ∧
    ((dbConfig 64 (.allOnes 64) noIrqs).toOption.map fun irqs =>
        ((ntcSignal irqs 31).bind Except.toOption, ntcClearSignal irqs 31 (.allOnes 64))) =
      some (some 0x80000000#64, some (true, 0x7fffffff#64)) := by
  decide +kernel

end Ntrdma
