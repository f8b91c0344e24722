import Ntrdma.Ntc.Dma

/-!
# Choice of the protocol version

Model of the version exchange, which the two peers make twice: the transport in `ntc_ntb_msi.c`
(`ntc_ntb_version`, `ntc_ntb_version_matching`, `ntc_ntb_choose_version_and_send_addr` up to the
chosen version), and the driver in `ntrdma_hello.c` (`ntrdma_buff_supported_versions`,
`ntrdma_version_choose`, `ntrdma_dev_hello_phase1` up to the chosen version). Each side announces
its table and searches both tables, from their last entries down. `latest_version`, which only
debugfs reads, is left out.

The searches of the two sides do not have the same outer table. `storesAgree_iff` says where they
meet in the same version, which they do if both tables are in ascending order (`versions_highest`).
-/

namespace Ntrdma

/-- A table as it is announced (C `struct multi_version_support`, `struct ntrdma_hello_phase1`). -/
structure MultiVersionSupport where
  num : UInt32
  versions : Vector UInt32 32

/-- The static table `supported_versions`, which `BUILD_BUG_ON` holds to `MAX_SUPPORTED_VERSIONS`
entries. -/
structure SupportedVersions where
  table : List UInt32
  length_le : table.length ≤ 32

def maxSupportedVersions : UInt32 := 32

def ntcNtbVersionNone : UInt32 := 0

def verNone : UInt32 := 0

/-- Write a table to a buffer, which keeps what it had behind it (C `ntc_ntb_version`,
`ntrdma_buff_supported_versions`). -/
def SupportedVersions.announce (t : SupportedVersions) (old : Vector UInt32 32) :
    MultiVersionSupport :=
  ⟨UInt32.ofNat t.table.length, Vector.ofFn fun j => t.table.getD j old[j]⟩

def MultiVersionSupport.entry (v : MultiVersionSupport) (j : Nat) : UInt32 :=
    v.versions.toList.getD j 0

/-! ## The search -/

/-- The inner loop: whether `version` is one of the first `i` entries. -/
def MultiVersionSupport.hasBelow (v : MultiVersionSupport) (version : UInt32) : Nat → Bool
  | 0 => false
  | i + 1 => if version = v.entry i then true else v.hasBelow version i

/-- The outer loop: the last of the first `j` entries of `v1` that is in `v2`. -/
def lastMatchBelow (none : UInt32) (v1 v2 : MultiVersionSupport) : Nat → UInt32
  | 0 => none
  | j + 1 =>
    if v2.hasBelow (v1.entry j) v2.num.toNat then v1.entry j else lastMatchBelow none v1 v2 j

def ntcNtbVersionMatching (v1 v2 : MultiVersionSupport) : UInt32 :=
  lastMatchBelow ntcNtbVersionNone v1 v2 v1.num.toNat

def ntrdmaVersionChoose (v1 v2 : MultiVersionSupport) : UInt32 :=
  lastMatchBelow verNone v1 v2 v1.num.toNat

inductive VersionError where
  /-- `too many peer versions: %d > %d` -/
  | tooMany (num : UInt32)
  /-- `versions did not match` -/
  | noMatch
  deriving DecidableEq, Repr

/-- The choice in `ntc_ntb_choose_version_and_send_addr`: `ntc->version` afterwards, and whether the
link goes on. -/
def ntcNtbChooseVersion (version : UInt32) (own : SupportedVersions) (stack : Vector UInt32 32)
    (peerVersions : MultiVersionSupport) : UInt32 × Except VersionError Unit :=
  if peerVersions.num > maxSupportedVersions then (version, .error (.tooMany peerVersions.num))
  else
    let chosen := ntcNtbVersionMatching (own.announce stack) peerVersions
    if chosen = ntcNtbVersionNone then (chosen, .error .noMatch) else (chosen, .ok ())

/-- The choice in `ntrdma_dev_hello_phase1`: `dev->hello.version` afterwards, and whether the hello
goes on. -/
def devHelloPhase1Version (version : UInt32) (own : SupportedVersions) (stack : Vector UInt32 32)
    (peerVersions : MultiVersionSupport) : UInt32 × Except Errno Unit :=
  if peerVersions.num > maxSupportedVersions then (version, .error .einval)
  else
    -- the peer's table comes first here, the own table in the transport
    let chosen := ntrdmaVersionChoose peerVersions (own.announce stack)
    if chosen = verNone then (chosen, .error .einval) else (chosen, .ok ())

/-! ## What the search finds -/

def MultiVersionSupport.entries (v : MultiVersionSupport) : List UInt32 :=
  v.versions.toList.take v.num.toNat

variable {j : Nat}

lemma MultiVersionSupport.take_succ (v : MultiVersionSupport) (h : j < 32) :
    v.versions.toList.take (j + 1) = v.versions.toList.take j ++ [v.entry j] := by
  rw [List.take_add_one, List.getElem?_eq_getElem (by simpa using h)]
  simp [entry, h]

lemma MultiVersionSupport.hasBelow_eq (v : MultiVersionSupport) (version : UInt32) {i : Nat}
    (h : i ≤ 32) : v.hasBelow version i = decide (version ∈ v.versions.toList.take i) := by
  induction i with
  | zero => simp [hasBelow]
  | succ i ih =>
    simp only [hasBelow, ih (by omega), v.take_succ (by omega : i < 32), List.mem_append,
      List.mem_singleton]
    split <;> simp [*]

lemma lastMatchBelow_eq (none : UInt32) (v1 v2 : MultiVersionSupport) (h2 : v2.num.toNat ≤ 32)
    (hj : j ≤ 32) :
    lastMatchBelow none v1 v2 j =
      ((v1.versions.toList.take j).findRev? fun v => decide (v ∈ v2.entries)).getD none := by
  induction j with
  | zero => simp [lastMatchBelow]
  | succ j ih =>
    rw [lastMatchBelow, ih (by omega), v1.take_succ (by omega : j < 32), v2.hasBelow_eq _ h2]
    simp only [List.findRev?_eq_find?_reverse, List.reverse_append, List.reverse_singleton,
      List.singleton_append, List.find?_cons, MultiVersionSupport.entries]
    split <;> simp_all

section
variable (t : SupportedVersions) (old : Vector UInt32 32)

lemma SupportedVersions.announce_num : (t.announce old).num.toNat = t.table.length := by
  have := t.length_le
  simp only [announce, UInt32.toNat_ofNat']
  omega

lemma SupportedVersions.announce_entries : (t.announce old).entries = t.table := by
  rw [MultiVersionSupport.entries, t.announce_num]
  have hlen := t.length_le
  refine List.ext_getElem (by simpa using hlen) fun j _ hj => ?_
  simp [announce, hj]

end

def SupportedVersions.lastCommon (a b : SupportedVersions) : Option UInt32 :=
  a.table.findRev? fun v => decide (v ∈ b.table)

lemma lastMatchBelow_announce (none : UInt32) (a b : SupportedVersions) (x y : Vector UInt32 32) :
    lastMatchBelow none (a.announce x) (b.announce y) (a.announce x).num.toNat =
      (a.lastCommon b).getD none := by
  have ha := a.announce_num x ▸ a.length_le
  have hb := b.announce_num y ▸ b.length_le
  rw [lastMatchBelow_eq none _ _ hb ha, b.announce_entries, ← MultiVersionSupport.entries,
    a.announce_entries, SupportedVersions.lastCommon]

lemma SupportedVersions.lastCommon_isSome (a b : SupportedVersions) :
    (a.lastCommon b).isSome = (b.lastCommon a).isSome := by
  rw [Bool.eq_iff_iff]
  simp only [lastCommon, List.findRev?_eq_find?_reverse, List.find?_isSome, List.mem_reverse,
    decide_eq_true_eq]
  exact ⟨fun ⟨v, ha, hb⟩ => ⟨v, hb, ha⟩, fun ⟨v, hb, ha⟩ => ⟨v, ha, hb⟩⟩

lemma SupportedVersions.lastCommon_getD_inj (a b : SupportedVersions) (none : UInt32) :
    (a.lastCommon b).getD none = (b.lastCommon a).getD none ↔ a.lastCommon b = b.lastCommon a := by
  have hsome := a.lastCommon_isSome b
  cases hab : a.lastCommon b <;> cases hba : b.lastCommon a <;> simp_all

/-! ## Agreement -/

lemma SupportedVersions.announce_num_le (t : SupportedVersions) (old : Vector UInt32 32) :
    ¬ (t.announce old).num > maxSupportedVersions := by
  have := t.announce_num old
  have := t.length_le
  simp only [maxSupportedVersions, gt_iff_lt, UInt32.lt_iff_toNat_lt]
  simp
  omega

lemma ntcNtbChooseVersion_announce (version : UInt32) (own peer : SupportedVersions)
    (x y : Vector UInt32 32) :
    ntcNtbChooseVersion version own x (peer.announce y) =
      let chosen := (own.lastCommon peer).getD ntcNtbVersionNone
      (chosen, if chosen = ntcNtbVersionNone then .error .noMatch else .ok ()) := by
  rw [ntcNtbChooseVersion, if_neg (peer.announce_num_le y), ntcNtbVersionMatching,
    lastMatchBelow_announce]
  simp only
  split <;> rfl

lemma devHelloPhase1Version_announce (version : UInt32) (own peer : SupportedVersions)
    (x y : Vector UInt32 32) :
    devHelloPhase1Version version own x (peer.announce y) =
      let chosen := (peer.lastCommon own).getD verNone
      (chosen, if chosen = verNone then .error .einval else .ok ()) := by
  rw [devHelloPhase1Version, if_neg (peer.announce_num_le y), ntrdmaVersionChoose,
    lastMatchBelow_announce]
  simp only
  split <;> rfl

/-- Two peers with these tables come out with the same version, at both levels, whatever they held
before. -/
def StoresAgree (a b : SupportedVersions) : Prop :=
  ∀ (oldA oldB : UInt32) (stackA stackB infoA infoB : Vector UInt32 32),
    ntcNtbChooseVersion oldA a stackA (b.announce infoA) =
        ntcNtbChooseVersion oldB b stackB (a.announce infoB) ∧
      devHelloPhase1Version oldA a stackA (b.announce infoA) =
        devHelloPhase1Version oldB b stackB (a.announce infoB)

variable {a b : SupportedVersions}

lemma storesAgree_of_lastCommon (h : a.lastCommon b = b.lastCommon a) : StoresAgree a b := by
  intro oldA oldB stackA stackB infoA infoB
  simp only [ntcNtbChooseVersion_announce, devHelloPhase1Version_announce, h, and_self]

/-- The peers agree exactly if the last common entry is the same from both tables. -/
theorem storesAgree_iff (a b : SupportedVersions) :
    StoresAgree a b ↔ a.lastCommon b = b.lastCommon a := by
  constructor
  · intro h
    have hchosen := congrArg Prod.fst (h 0 0 (.replicate 32 0) (.replicate 32 0) (.replicate 32 0)
      (.replicate 32 0)).1
    rw [ntcNtbChooseVersion_announce, ntcNtbChooseVersion_announce] at hchosen
    exact (a.lastCommon_getD_inj b ntcNtbVersionNone).mp hchosen
  · exact storesAgree_of_lastCommon

/-- Two peers that both support versions 1 and 2 and list them in another order. -/
theorem storesAgree_fails_swapped :
    ∃ a b : SupportedVersions, ∃ zero : Vector UInt32 32, a.table = [1, 2] ∧ b.table = [2, 1] ∧
      ntcNtbChooseVersion 0 a zero (b.announce zero) = (2, .ok ()) ∧
      ntcNtbChooseVersion 0 b zero (a.announce zero) = (1, .ok ()) ∧
      devHelloPhase1Version 0 a zero (b.announce zero) = (1, .ok ()) ∧
      devHelloPhase1Version 0 b zero (a.announce zero) = (2, .ok ()) := by
  refine ⟨⟨[1, 2], by decide⟩, ⟨[2, 1], by decide⟩, .replicate 32 0, rfl, rfl, ?_⟩
  simp only [ntcNtbChooseVersion_announce, devHelloPhase1Version_announce]
  decide

lemma SupportedVersions.le_lastCommon (hsorted : a.table.Pairwise (· < ·)) {v w : UInt32}
    (hv : a.lastCommon b = some v) (ha : w ∈ a.table) (hb : w ∈ b.table) : w ≤ v := by
  rw [lastCommon, List.findRev?_eq_find?_reverse, List.find?_eq_some_iff_append] at hv
  obtain ⟨-, behind, before, heq, hnone⟩ := hv
  rw [← List.mem_reverse, heq, List.mem_append, List.mem_cons] at ha
  have hrev := List.pairwise_reverse.mpr hsorted
  rw [heq, List.pairwise_append, List.pairwise_cons] at hrev
  obtain ha | rfl | ha := ha
  · exact absurd (hnone w ha) (by simp [hb])
  · exact UInt32.le_refl _
  · exact UInt32.le_of_lt (hrev.2.1.1 w ha)

lemma SupportedVersions.mem_of_lastCommon {v : UInt32} (h : a.lastCommon b = some v) :
    v ∈ a.table ∧ v ∈ b.table := by
  rw [lastCommon, List.findRev?_eq_find?_reverse] at h
  exact ⟨List.mem_reverse.mp (List.mem_of_find?_eq_some h), by simpa using List.find?_some h⟩

def SupportedVersions.Highest (a b : SupportedVersions) (v : UInt32) : Prop :=
  (v ∈ a.table ∧ v ∈ b.table) ∧ ∀ w ∈ a.table, w ∈ b.table → w ≤ v

lemma SupportedVersions.lastCommon_eq_some (hsorted : a.table.Pairwise (· < ·)) {v : UInt32} :
    a.lastCommon b = some v ↔ a.Highest b v := by
  refine ⟨fun h => ⟨mem_of_lastCommon h, fun w => le_lastCommon hsorted h⟩, fun h => ?_⟩
  cases hlast : a.lastCommon b with
  | none =>
    rw [lastCommon, List.findRev?_eq_find?_reverse, List.find?_eq_none] at hlast
    exact absurd (hlast v (List.mem_reverse.mpr h.1.1)) (by simp [h.1.2])
  | some u =>
    have hu := mem_of_lastCommon hlast
    rw [UInt32.le_antisymm (h.2 u hu.1 hu.2) (le_lastCommon hsorted hlast h.1.1 h.1.2)]

/-- Tables in ascending order make the peers agree, on the highest version that both support. -/
theorem versions_highest {a b : SupportedVersions} (ha : a.table.Pairwise (· < ·))
    (hb : b.table.Pairwise (· < ·)) : StoresAgree a b ∧ ∀ old stack info v,
      (ntcNtbChooseVersion old a stack (b.announce info) = (v, .ok ()) ↔
        v ≠ ntcNtbVersionNone ∧ a.Highest b v) ∧
      (devHelloPhase1Version old a stack (b.announce info) = (v, .ok ()) ↔
        v ≠ verNone ∧ a.Highest b v) := by
  have hcommon : a.lastCommon b = b.lastCommon a := by
    ext v
    rw [SupportedVersions.lastCommon_eq_some ha, SupportedVersions.lastCommon_eq_some hb]
    exact ⟨fun h => ⟨h.1.symm, fun w hw hw' => h.2 w hw' hw⟩, fun h =>
      ⟨h.1.symm, fun w hw hw' => h.2 w hw' hw⟩⟩
  refine ⟨storesAgree_of_lastCommon hcommon, fun old stack info v => ?_⟩
  rw [ntcNtbChooseVersion_announce, devHelloPhase1Version_announce, ← hcommon,
    ← SupportedVersions.lastCommon_eq_some ha]
  cases a.lastCommon b with
  | none => exact ⟨iff_of_false (by simp) (by simp), iff_of_false (by simp) (by simp)⟩
  | some => grind

theorem versions_highest_two : ∃ a b : SupportedVersions, a.table = [1, 2, 4] ∧ b.table = [2, 3] ∧
    ∀ old stack info, ntcNtbChooseVersion old a stack (b.announce info) = (2, .ok ()) := by
  refine ⟨⟨[1, 2, 4], by decide⟩, ⟨[2, 3], by decide⟩, rfl, rfl, fun old stack info => ?_⟩
  exact ((versions_highest (by decide) (by decide)).2 old stack info 2).1.mpr
    ⟨by decide, ⟨by decide, by decide⟩, by simp⟩

end Ntrdma
