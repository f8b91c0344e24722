import Ntrdma.Vbell.Silence

/-!
# The list of a head

Model of the doorbells that share a head, with the list of the head: `list_add_tail` must not get an
entry that is in a list, and `list_del` must get one that is. An operation that would do otherwise
has no result. The loop of `ntrdma_vbell_head_fire_locked` goes over the list while it takes entries
off; for each doorbell it does what `vbellHeadFireLocked` says (`headFireLocked_spec`).

A doorbell is in the list exactly while it is armed. It need not have seen the sequence of the head
where it is enabled: `ntrdma_vbell_enable` sets the flag only, and the rings before it were skipped.
-/

namespace Ntrdma
open Function Lib

/-- A head with its list (C `head->list`) and the doorbells that have it. -/
structure VbellList (ι : Type) where
  head : VbellHead
  list : List ι
  vbell : ι → Vbell

inductive VbellListOp (ι : Type) where
  | enable (i : ι)
  | disable (i : ι)
  | del (i : ι)
  | clear (i : ι)
  | readd (i : ι)
  | addClear (i : ι)
  | trigger (i : ι)
  | headFire (vbellVal : UInt32)
  | headEnable
  | headDisable
  deriving DecidableEq, Repr

variable {ι : Type} [DecidableEq ι]

namespace VbellList

def set (s : VbellList ι) (i : ι) (vbell : Vbell) : VbellList ι :=
    { s with vbell := update s.vbell i vbell }

def listAddTail (s : VbellList ι) (i : ι) : Option (VbellList ι) :=
  if i ∈ s.list then none else some { s with list := s.list ++ [i] }

def listDel (s : VbellList ι) (i : ι) : Option (VbellList ι) :=
  if i ∈ s.list then some { s with list := s.list.erase i } else none

def enable (s : VbellList ι) (i : ι) : VbellList ι := s.set i { s.vbell i with enabled := true }

def disable (s : VbellList ι) (i : ι) : VbellList ι := s.set i (vbellDisable (s.vbell i))

def del (s : VbellList ι) (i : ι) : Option (VbellList ι) :=
  let vbell := { s.vbell i with enabled := false, alive := false }
  if !vbell.arm then some (s.set i vbell)
  else (s.listDel i).map fun t => t.set i { vbell with arm := false }

def clear (s : VbellList ι) (i : ι) : VbellList ι := s.set i (vbellClear s.head (s.vbell i))

def readd (s : VbellList ι) (i : ι) : Option (VbellList ι) :=
  let vbell := s.vbell i
  if !vbell.alive then some s
  else if vbell.arm then some s
  else if vbell.seq != s.head.seq then some (s.set i { vbell with seq := s.head.seq })
  else (s.listAddTail i).map fun t => t.set i { vbell with arm := true }

def addClear (s : VbellList ι) (i : ι) : Option (VbellList ι) :=
  let vbell := s.vbell i
  if !vbell.alive then some s
  else if vbell.arm then some s
  else (s.listAddTail i).map fun t => t.set i { vbell with seq := s.head.seq, arm := true }

def trigger (s : VbellList ι) (i : ι) : Option (VbellList ι) :=
  let vbell := s.vbell i
  if !vbell.enabled then some s
  else if vbell.arm then (s.listDel i).map fun t =>
    t.set i { vbell with arm := false, seq := s.head.seq }
  else some (s.set i { vbell with seq := s.head.seq })

/-- The loop of `ntrdma_vbell_head_fire_locked`, over what is left of the list. -/
def fireLoop : List ι → VbellList ι → Option (VbellList ι)
  | [], s => some s
  | i :: rest, s =>
    if !(s.vbell i).enabled then fireLoop rest s
    else (s.listDel i).bind fun t => fireLoop rest
      (t.set i { s.vbell i with arm := false, seq := s.head.seq })

def headFireLocked (s : VbellList ι) : Option (VbellList ι) := fireLoop s.list s

def headFire (s : VbellList ι) (vbellVal : UInt32) : Option (VbellList ι) :=
  if !s.head.enabled then some s
  else if s.head.seq == vbellVal then some s
  else headFireLocked { s with head.seq := vbellVal }

def headEnable (s : VbellList ι) : Option (VbellList ι) :=
    headFireLocked { s with head.enabled := true }

def headDisable (s : VbellList ι) : Option (VbellList ι) :=
    headFireLocked { s with head := ⟨0, false⟩ }

def exec (s : VbellList ι) : VbellListOp ι → Option (VbellList ι)
  | .enable i => some (s.enable i)
  | .disable i => some (s.disable i)
  | .del i => s.del i
  | .clear i => some (s.clear i)
  | .readd i => s.readd i
  | .addClear i => s.addClear i
  | .trigger i => s.trigger i
  | .headFire vbellVal => s.headFire vbellVal
  | .headEnable => s.headEnable
  | .headDisable => s.headDisable

/-- C `ntrdma_vbell_head_init` and C `ntrdma_vbell_init` of the doorbells. -/
def start : VbellList ι := ⟨⟨0, false⟩, [], fun _ => ⟨0, false, true, true⟩⟩

/-- A doorbell is in the list once if it is armed and not at all if it is not, and never if it is
dead. -/
structure Listed (s : VbellList ι) : Prop where
  count : ∀ i, s.list.count i = if (s.vbell i).arm then 1 else 0
  dead : ∀ i, (s.vbell i).alive = false → i ∉ s.list

def Seen (s : VbellList ι) : Prop :=
  ∀ i, (s.vbell i).enabled = true → (s.vbell i).arm = true → (s.vbell i).seq = s.head.seq

def EnablesSeen (s : VbellList ι) : VbellListOp ι → Prop
  | .enable i => (s.vbell i).arm = true → (s.vbell i).seq = s.head.seq
  | _ => True

/-! ## One doorbell -/

section
variable {s : VbellList ι} {i : ι} {vbell : Vbell} {l : List ι}

lemma Listed.mem_iff (h : s.Listed) (i : ι) : i ∈ s.list ↔ (s.vbell i).arm = true := by
  rw [← List.count_pos_iff, h.count]
  cases (s.vbell i).arm <;> decide

lemma Listed.alive (h : s.Listed) (harm : (s.vbell i).arm = true) : (s.vbell i).alive = true := by
  by_contra hdead
  exact h.dead i (Bool.eq_false_iff.2 hdead) ((h.mem_iff i).2 harm)

lemma Listed.set (h : s.Listed) (hself : l.count i = if vbell.arm then 1 else 0)
    (hother : ∀ j, j ≠ i → l.count j = s.list.count j)
    (halive : vbell.arm = true → vbell.alive = true) :
    ({ s with list := l }.set i vbell).Listed := by
  have hcount : ∀ j, l.count j = if (update s.vbell i vbell j).arm then 1 else 0 := by
    intro j
    by_cases hj : j = i
    · rw [hj, update_self, hself]
    · rw [update_of_ne hj, hother j hj, h.count]
  have halive' : ∀ j, (update s.vbell i vbell j).arm = true →
    (update s.vbell i vbell j).alive = true :=
    (forall_update_iff s.vbell fun _ vbell => vbell.arm = true → vbell.alive = true).2
      ⟨halive, fun _ _ => h.alive⟩
  refine ⟨hcount, fun j hdead (hmem : j ∈ l) => ?_⟩
  have hpos := List.count_pos_iff.2 hmem
  rw [hcount] at hpos
  by_cases harm : (update s.vbell i vbell j).arm = true
  · exact absurd (hdead.symm.trans (halive' j harm)) Bool.false_ne_true
  · rw [if_neg harm] at hpos
    exact absurd hpos (Nat.lt_irrefl 0)

lemma Listed.listDel (h : s.Listed) (harm : (s.vbell i).arm = true) (hoff : vbell.arm = false) :
    ∃ t, s.listDel i = some t ∧ t.head = s.head ∧ t.vbell = s.vbell ∧ (t.set i vbell).Listed := by
  have hone := h.count i
  rw [if_pos harm] at hone
  refine ⟨_, if_pos ((h.mem_iff i).2 harm), rfl, rfl, h.set ?_ (fun j hj => ?_) fun hon => ?_⟩
  · rw [List.count_erase_self, hone, hoff]
    rfl
  · exact List.count_erase_of_ne hj
  · exact absurd (hoff.symm.trans hon) Bool.false_ne_true

lemma Listed.listAddTail (h : s.Listed) (harm : (s.vbell i).arm = false) (hon : vbell.arm = true)
    (halive : vbell.alive = true) :
    ∃ t, s.listAddTail i = some t ∧ t.head = s.head ∧ t.vbell = s.vbell ∧
      (t.set i vbell).Listed := by
  have hout : i ∉ s.list := fun hin => Bool.false_ne_true (harm.symm.trans ((h.mem_iff i).1 hin))
  refine ⟨_, if_neg hout, rfl, rfl, h.set ?_ (fun j hj => ?_) fun _ => halive⟩
  · rw [List.count_append, List.count_eq_zero.2 hout, List.count_singleton_self, hon]
    rfl
  · rw [List.count_append, List.count_singleton, beq_eq_false_iff_ne.2 hj.symm]
    rfl

lemma seen_set_iff {t : VbellList ι} (h : s.Seen) (hhead : t.head = s.head)
    (hvbell : t.vbell = s.vbell) :
    (t.set i vbell).Seen ↔ (vbell.enabled = true → vbell.arm = true → vbell.seq = s.head.seq) := by
  refine (forall_update_iff t.vbell fun _ vbell =>
    vbell.enabled = true → vbell.arm = true → vbell.seq = t.head.seq).trans ?_
  rw [hhead, hvbell]
  exact and_iff_left fun j _ => h j

/-- An operation has a result, in which the list is in order and enabled doorbells have seen what
they had. -/
def Keeps (s : VbellList ι) (res : Option (VbellList ι)) : Prop :=
  ∃ t, res = some t ∧ t.Listed ∧ (s.Seen → t.Seen)

lemma Listed.keeps_self (h : s.Listed) : s.Keeps (some s) := ⟨s, rfl, h, id⟩

lemma Listed.keeps_set (h : s.Listed) (harm : vbell.arm = (s.vbell i).arm)
    (halive : vbell.arm = true → vbell.alive = true)
    (hseq : s.Seen → vbell.enabled = true → vbell.arm = true → vbell.seq = s.head.seq) :
    s.Keeps (some (s.set i vbell)) :=
  ⟨_, rfl, h.set (by rw [harm, h.count]) (fun _ _ => rfl) halive, fun hseen =>
    (seen_set_iff hseen rfl rfl).2 (hseq hseen)⟩

lemma Listed.keeps_del (h : s.Listed) (harm : (s.vbell i).arm = true) (hoff : vbell.arm = false) :
    s.Keeps ((s.listDel i).map fun t => t.set i vbell) := by
  obtain ⟨t, ht, hhead, hvbell, hset⟩ := h.listDel harm hoff
  refine ⟨_, congrArg _ ht, hset, fun hseen => (seen_set_iff hseen hhead hvbell).2 fun _ hon => ?_⟩
  exact absurd (hoff.symm.trans hon) Bool.false_ne_true

lemma Listed.keeps_add (h : s.Listed) (harm : (s.vbell i).arm = false) (hon : vbell.arm = true)
    (halive : vbell.alive = true) (hseq : vbell.seq = s.head.seq) :
    s.Keeps ((s.listAddTail i).map fun t => t.set i vbell) := by
  obtain ⟨t, ht, hhead, hvbell, hset⟩ := h.listAddTail harm hon halive
  exact ⟨_, congrArg _ ht, hset, fun hseen => (seen_set_iff hseen hhead hvbell).2 fun _ _ => hseq⟩

lemma Listed.keeps_of_off (h : s.Listed) (hoff : (s.vbell i).arm = false)
    (harm : vbell.arm = false) : s.Keeps (some (s.set i vbell)) := by
  have hne : vbell.arm ≠ true := fun hon => Bool.false_ne_true (harm.symm.trans hon)
  exact h.keeps_set (harm.trans hoff.symm) (fun hon => absurd hon hne) fun _ _ hon => absurd hon hne

lemma Listed.del (h : s.Listed) (i : ι) : s.Keeps (s.del i) := by
  rw [VbellList.del]
  cases harm : (s.vbell i).arm with
  | false => exact h.keeps_of_off harm harm
  | true => exact h.keeps_del harm rfl

lemma Listed.readd (h : s.Listed) (i : ι) : s.Keeps (s.readd i) := by
  rw [VbellList.readd]
  split
  · exact h.keeps_self
  · next halive =>
    split
    · exact h.keeps_self
    · next harm =>
      rw [Bool.not_eq_true] at harm
      split
      · exact h.keeps_of_off harm harm
      · next hseq => exact h.keeps_add harm rfl (by simpa using halive) (by simpa using hseq)

lemma Listed.addClear (h : s.Listed) (i : ι) : s.Keeps (s.addClear i) := by
  rw [VbellList.addClear]
  split
  · exact h.keeps_self
  · next halive =>
    split
    · exact h.keeps_self
    · next harm => exact h.keeps_add (Bool.eq_false_iff.2 harm) rfl (by simpa using halive) rfl

lemma Listed.trigger (h : s.Listed) (i : ι) : s.Keeps (s.trigger i) := by
  rw [VbellList.trigger]
  split
  · exact h.keeps_self
  · split
    · next harm => exact h.keeps_del harm rfl
    · next harm =>
      rw [Bool.not_eq_true] at harm
      exact h.keeps_of_off harm harm

end

/-! ## The loop over the list -/

section
variable {s : VbellList ι}

lemma fireLoop_spec {l : List ι} (h : s.Listed) (hl : l.Nodup)
    (harm : ∀ i ∈ l, (s.vbell i).arm = true) :
    ∃ t, fireLoop l s = some t ∧ t.head = s.head ∧ t.Listed ∧
      (∀ i ∈ l, t.vbell i = (vbellHeadFireLocked s.head (s.vbell i)).2) ∧
      ∀ i, i ∉ l → t.vbell i = s.vbell i := by
  induction l generalizing s with
  | nil => exact ⟨s, rfl, rfl, h, fun i hi => absurd hi List.not_mem_nil, fun i _ => rfl⟩
  | cons i l ih =>
    obtain ⟨hi, hl⟩ := List.nodup_cons.1 hl
    have hon := harm i List.mem_cons_self
    have harm' : ∀ j ∈ l, (s.vbell j).arm = true := fun j hj => harm j (List.mem_cons_of_mem i hj)
    rw [fireLoop]
    cases hen : (s.vbell i).enabled with
    | false =>
      obtain ⟨t, ht, hhead, hlisted, hin, hout⟩ := ih h hl harm'
      refine ⟨t, ht, hhead, hlisted, List.forall_mem_cons.2 ⟨?_, hin⟩, fun j hj => ?_⟩
      · rw [hout i hi, vbellHeadFireLocked, hen, Bool.and_false]
        rfl
      · exact hout j fun hj' => hj (List.mem_cons_of_mem i hj')
    | true =>
      -- the entry is taken off, and the rest of the list does not have it
      let fired := { s.vbell i with arm := false, seq := s.head.seq }
      obtain ⟨u, hu, huhead, huvbell, hset⟩ := h.listDel hon (show fired.arm = false from rfl)
      have hother : ∀ j, j ≠ i → (u.set i fired).vbell j = s.vbell j := fun j hj =>
        (update_of_ne hj _ _).trans (congrFun huvbell j)
      have hne : ∀ j ∈ l, j ≠ i := fun j hj heq => hi (heq ▸ hj)
      obtain ⟨t, ht, hhead, hlisted, hin, hout⟩ := ih hset hl fun j hj => by
        rw [hother j (hne j hj)]
        exact harm' j hj
      refine ⟨t, ?_, hhead.trans huhead, hlisted,
        List.forall_mem_cons.2 ⟨?_, fun j hj => ?_⟩, fun j hj => ?_⟩
      · rw [Bool.not_true, if_neg Bool.false_ne_true, hu, Option.bind_some]
        exact ht
      · rw [hout i hi, vbellHeadFireLocked, if_pos (Bool.and_eq_true_iff.2 ⟨hon, hen⟩)]
        exact update_self _ _ _
      · rw [hin j hj, hother j (hne j hj)]
        exact congrArg (fun head => (vbellHeadFireLocked head (s.vbell j)).2) huhead
      · obtain ⟨hji, hjl⟩ := not_or.1 (mt List.mem_cons.2 hj)
        rw [hout j hjl, hother j hji]

lemma headFireLocked_spec (h : s.Listed) :
    ∃ t, s.headFireLocked = some t ∧ t.head = s.head ∧ t.Listed ∧
      ∀ i, t.vbell i = (vbellHeadFireLocked s.head (s.vbell i)).2 := by
  have hnodup : s.list.Nodup := List.nodup_iff_count_le_one.2 fun i => by
    rw [h.count]
    split <;> decide
  obtain ⟨t, ht, hhead, hlisted, hin, hout⟩ := fireLoop_spec h hnodup fun i => (h.mem_iff i).1
  refine ⟨t, ht, hhead, hlisted, fun i => ?_⟩
  by_cases hi : i ∈ s.list
  · exact hin i hi
  · rw [hout i hi]
    rw [h.mem_iff, Bool.not_eq_true] at hi
    rw [vbellHeadFireLocked, hi]
    rfl

lemma Listed.headFireLocked {r : VbellList ι} (h : s.Listed) (hlist : r.list = s.list)
    (hvbell : r.vbell = s.vbell) : s.Keeps r.headFireLocked := by
  have hr : r.Listed := ⟨by rw [hlist, hvbell]; exact h.count, by rw [hlist, hvbell]; exact h.dead⟩
  obtain ⟨t, ht, -, hlisted, hfired⟩ := headFireLocked_spec hr
  refine ⟨t, ht, hlisted, fun _ i hen harm => ?_⟩
  rw [hfired, vbellHeadFireLocked] at hen harm
  split at harm
  · cases harm
  · next hnot =>
    rw [if_neg hnot] at hen
    exact absurd (Bool.and_eq_true_iff.2 ⟨harm, hen⟩) hnot

/-! ## Any sequence of operations -/

lemma Listed.exec (h : s.Listed) (op : VbellListOp ι) :
    ∃ t, s.exec op = some t ∧ t.Listed ∧ (s.Seen → (t.Seen ↔ s.EnablesSeen op)) := by
  have hkept : ∀ {res : Option (VbellList ι)}, s.Keeps res →
      ∃ t, res = some t ∧ t.Listed ∧ (s.Seen → (t.Seen ↔ True)) := fun ⟨t, ht, hlisted, hseen⟩ =>
    ⟨t, ht, hlisted, fun hs => iff_true_intro (hseen hs)⟩
  cases op with
  | enable i =>
    refine ⟨_, rfl, h.set (h.count i) (fun _ _ => rfl) h.alive, fun hseen =>
      (seen_set_iff hseen rfl rfl).trans ?_⟩
    exact ⟨fun hv => hv rfl, fun hv _ => hv⟩
  | disable => exact hkept (h.keeps_set rfl h.alive fun _ hen => absurd hen Bool.false_ne_true)
  | clear => exact hkept (h.keeps_set rfl h.alive fun _ _ _ => rfl)
  | del i => exact hkept (h.del i)
  | readd i => exact hkept (h.readd i)
  | addClear i => exact hkept (h.addClear i)
  | trigger i => exact hkept (h.trigger i)
  | headFire =>
    simp only [VbellList.exec, headFire]
    split
    · exact hkept h.keeps_self
    · split
      · exact hkept h.keeps_self
      · exact hkept (h.headFireLocked rfl rfl)
  | headEnable => exact hkept (h.headFireLocked rfl rfl)
  | headDisable => exact hkept (h.headFireLocked rfl rfl)

lemma start_listed : (start : VbellList ι).Listed :=
  ⟨fun _ => rfl, fun _ _ => List.not_mem_nil⟩

end

/-- A doorbell is listed once while armed and never if dead; an enabled and armed one has always
seen the sequence of the head exactly if none is enabled that has not. -/
theorem vbellList_inv_iff (ops : List (VbellListOp ι)) :
    Always exec Listed start ops ∧ (Always exec Seen start ops ↔
      Each exec EnablesSeen start ops) := by
  constructor
  · refine Each.always (Q := fun _ _ => True) (fun _ h => h) (fun s op h _ => ?_) start_listed ?_
    · obtain ⟨t, ht, hlisted, -⟩ := h.exec op
      exact ⟨t, ht, hlisted⟩
    · exact Each.of_forall fun _ _ => trivial
  · refine always_iff_each (I := fun s : VbellList ι => s.Listed ∧ s.Seen) (fun _ h => h.2)
      (fun s op h hop => ?_) (fun s op t h hop hexec hseen => ?_) ⟨start_listed, nofun⟩ ops
    · obtain ⟨t, ht, hlisted, hseen⟩ := h.1.exec op
      exact ⟨t, ht, hlisted, (hseen h.2).2 hop⟩
    · obtain ⟨u, hu, -, hiff⟩ := h.1.exec op
      cases hexec.symm.trans hu
      exact hop ((hiff h.2).1 hseen)

/-- A doorbell that is disabled while armed is skipped by a fire, and enabled again with the old
sequence. -/
theorem vbellList_skipped :
    ([.headEnable, .addClear 0, .disable 0, .headFire 1, .enable 0].foldlM exec
      (start : VbellList Nat)).map
        (fun s => (s.list, s.vbell 0, s.head.seq)) = some ([0], ⟨0, true, true, true⟩, 1) ∧
      ¬ Always exec Seen (start : VbellList Nat)
        [.headEnable, .addClear 0, .disable 0, .headFire 1, .enable 0] := by
  have hrun : ([.headEnable, .addClear 0, .disable 0, .headFire 1, .enable 0].foldlM exec
      (start : VbellList Nat)).map (fun s => (s.list, s.vbell 0, s.head.seq)) =
        some ([0], ⟨0, true, true, true⟩, 1) := by
    decide
  refine ⟨hrun, fun halways => ?_⟩
  obtain ⟨t, ht, hseen⟩ := halways.foldlM
  rw [ht, Option.map_some, Option.some.injEq, Prod.mk.injEq, Prod.mk.injEq] at hrun
  have hseq := hseen 0
  rw [hrun.2.1, hrun.2.2] at hseq
  exact absurd (hseq rfl rfl) (by decide)

end VbellList

end Ntrdma
