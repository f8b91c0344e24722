import Ntrdma.Lib.Cyclic

/-!
# A ring mirrored over a channel

A writer appends entries to a log and sends them in portions, followed by the index it got to. A
reader at the other end of a channel that keeps the order stores the portions into its own copy of
the ring. The log has the entry of every counter so far. A slot is a counter modulo the number of
slots, and what an index says about a counter is a parameter.

`Mirror` is the invariant: the reader finds every entry between its own counter and the last index
it saw in its copy of the ring. It is kept by whatever either side does, as long as the writer is
not more than one revolution ahead of the reader.
-/

namespace Ntrdma.Lib

section
variable {ε ι : Type} {c : Nat} {stands : ι → Nat → Prop} {log : Nat → Option ε} {slots : Nat → ε}

/-- A message: entries for consecutive slots, or an index. -/
inductive RingMsg (ε ι : Type) where
  | copy (start : Nat) (entries : List ε)
  | index (idx : ι)

def store (slots : Nat → ε) (start : Nat) (entries : List ε) : Nat → ε :=
  fun k => if start ≤ k then (entries[k - start]?).getD (slots k) else slots k

lemma store_inside {start k : Nat} {entries : List ε} {a : ε} (h : entries[k]? = some a) :
    store slots start entries (start + k) = a := by
  rw [store, if_pos (Nat.le_add_right ..), Nat.add_sub_cancel_left, h, Option.getD_some]

lemma store_outside {start k : Nat} {entries : List ε}
    (h : k < start ∨ start + entries.length ≤ k) : store slots start entries k = slots k := by
  rw [store]
  split
  · rw [List.getElem?_eq_none (by omega), Option.getD_none]
  · rfl

/-- The slots show the entries of the log from one counter up to another. -/
def Shows (c : Nat) (log : Nat → Option ε) (slots : Nat → ε) (lo hi : Nat) : Prop :=
  ∀ k, lo ≤ k → k < hi → log k = some (slots (k % c))

lemma Shows.nil {n : Nat} : Shows c log slots n n :=
  fun _ hlo hhi => absurd (hlo.trans_lt hhi) (Nat.lt_irrefl _)

lemma Shows.push {log' : Nat → Option ε} {lo hi : Nat} {a : ε} (h : Shows c log slots lo hi)
    (hlo : lo ≤ hi) (hroom : hi < lo + c) (hmono : ∀ k a, log k = some a → log' k = some a)
    (hnew : log' hi = some a) : Shows c log' (Function.update slots (hi % c) a) lo (hi + 1) := by
  intro k hk hlt
  rcases Nat.lt_or_ge k hi with hold | hge
  · have hne : k % c ≠ hi % c := fun heq => absurd (slot_inj hk (by omega) hlo hroom heq) hold.ne
    rw [Function.update_of_ne hne]
    exact hmono _ _ (h k hk hold)
  · obtain rfl : k = hi := by omega
    rw [Function.update_self, hnew]

/-- The messages under way bring a reader with the entries up to `copied` and the index `seen` to
everything that was sent. -/
inductive Flight (c : Nat) (stands : ι → Nat → Prop) (log : Nat → Option ε) :
    Nat → Nat → List (RingMsg ε ι) → Nat → Prop where
  | nil {n} : Flight c stands log n n [] n
  | copy {copied seen entries msgs sent} : seen ≤ copied → copied % c + entries.length ≤ c →
    (∀ k a, entries[k]? = some a → log (copied + k) = some a) →
    Flight c stands log (copied + entries.length) seen msgs sent →
    Flight c stands log copied seen (.copy (copied % c) entries :: msgs) sent
  | index {copied seen idx msgs sent} : seen ≤ copied → stands idx copied →
    Flight c stands log copied copied msgs sent →
      Flight c stands log copied seen (.index idx :: msgs) sent

/-- What a writer sends to get from one counter to another. -/
abbrev Sending (c : Nat) (stands : ι → Nat → Prop) (log : Nat → Option ε) (n : Nat)
    (msgs : List (RingMsg ε ι)) (m : Nat) : Prop := Flight c stands log n n msgs m

section
variable {copied seen sent sent' : Nat} {msgs new : List (RingMsg ε ι)}

lemma Flight.le (h : Flight c stands log copied seen msgs sent) :
    seen ≤ copied ∧ copied ≤ sent := by
  induction h with
  | nil => exact ⟨Nat.le_refl _, Nat.le_refl _⟩
  | copy hle => exact ⟨hle, by omega⟩
  | index hle _ _ ih => exact ⟨hle, ih.2⟩

lemma Flight.log_mono {log' : Nat → Option ε} (h : Flight c stands log copied seen msgs sent)
    (hmono : ∀ k a, log k = some a → log' k = some a) :
    Flight c stands log' copied seen msgs sent := by
  induction h with
  | nil => exact .nil
  | copy hle hfits hentries _ ih =>
    exact .copy hle hfits (fun k a hk => hmono _ _ (hentries k a hk)) ih
  | index hle hidx _ ih => exact .index hle hidx ih

lemma Flight.send (h : Flight c stands log copied seen msgs sent)
    (hnew : Sending c stands log sent new sent') :
    Flight c stands log copied seen (msgs ++ new) sent' := by
  induction h with
  | nil => exact hnew
  | copy hle hfits hentries _ ih => exact .copy hle hfits hentries (ih hnew)
  | index hle hidx _ ih => exact .index hle hidx (ih hnew)

end

/-- A reader at the counter `lo` that saw the index `seen` of a writer that sent up to `sent`. -/
structure Mirror (c : Nat) (stands : ι → Nat → Prop) (log : Nat → Option ε)
    (slots : Nat → ε) (idx : ι)
    (msgs : List (RingMsg ε ι)) (lo seen sent : Nat) : Prop where
  idx : stands idx seen
  lo_le : lo ≤ seen
  flight : ∃ copied, Shows c log slots lo copied ∧ Flight c stands log copied seen msgs sent

section
variable {idx : ι} {msgs : List (RingMsg ε ι)} {lo seen sent : Nat}

lemma Mirror.seen_le (h : Mirror c stands log slots idx msgs lo seen sent) : seen ≤ sent := by
  obtain ⟨copied, -, hflight⟩ := h.flight
  exact hflight.le.1.trans hflight.le.2

lemma Mirror.seen_eq (h : Mirror c stands log slots idx [] lo seen sent) : seen = sent := by
  obtain ⟨copied, -, hflight⟩ := h.flight
  cases hflight
  rfl

lemma Mirror.entry {k : Nat} (h : Mirror c stands log slots idx msgs lo seen sent) (hlo : lo ≤ k)
    (hseen : k < seen) : log k = some (slots (k % c)) := by
  obtain ⟨copied, hshows, hflight⟩ := h.flight
  exact hshows k hlo (hseen.trans_le hflight.le.1)

lemma Mirror.advance {lo' : Nat} (h : Mirror c stands log slots idx msgs lo seen sent)
    (hlo : lo ≤ lo') (hle : lo' ≤ seen) : Mirror c stands log slots idx msgs lo' seen sent := by
  obtain ⟨copied, hshows, hflight⟩ := h.flight
  exact ⟨h.idx, hle, copied, fun k hk => hshows k (hlo.trans hk), hflight⟩

lemma Mirror.log_mono {log' : Nat → Option ε} (h : Mirror c stands log slots idx msgs lo seen sent)
    (hmono : ∀ k a, log k = some a → log' k = some a) :
    Mirror c stands log' slots idx msgs lo seen sent := by
  obtain ⟨copied, hshows, hflight⟩ := h.flight
  exact ⟨h.idx, h.lo_le, copied, fun k hlo hk =>
    hmono _ _ (hshows k hlo hk), hflight.log_mono hmono⟩

lemma Mirror.send {new : List (RingMsg ε ι)} {sent' : Nat}
    (h : Mirror c stands log slots idx msgs lo seen sent)
    (hnew : Sending c stands log sent new sent') :
    Mirror c stands log slots idx (msgs ++ new) lo seen sent' := by
  obtain ⟨copied, hshows, hflight⟩ := h.flight
  exact ⟨h.idx, h.lo_le, copied, hshows, hflight.send hnew⟩

/-- A portion overwrites no entry that the reader still needs: it was sent less than a revolution
later. -/
lemma Mirror.deliver_copy {start : Nat} {entries : List ε}
    (h : Mirror c stands log slots idx (.copy start entries :: msgs) lo seen sent)
    (hfull : sent ≤ lo + c) :
    Mirror c stands log (store slots start entries) idx msgs lo seen sent := by
  obtain ⟨copied, hshows, hflight⟩ := h.flight
  cases hflight with
  | copy _ _ hentries hrest =>
    have hsent := hrest.le.2
    have hlo := h.lo_le
    refine ⟨h.idx, hlo, _, fun k hk hlt => ?_, hrest⟩
    -- the slot of a counter of the portion
    have hslot : ∀ i, i < entries.length → (copied + i) % c = copied % c + i := by
      intro i hi
      have hmod := Nat.mod_lt copied (show 0 < c by omega)
      have hcases := mod_add_cases copied i (show i < c by omega)
      omega
    rcases Nat.lt_or_ge k copied with hold | hnew
    · rw [store_outside, ← hshows k hk hold]
      by_contra hinside
      push Not at hinside
      have hi : k % c - copied % c < entries.length := by omega
      have heq := hslot _ hi
      have hsame : k % c = (copied + (k % c - copied % c)) % c := by omega
      have := slot_inj hk (by omega) (by omega) (by omega) hsame
      omega
    · obtain ⟨i, rfl⟩ := Nat.exists_eq_add_of_le hnew
      have hi : i < entries.length := by omega
      have hentry := List.getElem?_eq_getElem hi
      rw [hslot i hi, store_inside hentry]
      exact hentries i _ hentry

lemma Mirror.deliver_index {idx' : ι}
    (h : Mirror c stands log slots idx (.index idx' :: msgs) lo seen sent) :
    ∃ seen', seen ≤ seen' ∧ Mirror c stands log slots idx' msgs lo seen' sent := by
  obtain ⟨copied, hshows, hflight⟩ := h.flight
  cases hflight with
  | index hle hidx hrest => exact ⟨copied, hle, hidx, h.lo_le.trans hle, copied, hshows, hrest⟩

lemma Mirror.start {n : Nat} (hidx : stands idx n) : Mirror c stands log slots idx [] n n n :=
  ⟨hidx, Nat.le_refl _, n, .nil, .nil⟩

end

end

end Ntrdma.Lib
