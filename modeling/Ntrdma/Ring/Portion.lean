import Ntrdma.Lib.Mirror
import Ntrdma.Ring.Unrolled

/-!
# Portions of a ring that are sent

A host sends what is new in a ring in portions, with an index behind them. The log that the entries
belong to starts at an arbitrary counter.
-/

namespace Ntrdma
open Lib Ntrdma.Ring

def portion {α : Type} (buf : Nat → α) (start stop : UInt32) : List α :=
  (List.range (stop.toNat - start.toNat)).map fun i => buf (start.toNat + i)

variable {α : Type} {start stop : UInt32}

variable {buf : Nat → α}

lemma portion_length : (portion buf start stop).length = stop.toNat - start.toNat := by
  rw [portion, List.length_map, List.length_range]

lemma portion_getElem? {k : Nat} {a : α} (h : (portion buf start stop)[k]? = some a) :
    k < stop.toNat - start.toNat ∧ a = buf (start.toNat + k) := by
  obtain ⟨i, hi, rfl⟩ := Option.map_eq_some_iff.mp ((List.getElem?_map ..).symm.trans h)
  obtain ⟨hlt, rfl⟩ := List.getElem?_eq_some_iff.mp hi
  rw [List.length_range] at hlt
  exact ⟨hlt, by rw [List.getElem_range]⟩

def logFrom {α : Type} (start : Nat) (l : List α) (n : Nat) : Option α :=
  if n < start then none else l[n - start]?

section
variable {α : Type} {start : Nat} {l : List α}

lemma logFrom_add (i : Nat) : logFrom start l (start + i) = l[i]? := by
  rw [logFrom, if_neg (Nat.not_lt.mpr (Nat.le_add_right ..)), Nat.add_sub_cancel_left]

lemma logFrom_append (more : List α) (n : Nat) (a : α) (h : logFrom start l n = some a) :
    logFrom start (l ++ more) n = some a := by
  rw [logFrom] at h ⊢
  split at h
  · cases h
  next hge => rw [if_neg hge, List.getElem?_append_left (List.getElem?_eq_some_iff.mp h).1, h]

lemma sending_appended {cap idx pos : UInt32} {new : List α}
    (hpos : pos.toNat = (start + l.length) % cap.toNat) (hfits : pos.toNat + new.length ≤ cap.toNat)
    (hidx : Idx cap idx (start + (l ++ new).length)) :
    Sending cap.toNat (Idx cap) (logFrom start (l ++ new)) (start + l.length)
      [.copy pos.toNat new, .index idx] (start + (l ++ new).length) := by
  have hlen : start + (l ++ new).length = start + l.length + new.length := by
    rw [List.length_append, Nat.add_assoc]
  rw [hpos]
  rw [hlen] at hidx ⊢
  refine .copy (Nat.le_refl _) (by omega) (fun k a hk => ?_)
    (.index (Nat.le_add_right ..) hidx .nil)
  rw [Nat.add_assoc, logFrom_add, List.getElem?_append_right (Nat.le_add_right ..),
    Nat.add_sub_cancel_left]
  exact hk

end

lemma sending_portions {cap idx : UInt32} {log : Nat → Option α} {copies : List (UInt32 × UInt32)}
    {n m seen : Nat} (h : Portions cap copies n m) (hshows : Shows cap.toNat log buf n m)
    (hidx : Idx cap idx m) (hseen : seen ≤ n) :
    Flight cap.toNat (Idx cap) log n seen
      (copies.map (fun c => .copy c.1.toNat (portion buf c.1 c.2)) ++ [.index idx]) m := by
  induction h with
  | nil => exact .index hseen hidx .nil
  | @cons start stop _ n k _ hstart _ _ _ hrest ih =>
    have hle := hrest.le
    have hlen : (portion buf start stop).length = k := by rw [portion_length]; omega
    rw [List.map_cons, List.cons_append]
    dsimp only
    rw [hstart]
    refine .copy hseen (by omega) (fun j a hj => ?_) ?_
    · obtain ⟨hlt, rfl⟩ := portion_getElem? hj
      have hslot := mod_add_cases n j (show j < cap.toNat by omega)
      rw [hshows (n + j) (by omega) (by omega), show (n + j) % cap.toNat = start.toNat + j by omega]
    · rw [hlen]
      exact ih (fun j hj => hshows j (by omega)) hidx (by omega)

lemma sending_portion {cap idx start stop : UInt32} {log : Nat → Option α} {n m : Nat}
    (h : Shows cap.toNat log buf n m) (hstart : start.toNat = n % cap.toNat)
    (hstop : stop.toNat = start.toNat + (m - n)) (hfits : stop.toNat ≤ cap.toNat) (hlt : n < m)
    (hidx : Idx cap idx m) :
    Sending cap.toNat (Idx cap) log n [.copy start.toNat (portion buf start stop),
      .index idx] m := by
  have hone : Portions cap [(start, stop)] n (n + (m - n)) :=
    .cons hstart hstop (by omega) hfits (.nil _)
  rw [Nat.add_sub_cancel' hlt.le] at hone
  exact sending_portions hone h hidx (Nat.le_refl n)

end Ntrdma
