import Mathlib.Data.List.Perm.Basic
import Mathlib.Data.List.Pairwise

/-!
# Partitions of an interval

Chunks of an address space, given by their start and their size. A list of chunks partitions an
interval if they are disjoint and cover it exactly. The order of the list does not matter, so a
chunk can move between the parts of a list; the interval grows by a chunk at its end.
-/

namespace Ntrdma.Lib

def InChunk (c : Nat × Nat) (x : Nat) : Prop := c.1 ≤ x ∧ x < c.1 + c.2

def Apart (c d : Nat × Nat) : Prop := ∀ x, InChunk c x → ¬ InChunk d x

lemma Apart.symm {c d : Nat × Nat} (h : Apart c d) : Apart d c := fun x hd hc => h x hc hd

/-- The chunks are disjoint, and an address lies in one of them exactly if it lies in the
interval. -/
structure Partition (cs : List (Nat × Nat)) (a b : Nat) : Prop where
  disjoint : cs.Pairwise Apart
  cover : ∀ x, (∃ c ∈ cs, InChunk c x) ↔ a ≤ x ∧ x < b

namespace Partition
variable {cs cs' : List (Nat × Nat)} {a b : Nat}

lemma nil (a : Nat) : Partition [] a a := by
  refine ⟨List.Pairwise.nil, fun x => iff_of_false ?_ ?_⟩
  · rintro ⟨c, hc, -⟩
    cases hc
  · omega

lemma perm (h : Partition cs a b) (hperm : cs.Perm cs') : Partition cs' a b := by
  refine ⟨(hperm.pairwise_iff Apart.symm).1 h.disjoint, fun x => ?_⟩
  rw [← h.cover x]
  exact exists_congr fun c => and_congr_left fun _ => hperm.mem_iff.symm

lemma bounds (h : Partition cs a b) {c : Nat × Nat} (hc : c ∈ cs) (hpos : 0 < c.2) :
    a ≤ c.1 ∧ c.1 + c.2 ≤ b := by
  have hfirst := (h.cover c.1).1 ⟨c, hc, Nat.le_refl _, by omega⟩
  have hlast := (h.cover (c.1 + c.2 - 1)).1 ⟨c, hc, by omega, by omega⟩
  omega

lemma grow (h : Partition cs a b) (hab : a ≤ b) (n : Nat) : Partition ((b, n) :: cs) a (b + n) := by
  refine ⟨List.pairwise_cons.2 ⟨fun c hc x hx hxc => ?_, h.disjoint⟩, fun x => ?_⟩
  · have hin := (h.cover x).1 ⟨c, hc, hxc⟩
    have hge : b ≤ x := hx.1
    omega
  · have hcover := h.cover x
    rw [List.exists_mem_cons_iff, hcover, InChunk]
    dsimp only
    omega

lemma sublist (h : Partition cs a b) (hsub : cs'.Sublist cs) :
    cs'.Pairwise Apart := h.disjoint.sublist hsub

end Partition

end Ntrdma.Lib
