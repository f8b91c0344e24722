import Mathlib.Tactic

/-!
# Ring indices

Model of `ntrdma_ring.h`: the index arithmetic shared by every ring of the driver. An index of a
ring of `cap` entries runs through `0 .. 2 * cap - 1`, so that a full ring and an empty one differ;
the entry an index names is found by subtracting `cap` from the upper half.

C → Lean naming (drop the `ntrdma_ring_` prefix): `ntrdma_ring_produce` → `produce`,
`ntrdma_ring_consume` → `consume`, `ntrdma_ring_update` → `update`, `ntrdma_ring_count` → `count`,
`ntrdma_ring_space` → `space`, `ntrdma_ring_valid` → `valid`. The three out parameters (`*_idx`,
`*_end`, `base`) become the fields of `Range`. All arithmetic is on `u32`, with wrap-around. The two
`WARN`s of `ntrdma_ring_produce` print and have no other effect; their conditions are `warnsRange`
and `warnsDistance`, the second in C `int`.
-/

namespace Ntrdma.Ring

/-- A contiguous range of ring positions (C `*_idx`, `*_end`, `base`). -/
structure Range where
  pos : UInt32
  stop : UInt32
  base : UInt32

/-- Initialize a range of indices for production (C `ntrdma_ring_produce`). -/
def produce (prod cons cap : UInt32) : Bool × Range :=
  let r : Range :=
    if prod < cap then
      { base := 0, pos := prod, stop := if cons < cap then cap else cons - cap }
    else
      { base := cap, pos := prod - cap, stop := if cons < cap then cons else cap }
  (r.pos != r.stop, r)

/-- An index of the ring is not below `cap << 1` (first `WARN` of `ntrdma_ring_produce`). -/
def warnsRange (prod cons cap : UInt32) : Bool :=
  cap <<< 1 ≤ prod || cap <<< 1 ≤ cons

/-- `prod` is not within `cap` of `cons` (second `WARN` of `ntrdma_ring_produce`). -/
def warnsDistance (prod cons cap : UInt32) : Bool :=
  cap.toInt32 < prod.toInt32 - cons.toInt32 ||
    (prod.toInt32 - cons.toInt32 < 0 && cons.toInt32 - prod.toInt32 < cap.toInt32)

/-- Initialize a range of indices for consumption (C `ntrdma_ring_consume`). -/
def consume (prod cons cap : UInt32) : Range :=
  if cons < cap then
    { base := 0, pos := cons, stop := if prod < cap then prod else cap }
  else
    { base := cap, pos := cons - cap, stop := if prod < cap then cap else prod - cap }

/-- Compute a new index after producing or consuming (C `ntrdma_ring_update`). -/
def update (idx base cap : UInt32) : UInt32 :=
  if idx = cap then cap - base else base + idx

def count (prod cons cap : UInt32) : UInt32 :=
  (if prod < cons then prod + (cap <<< 1) else prod) - cons

def space (prod cons cap : UInt32) : UInt32 :=
  cap + cons - (if prod < cons then prod + (cap <<< 1) else prod)

/-- The ring is valid if `prod` is no more than `cap` entries ahead of `cons`
(C `ntrdma_ring_valid`). -/
def valid (prod cons cap : UInt32) : Bool :=
  if cap <<< 1 ≤ prod then false
  else if cap <<< 1 ≤ cons then false
  else count prod cons cap ≤ cap

end Ntrdma.Ring
