set_option autoImplicit false

/-!
# Sets of characters

A class of characters is a list of code point ranges. The tables of the classes
themselves stand in modules named for the property.
-/

namespace Stencil

/-- The characters whose code points lie in one of the ranges, both ends included. -/
structure CharSet where
  ranges : List (Nat × Nat)

namespace CharSet

def contains (s : CharSet) (c : Char) : Bool :=
  s.ranges.any fun r => decide (r.1 ≤ c.toNat) && decide (c.toNat ≤ r.2)

theorem contains_iff (s : CharSet) (c : Char) :
    s.contains c = true ↔ ∃ r ∈ s.ranges, r.1 ≤ c.toNat ∧ c.toNat ≤ r.2 := by
  simp [contains]

end CharSet

end Stencil
