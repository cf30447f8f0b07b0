/-!
# Sets of characters given by code point ranges

A property of characters that is data of a standard is a list of closed ranges of code points.
-/

namespace FormulaCompiler.Text

/-- A set of code points as closed ranges, each with its first and last member. -/
structure CodeRanges where
  ranges : List (Nat × Nat)

namespace CodeRanges

/-- Whether the character's code point lies in one of the ranges. -/
def contains (s : CodeRanges) (c : Char) : Bool :=
  s.ranges.any fun (first, last) => decide (first ≤ c.toNat ∧ c.toNat ≤ last)

theorem contains_iff (s : CodeRanges) (c : Char) :
    s.contains c = true ↔ ∃ r ∈ s.ranges, r.1 ≤ c.toNat ∧ c.toNat ≤ r.2 := by
  simp [contains]

end CodeRanges
end FormulaCompiler.Text
