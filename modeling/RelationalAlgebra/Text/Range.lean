/-!
# Sets of characters given by ranges of code points

The character classes of this library are properties of the Unicode character database.  A
property is stored as the list of the ranges of code points that have it, both ends
included, in increasing order.  `inRanges` reads such a list; the properties themselves have
a module each.
-/

namespace RelationalAlgebra.Text

/-- Whether the code point of a character lies in one of the ranges, ends included. -/
def inRanges (ranges : List (Nat × Nat)) (c : Char) : Bool :=
  ranges.any fun r => r.1 ≤ c.toNat && c.toNat ≤ r.2

/-- A character is in a list of ranges exactly when some range of the list holds it. -/
theorem inRanges_iff {ranges : List (Nat × Nat)} {c : Char} :
    inRanges ranges c = true ↔ ∃ r ∈ ranges, r.1 ≤ c.toNat ∧ c.toNat ≤ r.2 := by
  simp [inRanges, List.any_eq_true]

end RelationalAlgebra.Text
