/-!
# Sets of characters given by ranges of code points

A character property of the Unicode standard is a table of ranges.  This file says what such a
table means; the tables themselves stand beside the functions that need them.

* `CodeRanges` — a list of ranges, both ends included.
* `CodeRanges.contains` — whether a character lies in one of them.
-/

set_option autoImplicit false
namespace KernelRegistry
namespace Text

/-- Ranges of code points, each given by its first and its last member. -/
abbrev CodeRanges := List (Nat × Nat)

/-- Whether one of the ranges holds the character. -/
def CodeRanges.contains (ranges : CodeRanges) (c : Char) : Bool :=
  ranges.any fun range => range.1 ≤ c.toNat && c.toNat ≤ range.2

theorem CodeRanges.contains_iff {ranges : CodeRanges} {c : Char} :
    ranges.contains c = true ↔ ∃ range ∈ ranges, range.1 ≤ c.toNat ∧ c.toNat ≤ range.2 := by
  simp [CodeRanges.contains]

end Text
end KernelRegistry
