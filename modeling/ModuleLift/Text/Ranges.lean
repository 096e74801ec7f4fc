import ModuleLift.Text.Letter

/-! Membership of a letter in a table of code point ranges. -/

namespace ModuleLift.Text

/-- A table of code point ranges, both ends included. -/
abbrev Ranges := List (Nat × Nat)

/-- Whether the letter's code point lies in one of the ranges. -/
def Ranges.holds (table : Ranges) (l : Letter) : Bool :=
  table.any fun (low, high) => low ≤ l.code && l.code ≤ high

end ModuleLift.Text
