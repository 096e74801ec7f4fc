import ModuleLift.Text.Letter

/-! Names that are not taken yet. -/

namespace ModuleLift

/-- Puts underscores before a name until it is not taken, at most `turns` of them. -/
def freshWithin (taken : List Text) : Nat → Text → Text
  | 0, name => name
  | turns + 1, name =>
    if taken.contains name then freshWithin taken turns ("_" ++ name) else name

/-- The name itself if it is not taken, else with as few underscores before it as make it so. -/
def freshName (base : Text) (taken : List Text) : Text :=
  -- Each turn tries a longer name, so one turn per taken name is enough.
  freshWithin taken taken.length base

end ModuleLift
