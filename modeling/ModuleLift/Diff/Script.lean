import ModuleLift.Text.Letter

/-! How one list of lines becomes another: stretches that stay, and stretches that change. -/

namespace ModuleLift.Diff

/-- A line with what ends it. -/
abbrev Line := Text

/-- A stretch of an edit script. -/
inductive Stretch where
  | same (lines : List Line)
  | change (removed added : List Line)
deriving DecidableEq, Repr, Inhabited

/-- A run of lines that two lists have in common: where it starts in each, and its length. -/
structure Run where
  old : Nat
  new : Nat
  size : Nat
deriving DecidableEq, Repr, Inhabited

/-- How many lines two lists have in common at their start. -/
def commonLength : List Line → List Line → Nat
  | x :: xs, y :: ys => if x = y then commonLength xs ys + 1 else 0
  | _, _ => 0

/-- For each place in the new list, how many lines up to and including it agree with those up to
the given one; `above` holds the same for the line before. Lines that do not count agree with
none. -/
def agreements (counts : Line → Bool) (x : Line) (above : List Nat) (new : List Line) : List Nat :=
  -- A run that ends here continues one that ended a line earlier in both lists.
  List.zipWith (fun before y => if x = y && counts y then before + 1 else 0) (0 :: above) new

/-- The better of the best run so far and the runs that end at a line; the earlier one wins. -/
def pick (row : Nat) : Nat → List Nat → Run → Run
  | _, [], best => best
  | column, size :: rest, best =>
    pick row (column + 1) rest
      -- Only a longer run takes the place of one found earlier.
      (if best.size < size then ⟨row + 1 - size, column + 1 - size, size⟩ else best)

/-- The longest run of lines that count, the first in the old list, then in the new. -/
def longestFrom (counts : Line → Bool) (new : List Line) :
    Nat → List Nat → List Line → Run → Run
  | _, _, [], best => best
  | row, above, x :: rest, best =>
    let here := agreements counts x above new
    longestFrom counts new (row + 1) here rest (pick row 0 here best)

/-- The run made longer on both sides by lines that agree, whether they count or not. -/
def extend (old new : List Line) (run : Run) : Run :=
  let before := commonLength (old.take run.old).reverse (new.take run.new).reverse
  let after := commonLength (old.drop (run.old + run.size)) (new.drop (run.new + run.size))
  ⟨run.old - before, run.new - before, before + run.size + after⟩

/-- The run around which two lists are compared. -/
def longestRun (counts : Line → Bool) (old new : List Line) : Run :=
  extend old new (longestFrom counts new 0 (new.map fun _ => 0) old ⟨0, 0, 0⟩)

/-- The stretch between two runs; nothing if it is empty. -/
def gap (removed added : List Line) : List Stretch :=
  if removed.isEmpty && added.isEmpty then [] else [.change removed added]

/-- The stretches around the longest run, and so on before it and after it. -/
def compare (counts : Line → Bool) (old new : List Line) : List Stretch :=
  match longestRun counts old new with
  | ⟨start, place, size⟩ =>
    -- What is left on either side of the run is shorter than the whole.
    if _ : 0 < size ∧ start + size ≤ old.length then
      compare counts (old.take start) (new.take place) ++
        .same ((old.drop start).take size) ::
        compare counts (old.drop (start + size)) (new.drop (place + size))
    else gap old new
termination_by old.length
decreasing_by
  all_goals simp only [List.length_take, List.length_drop]; omega

/-- Puts a stretch before others; two that stay become one. -/
def consStretch : Stretch → List Stretch → List Stretch
  | .same lines, .same more :: rest => .same (lines ++ more) :: rest
  | stretch, rest => stretch :: rest

/-- The lines that a long list holds so often that they tell little. -/
def frequentLines (new : List Line) : List Line :=
  -- In a short list every line tells something.
  if new.length < 200 then []
  else new.eraseDups.filter fun line => new.length / 100 + 1 < new.count line

/-- The stretches by which one list of lines becomes another. Frequent lines do not count when
runs are compared. -/
def script (old new : List Line) : List Stretch :=
  let frequent := frequentLines new
  (compare (fun line => !frequent.contains line) old new).foldr consStretch []

end ModuleLift.Diff
