import ModuleLift.Diff.Script

/-! Differences as text: the changes with some lines around them. -/

namespace ModuleLift.Diff

/-- How many lines are shown around a change. -/
def context : Nat := 3

/-- A stretch, and how many lines stand before it in the two lists. -/
structure Placed where
  old : Nat
  new : Nat
  stretch : Stretch
deriving DecidableEq, Repr, Inhabited

namespace Stretch

/-- The lines of the old list. -/
def oldLines : Stretch → List Line
  | .same lines => lines
  | .change removed _ => removed

/-- The lines of the new list. -/
def newLines : Stretch → List Line
  | .same lines => lines
  | .change _ added => added

/-- Whether the stretch stays. -/
def isSame : Stretch → Bool
  | .same _ => true
  | .change _ _ => false

/-- The lines as they are shown, each with a sign before it. -/
def shown : Stretch → List Line
  | .same lines => lines.map (.char ' ' :: ·)
  | .change removed added => removed.map (.char '-' :: ·) ++ added.map (.char '+' :: ·)

end Stretch

/-- The stretches of a script with their places. -/
def place (old new : Nat) : List Stretch → List Placed
  | [] => []
  | s :: rest =>
    ⟨old, new, s⟩ :: place (old + s.oldLines.length) (new + s.newLines.length) rest

namespace Placed

/-- Where the stretch ends in the old list. -/
def oldEnd (p : Placed) : Nat := p.old + p.stretch.oldLines.length

/-- Where the stretch ends in the new list. -/
def newEnd (p : Placed) : Nat := p.new + p.stretch.newLines.length

/-- Only the last lines of a stretch that stays. -/
def keepEnd (p : Placed) : Placed :=
  match p.stretch with
  | .same lines =>
    -- Lines left out at the front move the place of the rest.
    let dropped := lines.length - context
    ⟨p.old + dropped, p.new + dropped, .same (lines.drop dropped)⟩
  | .change _ _ => p

/-- Only the first lines of a stretch that stays. -/
def keepStart (p : Placed) : Placed :=
  match p.stretch with
  | .same lines => { p with stretch := .same (lines.take context) }
  | .change _ _ => p

/-- Whether so many lines stay that what is before and what is after are shown apart. -/
def divides (p : Placed) : Bool :=
  p.stretch.isSame && 2 * context < p.stretch.oldLines.length

end Placed

/-- The first stretch and the last one with no more lines than are shown. -/
def trim (stretches : List Placed) : List Placed :=
  let headed := match stretches with
    | first :: rest => first.keepEnd :: rest
    | [] => []
  match headed.getLast? with
  | some last => headed.dropLast ++ [last.keepStart]
  | none => []

/-- A group of stretches that are shown together. -/
abbrev Hunk := List Placed

/-- Divides stretches into groups; `current` is the group being made. -/
def groups (current : Hunk) : List Placed → List Hunk
  | [] => if current.all fun p => p.stretch.isSame then [] else [current]
  | p :: rest =>
    -- A long stretch that stays closes one group and opens the next.
    if p.divides then (current ++ [p.keepStart]) :: groups [p.keepEnd] rest
    else groups (current ++ [p]) rest

/-- A range of lines: the number of the first, and how many they are unless it is one. -/
def rangeText (start stop : Nat) : Text :=
  if stop - start = 1 then Text.ofNat (start + 1)
  -- An empty range is named by the line before it.
  else if stop = start then Text.ofNat start ++ ",0"
  else Text.ofNat (start + 1) ++ "," ++ Text.ofNat (stop - start)

/-- A group as text. -/
def hunkText (hunk : Hunk) : Text :=
  match hunk.head?, hunk.getLast? with
  | some first, some last =>
    "@@ -" ++ rangeText first.old last.oldEnd ++ " +" ++ rangeText first.new last.newEnd ++
      " @@\n" ++ hunk.flatMap fun p => p.stretch.shown.flatten
  | _, _ => []

/-- The groups of changes between two lists of lines. -/
def hunks (old new : List Line) : List Hunk := groups [] (trim (place 0 0 (script old new)))

/-- The differences between two lists of lines under the names of their files; nothing if there
are none. -/
def text (oldName newName : Text) (old new : List Line) : Text :=
  match hunks old new with
  | [] => ""
  | all =>
    "--- " ++ oldName ++ "\n+++ " ++ newName ++ "\n" ++ all.flatMap hunkText

end ModuleLift.Diff
