import ModuleLift.Diagnostic
import ModuleLift.Loader
import ModuleLift.Tree.Build
import ModuleLift.Tree.Walk

/-! Calls of `require` below the top level: they stay, with a comment that says so. -/

namespace ModuleLift.Tree

/-- Whether a node is a declaration or an expression statement made of a call of `require`. -/
def holdsLoader (t : Tree) : Bool :=
  if t.isA "VariableDeclaration" then
    (t.get "declarations").items.any fun d => (Loader.classify (d.get "init")).isSome
  else if t.isA "ExpressionStatement" then (Loader.classify (t.get "expression")).isSome
  else false

/-- The nodes below a top-level statement that hold a call of `require`. -/
def buried (t : Tree) : List Tree :=
  ((visits false t).filter fun v => v.nested && v.node.holdsLoader).map (·.node)

/-- The reports on the calls of `require` below a top-level statement. -/
def buriedDiagnostics (t : Tree) : List Diagnostic :=
  t.buried.map (Diagnostic.about .nestedRequire)

mutual

/-- A value with a comment before each buried call of `require`, and whether one was added. The
nodes above an added comment are flagged, so that their text is put together anew. -/
def annotate (marker : Text) (nested : Bool) : Tree → Tree × Bool
  | .list items =>
    let (items, added) := annotateAll marker nested items
    (.list items, added)
  | .node kind mark fields =>
    -- A name holds nothing below it.
    if kind == some "Identifier" then (.node kind mark fields, false)
    else
      let here := nested && holdsLoader (.node kind mark fields)
      -- Below the program itself lie the top-level statements, which are not buried.
      let (inner, below) :=
        annotateFields marker (kind != some "Program") (entersField kind (computedIn fields)) fields
      let commented := if here then mark.addComment marker else mark
      (.node kind { commented with modified := mark.modified || below } inner,
        -- A second run finds its own comment and adds none.
        (here && !mark.comments.contains marker) || below)
  | other => (other, false)

/-- The elements of a list with comments, and whether one was added. -/
def annotateAll (marker : Text) (nested : Bool) : List Tree → List Tree × Bool
  | [] => ([], false)
  | t :: rest =>
    let (t, here) := annotate marker nested t
    let (rest, later) := annotateAll marker nested rest
    (t :: rest, here || later)

/-- The fields that the walk enters with comments, and whether one was added. -/
def annotateFields (marker : Text) (nested : Bool) (enters : String → Bool) :
    List (String × Tree) → List (String × Tree) × Bool
  | [] => ([], false)
  | (key, value) :: rest =>
    let (value, here) := if enters key then annotate marker nested value else (value, false)
    let (rest, later) := annotateFields marker nested enters rest
    ((key, value) :: rest, here || later)

end

end ModuleLift.Tree
