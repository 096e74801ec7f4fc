import ModuleLift.Tree.Basic

/-! The walk over a statement that finds references: which fields it enters, and what it meets. -/

namespace ModuleLift.Tree

/-- The fields that hold notes on a node and no part of the program. -/
def isNoteKey (key : String) : Bool :=
  ["loc", "range", "comments", "errors", "leadingComments", "modified", "span"].contains key

/-- Whether the walk enters a field of a node. It passes over notes, labels, and names that stand
for a property: those after a dot and those before a colon. -/
def entersField (kind : Option String) (computed : Bool) (key : String) : Bool :=
  !(isNoteKey key || key == "label" ||
    (key == "property" && !computed &&
      (kind == some "MemberExpression" || kind == some "MetaProperty")) ||
    (key == "key" && !computed && (kind == some "Property" || kind == some "MethodDefinition")))

/-- Whether the computed flag is set among the fields of a node. -/
def computedIn (fields : List (String × Tree)) : Bool :=
  ((fields.lookup "computed").getD .null).isSet

/-- A node the walk meets, and whether it lies below a top-level statement. -/
structure Visit where
  node : Tree
  nested : Bool

mutual

/-- The nodes the walk meets in a value, outer ones first. Identifiers are not entered. -/
def visits (nested : Bool) : Tree → List Visit
  | .list items => visitsAll nested items
  | .node kind mark fields =>
    ⟨.node kind mark fields, nested⟩ ::
      -- Only the program itself has top-level statements right below it.
      (if kind == some "Identifier" then []
      else visitsFields (kind != some "Program") (entersField kind (computedIn fields)) fields)
  | _ => []

/-- The nodes the walk meets in the elements of a list. -/
def visitsAll (nested : Bool) : List Tree → List Visit
  | [] => []
  | t :: rest => visits nested t ++ visitsAll nested rest

/-- The nodes the walk meets in those fields that it enters. -/
def visitsFields (nested : Bool) (enters : String → Bool) : List (String × Tree) → List Visit
  | [] => []
  | (key, value) :: rest =>
    (if enters key then visits nested value else []) ++ visitsFields nested enters rest

end

/-- The names of the identifiers the walk meets. -/
def mentions (t : Tree) : List Text :=
  ((visits false t).filter fun v => v.node.isIdentifier).map fun v => v.node.name

end ModuleLift.Tree
