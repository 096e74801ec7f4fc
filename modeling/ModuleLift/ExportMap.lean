import ModuleLift.Dictionary
import ModuleLift.Tree.Basic

/-! Object literals and patterns as lists of named entries. -/

namespace ModuleLift

/-- Whether a letter can stand first in a plain name. -/
def startsPlainName (c : Letter) : Bool := c.isAlpha || c = '_' || c = '$'

/-- Whether a letter can stand further on in a plain name. -/
def continuesPlainName (c : Letter) : Bool := startsPlainName c || c.isDigit

/-- A text without the newline at its end, if it has one. -/
def dropFinalNewline (text : Text) : Text :=
  if text.getLast? = some (.char '\n') then text.dropLast else text

/-- Whether a quoted key can be written as a name: a plain name, or one followed by a newline. -/
def isPlainKey (key : Text) : Bool :=
  match dropFinalNewline key with
  | [] => false
  | first :: rest => startsPlainName first && rest.all continuesPlainName

/-- The name a property key stands for. -/
def propertyKey? (key : Tree) : Option Text :=
  if key.isIdentifier then some key.name
  else key.stringValue?.filter isPlainKey

/-- The key and the local name of a property of a flat pattern. -/
def patternPair? (property : Tree) : Option (Text × Text) :=
  if property.isA "Property" && !(property.get "computed").isSet then
    match propertyKey? (property.get "key") with
    | some key =>
      if (property.get "value").isIdentifier then some (key, (property.get "value").name) else none
    | none => none
  else none

/-- The keys and local names of a flat pattern such as `{ a, b: c }`; no other pattern has any. -/
def patternPairs? (pattern : Tree) : Option (List (Text × Text)) :=
  (pattern.get "properties").items.mapM patternPair?

/-- The entries of an object literal: keys, each with the local name that is its value if the value
is a plain name. -/
structure ExportMap where
  entries : List (Text × Option Text)
deriving DecidableEq, Repr, Inhabited

namespace ExportMap

/-- The entry a property makes. Only properties of the plain `key: value` kind make one. -/
def ofProperty? (property : Tree) : Option (Text × Option Text) :=
  if property.isA "Property" && !(property.get "computed").isSet &&
      !(property.get "method").isSet && (property.get "kind").isText "init" then
    (propertyKey? (property.get "key")).map fun key =>
      (key, if (property.get "value").isIdentifier then some (property.get "value").name else none)
  else none

/-- The entries of an object literal, if all its properties make one. -/
def ofObject? (value : Tree) : Option ExportMap :=
  ((value.get "properties").items.mapM ofProperty?).map ExportMap.mk

/-- The values gathered by key: an entry takes over the place of an earlier one with its key. -/
def latest (m : ExportMap) : Dictionary Text (Option Text) :=
  -- The value is replaced also if the later one is no name.
  m.entries.foldl (fun gathered entry => gathered.insert entry.1 entry.2) {}

/-- The local and exported names of the entries that can be exported by name. -/
def namedExports (m : ExportMap) : List (Text × Text) :=
  m.latest.entries.filterMap fun (entry : Text × Option Text) =>
    -- The object as a whole is the default export.
    if entry.1 = "default" then none else entry.2.map fun bound => (bound, entry.1)

end ExportMap

end ModuleLift
