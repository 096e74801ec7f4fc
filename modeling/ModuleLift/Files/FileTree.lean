import ModuleLift.Files.Route
import ModuleLift.Text.Utf8

/-! A tree of files and directories, and how paths are followed in it. -/

namespace ModuleLift

/-- What is found at a place. -/
inductive Entry where
  | directory
  | file (bytes : List UInt8)
deriving DecidableEq, Repr, Inhabited

/-- A tree of files. A place is the list of names that leads to it from the root. -/
structure FileTree where
  entries : List (List String × Entry) := []
deriving DecidableEq, Repr, Inhabited

/-- Why a path leads nowhere. -/
inductive Lost where
  /-- Something on the way does not exist. -/
  | missing
  /-- Something on the way is a file. -/
  | notDirectory
  /-- The path, or a name in it, is longer than any can be. -/
  | tooLong
deriving DecidableEq, Repr, Inhabited

namespace FileTree

/-- What is found at a place; the root is a directory. -/
def get (t : FileTree) (place : List String) : Option Entry :=
  if place.isEmpty then some .directory else t.entries.lookup place

/-- The tree with an entry at a place. -/
def put (t : FileTree) (place : List String) (entry : Entry) : FileTree :=
  { entries := (place, entry) :: t.entries.filter fun (other, _) => other != place }

/-- How many bytes a name may have. -/
def nameLimit : Nat := 255

/-- How many bytes a path may have. -/
def pathLimit : Nat := 4095

/-- Follows steps from a place. All but the last must lead to directories; a single dot stays, and
a double dot goes back. -/
def follow (t : FileTree) : List String → List String → Except Lost (List String)
  | place, [] => .ok place
  | place, step :: rest =>
    -- A step can be taken only from a directory, also if it is one back.
    match t.get place with
    | none => .error .missing
    | some (.file _) => .error .notDirectory
    | some .directory =>
      if step = "." then t.follow place rest
      else if step = ".." then t.follow place.dropLast rest
      else if nameLimit < step.utf8ByteSize then .error .tooLong
      else t.follow (place ++ [step]) rest

/-- The steps of a path. One that ends in a slash has to lead to a directory. -/
def steps (path : String) : List String :=
  let named := ((Route.segments path.toList).map String.ofList).filter (· ≠ "")
  -- The step that stays can be taken only in a directory.
  if Path.endsInSlash path then named ++ ["."] else named

/-- The place a path leads to from a working directory. -/
def locate (t : FileTree) (workingDirectory : List String) (path : String) :
    Except Lost (List String) :=
  if pathLimit < path.utf8ByteSize then .error .tooLong
  else t.follow (if path.toList.head? = some '/' then [] else workingDirectory) (steps path)

/-- What a path leads to. -/
def find (t : FileTree) (workingDirectory : List String) (path : String) : Except Lost Entry := do
  let place ← t.locate workingDirectory path
  match t.get place with
  | some entry => return entry
  | none => throw .missing

/-- The bytes of a letter in the name of a file. The halves from U+DC80 to U+DCFF stand for single
bytes; no other half can stand in a name. -/
def nameBytes? : Letter → Option (List UInt8)
  | .char c => some (Text.encodeChar c)
  | .half index =>
    if 0x480 ≤ index.val && index.val < 0x500 then some [(index.val - 0x400).toUInt8] else none

/-- The path that a text stands for, if it is one that can lead anywhere. -/
def pathOf? (text : Text) : Option String := do
  let bytes ← text.mapM nameBytes?
  let path ← (Text.decode bytes.flatten).toOption
  path.string?

/-- Whether a path leads to a file. -/
def isFile (t : FileTree) (workingDirectory : List String) (path : Text) : Bool :=
  match (pathOf? path).map (t.find workingDirectory) with
  | some (.ok (.file _)) => true
  | _ => false

/-- Whether a path leads to a directory. -/
def isDirectory (t : FileTree) (workingDirectory : List String) (path : String) : Bool :=
  match t.find workingDirectory path with
  | .ok .directory => true
  | _ => false

end FileTree

end ModuleLift
