import ModuleLift.Path

/-! Paths split at their slashes, as files are named by them. -/

namespace ModuleLift

/-- A path: the slashes it starts with, and the names between the others. -/
structure Route where
  /-- Empty for a path that is seen from the working directory. -/
  root : String := ""
  names : List String := []
deriving DecidableEq, Repr, Inhabited

namespace Route

/-- The segments of a path between its slashes, empty ones included. -/
def segments (path : List Char) : List (List Char) :=
  path.splitOn '/'

/-- The slashes a path starts with: exactly two are kept, any other number counts as one. -/
def rootOf : List Char → String
  | '/' :: '/' :: '/' :: _ => "/"
  | '/' :: '/' :: _ => "//"
  | '/' :: _ => "/"
  | _ => ""

/-- Splits a path; empty segments and single dots are dropped. -/
def ofText (path : String) : Route :=
  { root := rootOf path.toList
    names := ((segments path.toList).map String.ofList).filter fun name => name ≠ "" && name ≠ "." }

/-- The path as text. -/
def text (r : Route) : String :=
  if r.root = "" && r.names.isEmpty then "." else r.root ++ "/".intercalate r.names

/-- The directory a path lies in; the root and the working directory lie in themselves. -/
def parent (r : Route) : Route := { r with names := r.names.dropLast }

/-- Names without those that a double dot takes back; `kept` are the ones so far. -/
def collapse (kept : List String) : List String → List String
  | [] => kept
  | name :: rest => collapse (if name = ".." then kept.dropLast else kept ++ [name]) rest

/-- The path from the root that a path stands for in a working directory. -/
def absolute (workingDirectory : List String) (r : Route) : Route :=
  -- A path with a root does not depend on the working directory.
  { root := "/", names := collapse (if r.root = "" then workingDirectory else []) r.names }

/-- A file name without its extension: what stands before the last dot, unless that dot is the
first or the last character. -/
def stem (name : List Char) : List Char :=
  -- A name that starts or ends with its only dot has no extension.
  let extension := name.reverse.takeWhile (· ≠ '.')
  let before := name.take (name.length - extension.length - 1)
  if extension.length < name.length && !extension.isEmpty && !before.isEmpty then before else name

/-- The path with another extension. -/
def withExtension (r : Route) (extension : String) : Route :=
  match r.names.getLast? with
  | some name =>
    { r with names := r.names.dropLast ++ [String.ofList (stem name.toList) ++ extension] }
  | none => r

end Route

end ModuleLift
