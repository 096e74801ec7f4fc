import ModuleLift.Files.FileTree
import ModuleLift.Text.Lines
import ModuleLift.Text.Shown
import ModuleLift.Text.Utf8

/-! Reading and writing the files of a tree, and what can go wrong. -/

namespace ModuleLift

/-- Why a file cannot be had. -/
inductive AccessProblem where
  | missing
  | exists_
  | notDirectory
  | isDirectory
  | tooLong
  /-- The path holds a NUL, which no file name can. -/
  | nullByte
deriving DecidableEq, Repr, Inhabited

/-- A failed access to a path. -/
structure AccessError where
  problem : AccessProblem
  path : String
deriving DecidableEq, Repr, Inhabited

/-- The wording of a failed access, with its number and path. -/
def AccessError.message (e : AccessError) : Text :=
  let about (cause : Text) : Text := cause ++ ": " ++ Text.shown e.path
  match e.problem with
  | .missing => about "[Errno 2] No such file or directory"
  | .exists_ => about "[Errno 17] File exists"
  | .notDirectory => about "[Errno 20] Not a directory"
  | .isDirectory => about "[Errno 21] Is a directory"
  | .tooLong => about "[Errno 36] File name too long"
  -- A path with a NUL is not shown.
  | .nullByte => "embedded null byte"

/-- The problem in following a path, as a problem of access. -/
def Lost.problem : Lost → AccessProblem
  | .missing => .missing
  | .notDirectory => .notDirectory
  | .tooLong => .tooLong

/-- Why a file's text cannot be had. -/
inductive ReadError where
  | access (error : AccessError)
  | bytes (fault : Text.Utf8Fault)
deriving DecidableEq, Repr, Inhabited

/-- The wording of a failed reading. -/
def ReadError.message : ReadError → Text
  | .access error => error.message
  | .bytes fault => fault.message

/-- Whether a path holds a NUL. -/
def holdsNull (path : String) : Bool := path.toList.any fun c => c.toNat = 0

namespace FileTree

/-- The place a path leads to, which need not hold anything yet. -/
def reach (t : FileTree) (workingDirectory : List String) (path : String) :
    Except AccessError (List String) :=
  if holdsNull path then .error { problem := .nullByte, path }
  else
    match t.locate workingDirectory path with
    | .error lost => .error { problem := lost.problem, path }
    | .ok place => .ok place

/-- The bytes of a file. -/
def read (t : FileTree) (workingDirectory : List String) (path : String) :
    Except AccessError (List UInt8) :=
  match t.reach workingDirectory path with
  | .error e => .error e
  | .ok place =>
    match t.get place with
    | none => .error { problem := .missing, path }
    | some .directory => .error { problem := .isDirectory, path }
    | some (.file bytes) => .ok bytes

/-- The text of a file, with its line breaks unified. -/
def readText (t : FileTree) (workingDirectory : List String) (path : String) :
    Except ReadError Text := do
  let bytes ← (t.read workingDirectory path).mapError .access
  let text ← (Text.decode bytes).mapError .bytes
  return Text.unifyBreaks text

/-- Writes a file, in a directory that is there. -/
def write (t : FileTree) (workingDirectory : List String) (path : String) (bytes : List UInt8) :
    Except AccessError FileTree :=
  match t.reach workingDirectory path with
  | .error e => .error e
  | .ok place =>
    match t.get place with
    | some .directory => .error { problem := .isDirectory, path }
    -- A file that is there is replaced as a whole.
    | _ => .ok (t.put place (.file bytes))

/-- Writes a text to a file. The file is opened first, so a text that cannot be written leaves it
empty. -/
def writeText (t : FileTree) (workingDirectory : List String) (path : String)
    (text : Text) : Except AccessError (FileTree × Option Text.EncodeFault) :=
  match Text.encode text with
  | .ok bytes => (t.write workingDirectory path bytes).map fun t => (t, none)
  | .error fault => (t.write workingDirectory path []).map fun t => (t, some fault)

/-- Makes a directory, in one that is there. -/
def makeDirectory (t : FileTree) (workingDirectory : List String) (path : String) :
    Except AccessError FileTree :=
  match t.reach workingDirectory path with
  | .error e => .error e
  | .ok place =>
    match t.get place with
    | some _ => .error { problem := .exists_, path }
    | none => .ok (t.put place .directory)

/-- Makes a directory unless it is there. -/
def ensureDirectory (t : FileTree) (workingDirectory : List String) (path : String) :
    Except AccessError FileTree :=
  match t.makeDirectory workingDirectory path with
  | .ok t => .ok t
  -- A directory that is there already is as good as a new one.
  | .error e => if t.isDirectory workingDirectory path then .ok t else .error e

/-- Makes a directory and those it lies in, unless they are there; `depth` bounds how many. -/
def ensureWithin (workingDirectory : List String) :
    Nat → Route → FileTree → Except AccessError FileTree
  | 0, route, t => t.ensureDirectory workingDirectory route.text
  | depth + 1, route, t =>
    match t.ensureDirectory workingDirectory route.text with
    | .error { problem := .missing, path := _ } => do
      -- The directory around it is made first, and then this one is tried again.
      let t ← ensureWithin workingDirectory depth route.parent t
      t.ensureDirectory workingDirectory route.text
    | result => result

/-- Makes a directory and those it lies in, unless they are there. -/
def ensureDirectories (t : FileTree) (workingDirectory : List String) (route : Route) :
    Except AccessError FileTree :=
  ensureWithin workingDirectory route.names.length route t

end FileTree

end ModuleLift
