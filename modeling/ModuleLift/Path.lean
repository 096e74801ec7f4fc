import ModuleLift.Text.Letter

/-! Paths as text: segments between slashes. -/

namespace ModuleLift.Path

/-- A path seen from a directory; one that starts with a slash is kept as it is. -/
def join (directory path : Text) : Text :=
  if path.head? = some (.char '/') then path
  -- No second slash is put after one.
  else if directory.isEmpty || directory.getLast? = some (.char '/') then directory ++ path
  else directory ++ "/" ++ path

/-- A text without the slashes at its end. -/
def trimSlashes (path : Text) : Text :=
  (path.reverse.dropWhile fun (l : Letter) => l = '/').reverse

/-- The directory a path lies in: what stands before its last slash. -/
def directory (path : Text) : Text :=
  let head := (path.reverse.dropWhile fun (l : Letter) => l ≠ '/').reverse
  -- The root is made of slashes only and keeps them.
  if head.all fun (l : Letter) => l = '/' then head else trimSlashes head

/-- What stands after the last slash. -/
def lastSegment (path : Text) : Text :=
  (path.reverse.takeWhile fun (l : Letter) => l ≠ '/').reverse

/-- Whether the last segment has an extension: a dot after something that is no dot. -/
def hasExtension (path : Text) : Bool :=
  ((lastSegment path).dropWhile fun (l : Letter) => l = '.').contains (.char '.')

/-- Whether a path ends in a slash. -/
def endsInSlash (path : Text) : Bool := path.getLast? = some (.char '/')

end ModuleLift.Path
