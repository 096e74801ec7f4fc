import ModuleLift.Fresh
import ModuleLift.Tree.Build

/-! Statements that define `__dirname` and `__filename` in a module that uses them. -/

namespace ModuleLift

/-- The name of the directory a file lies in. -/
def dirnameName : Text := "__dirname"

/-- The name of the file itself. -/
def filenameName : Text := "__filename"

/-- What a program unit uses and binds, as far as the two names are concerned. -/
structure Polyfill where
  /-- The names bound anywhere in the unit. -/
  bound : List Text := []
  /-- The names bound at its top level. -/
  topLevel : List Text := []
  dirnameUsed : Bool := false
  filenameUsed : Bool := false
deriving DecidableEq, Repr, Inhabited

namespace Polyfill

/-- Takes note of a name that is used. -/
def record (p : Polyfill) (name : Text) : Polyfill :=
  if name = dirnameName then { p with dirnameUsed := true }
  else if name = filenameName then { p with filenameUsed := true }
  else p

/-- Whether the directory's name has to be defined. -/
def needsDirname (p : Polyfill) : Bool := p.dirnameUsed && !p.topLevel.contains dirnameName

/-- Whether the file's name has to be defined. -/
def needsFilename (p : Polyfill) : Bool := p.filenameUsed && !p.topLevel.contains filenameName

/-- The local name of the function that turns an address into a path. -/
def toPathName (p : Polyfill) : Text := freshName "fileURLToPath" p.bound

/-- The local name of the function that gives a path's directory. -/
def parentName (p : Polyfill) : Text := freshName "dirname" (p.bound ++ [p.toPathName])

/-- An import of one helper under a local name. -/
def helperImport (helper bound module : Text) : Tree :=
  .importNamed [(helper, bound)] (.stringLiteral '"' module)

/-- The path of the module itself. -/
def modulePath (p : Polyfill) : Tree := .call (.identifier p.toPathName) [.importMetaUrl]

/-- `const name = init;` -/
def constant (name : Text) (init : Tree) : Tree :=
  .variableDeclaration (.text "const") [.variableDeclarator (.identifier name) init]

/-- The statements that define what has to be defined: helpers first. -/
def statements (p : Polyfill) : List Tree :=
  if !p.needsDirname && !p.needsFilename then []
  else
    -- Both names are made from the path of the module.
    [helperImport "fileURLToPath" p.toPathName "node:url"] ++
    (if p.needsDirname then
      [helperImport "dirname" p.parentName "node:path",
        constant dirnameName (.call (.identifier p.parentName) [p.modulePath])]
    else []) ++
    (if p.needsFilename then [constant filenameName p.modulePath] else [])

end Polyfill

end ModuleLift
