import ModuleLift.Tree.Basic

/-! What a conversion reports: things left as they were, and things that will not work. -/

namespace ModuleLift

/-- Why something is reported. -/
inductive Notice where
  /-- The text reads only as a script, for the reason given. -/
  | scriptOnly (reason : Text)
  | dynamicDeclaration
  | dynamicStatement
  | destructured
  | unsupportedBinding
  | missingModule (target : Text)
  | exportsNoObject
  | exportsIrregular
  | exportsRepeated
  | exportUnbound (bound exported : Text)
  | nestedRequire
deriving DecidableEq, Repr, Inhabited

/-- The wording of a notice. -/
def Notice.message : Notice → Text
  | .scriptOnly reason => "Not valid as a module (" ++ reason ++ "); parsed as a script."
  | .dynamicDeclaration => "Dynamic require() target; declaration left untouched."
  | .dynamicStatement => "Dynamic require() target; statement left untouched."
  | .destructured => "Destructured require() cannot become an import; left untouched."
  | .unsupportedBinding => "Unsupported binding for require(); left untouched."
  | .missingModule target =>
    "Local module '" ++ target ++ "' not found; specifier kept as written."
  | .exportsNoObject => "module.exports is not assigned an object literal; left untouched."
  | .exportsIrregular =>
    "module.exports object has spread, computed or method entries; left untouched."
  | .exportsRepeated =>
    "module.exports assigned more than once; later assignment left untouched."
  | .exportUnbound bound exported =>
    "'" ++ bound ++ "' is not a top-level binding; export '" ++ exported ++
      "' will fail to link."
  | .nestedRequire => "require() below the top level left untouched."

/-- A spot in brackets, as it follows a message; nothing unless all of it is known. -/
def Spot.suffix (s : Spot) : Text :=
  match s.line, s.column with
  | some line, some column =>
    " (line " ++ Text.ofNat line ++ ", column " ++ Text.ofNat column ++ ")"
  | _, _ => ""

/-- A notice and the place it is about. -/
structure Diagnostic where
  notice : Notice
  spot : Spot := {}
deriving DecidableEq, Repr, Inhabited

namespace Diagnostic

/-- A notice about a node. -/
def about (notice : Notice) (t : Tree) : Diagnostic := { notice, spot := t.mark.spot }

/-- The text of a diagnostic. -/
def text (d : Diagnostic) : Text := d.notice.message ++ d.spot.suffix

end Diagnostic

end ModuleLift
