import ModuleLift.Emission
import ModuleLift.Grammar.Unit
import ModuleLift.Lift
import ModuleLift.Location

/-! Converting a text: it is read, lifted, and written again. -/

namespace ModuleLift

open Grammar (Goal Fault)

/-- What a text is converted with. -/
structure Options where
  extensions : List Text := defaultExtensions
  goal : Goal := .module
  factorySuffix : Text := defaultFactorySuffix
  marker : Text := defaultMarker
  /-- Whether the last line is ended. -/
  finalNewline : Bool := true
  /-- Whether a text that is no module is read as a script. -/
  scriptFallback : Bool := true
deriving DecidableEq, Repr, Inhabited

/-- Why a text cannot be converted. -/
inductive ConversionError where
  | unreadable (fault : Fault)
  | unlifted (error : LiftError)
  | unwritten (error : EmitError)

/-- The wording of a failure, for the text at a path. -/
def ConversionError.message (path : Text) : ConversionError → Text
  | .unreadable fault =>
    if fault.isBreakdown then fault.complaint.message
    else locatedMessage path fault.description (some fault.line) (some fault.column)
  | .unlifted error => error.message
  | .unwritten error => error.message

/-- A converted text, and what was found on the way. -/
structure Conversion where
  code : Text
  /-- Whether the code differs from the text. -/
  changed : Bool
  diagnostics : List Diagnostic
  /-- The specifiers that were completed, as written. -/
  specifiers : List Text
  localModules : List Text
  evalCalls : List EvalCall
  probes : List Text

/-- A way to read a text for a goal. -/
abbrev Reader := Goal → Text → Except Fault Tree

/-- Reads a text by the grammar, without passing over errors. -/
def Reader.strict : Reader := fun goal text =>
  (Grammar.read goal false text).map (·.tree)

/-- The text with a first line for the shell turned into a comment of the same length. -/
def maskHashbang (text : Text) : Text :=
  if Text.startsWith "#!" text then "//" ++ text.drop 2 else text

/-- The tree of a text, with a report if it had to be read as a script. If neither reading
succeeds, the first one's fault counts, unless the second one broke down. -/
def Reader.unit (reader : Reader) (options : Options) (text : Text) :
    Except Fault (Tree × List Diagnostic) :=
  match reader options.goal text with
  | .ok tree => .ok (tree, [])
  | .error fault =>
    -- Old code can be a script and no module, for its octal numbers or its `with`.
    if options.goal = .module && options.scriptFallback && !fault.isBreakdown then
      match reader .script text with
      | .ok tree => .ok (tree, [{ notice := .scriptOnly fault.description }])
      | .error second => .error (if second.isBreakdown then second else fault)
    else .error fault

/-- Converts a text that lies at a path, with a reader of choice. -/
def convertWith (reader : Reader) (options : Options) (isFile : Text → Bool)
    (path source : Text) : Except ConversionError Conversion := do
  -- The mask keeps every offset, so regions fit the text as it was given.
  let (tree, notes) ←
    (reader.unit options (maskHashbang source)).mapError .unreadable
  let ledger := Scope.analyze tree
  let surroundings : Surroundings := {
    baseDir := Path.directory path
    extensions := options.extensions
    isFile
    factorySuffix := options.factorySuffix
    marker := options.marker }
  let lifted ← (liftWith ledger surroundings tree).mapError .unlifted
  let emitted ← (emit source options.finalNewline lifted.program).mapError .unwritten
  return {
    code := emitted.text
    changed := emitted.changed
    diagnostics := notes ++ lifted.diagnostics
    specifiers := lifted.specifiers
    localModules := lifted.localModules
    evalCalls := ledger.evalCalls
    probes := lifted.probes }

/-- Converts a text that lies at a path. -/
def convert : Options → (Text → Bool) → Text → Text → Except ConversionError Conversion :=
  convertWith Reader.strict

end ModuleLift
