import ModuleLift.Command.Usage
import ModuleLift.Conversion
import ModuleLift.Diff.Hunk
import ModuleLift.Files.Access

/-! Running the program on a tree of files. -/

namespace ModuleLift.Command

/-- The files, and what was printed so far. -/
structure Session where
  files : FileTree
  out : Text := ""
  err : Text := ""
deriving DecidableEq, Repr, Inhabited

namespace Session

/-- Prints a line of messages. -/
def complain (s : Session) (line : Text) : Session := { s with err := s.err ++ line ++ "\n" }

/-- Prints text. -/
def print (s : Session) (text : Text) : Session := { s with out := s.out ++ text }

end Session

/-- What ends a run before all inputs are converted. -/
inductive Breakdown where
  /-- A file could not be had, or its bytes were no text. -/
  | access (error : ReadError)
  /-- Reading an input broke down. -/
  | reading (fault : Grammar.Fault)
  /-- A conversion could not be written as bytes. -/
  | writing (fault : Text.EncodeFault)
  /-- A statement of an input does not tell where it stands. -/
  | unplaced
  /-- An extension that is no text was to be put behind a specifier. -/
  | extension
deriving DecidableEq, Repr, Inhabited

/-- The wording of what ends a run. -/
def Breakdown.message : Breakdown → Text
  | .access error => error.message
  | .reading fault => fault.complaint.message
  | .writing fault => fault.message
  | .unplaced => LiftError.noRange.message
  | .extension => "can only concatenate str (not \"list\") to str"

/-- The directory a run takes place in, and how texts are read there. -/
structure Workplace where
  directory : List String
  reader : Reader

/-- The options of the conversion that settings ask for. An extension that is none shows as an
empty list behind the name of an index file. -/
def Settings.options (s : Settings) : Options :=
  { extensions :=
      if s.extensions.isEmpty then defaultExtensions
      else s.extensions.map fun ext => Text.ofString (ext.getD "[]")
    goal := if s.script then .script else .module }

/-- Whether completing a specifier comes to an extension that is none, with no file found by
then. -/
def Settings.stumbles (s : Settings) (isFile : Text → Bool) (directory specifier : Text) : Bool :=
  let before := s.extensions.takeWhile Option.isSome
  before.length < s.extensions.length && Specifier.takesExtension specifier &&
    !before.reduceOption.any fun ext => isFile (Path.join directory (specifier ++ ext))

/-- The output file given; an empty name counts as none. -/
def Settings.target? (s : Settings) : Option String := s.out.filter (· ≠ "")

/-- The file the conversion of an input goes to. -/
def Settings.output (s : Settings) (input : Route) : Route :=
  if s.inPlace then input
  else
    match s.target? with
    | some path => Route.ofText path
    | none => input.withExtension ".mjs"

/-- What is reported about a conversion, line by line. -/
def reports (path : Text) (c : Conversion) : List Text :=
  (c.evalCalls.map fun call =>
    "WARNING " ++ path ++
      locationText (call.spot.line.map Int.ofNat) (call.spot.column.map Int.ofNat) ++
      ": " ++ EvalCall.message) ++
  c.diagnostics.map fun d => "INFO " ++ path ++ ": " ++ d.text

/-- What is said when an input cannot be converted. -/
def conversionComplaint (path : Text) : ConversionError → Text
  | .unreadable fault => "ERROR " ++ (ConversionError.unreadable fault).message path
  | error => "ERROR: Transformation failed for " ++ path ++ ": " ++ error.message path

/-- Shows how a conversion changes an input. -/
def showChanges (settings : Settings) (input : Route) (source : Text) (c : Conversion)
    (s : Session) : Session × Nat :=
  if c.changed then
    (s.print (Diff.text input.text (settings.output input).text (Text.splitLines source)
      (Text.splitLines c.code)), 1)
  else (s, 0)

/-- Writes a conversion to the file it goes to. -/
def save (place : Workplace) (settings : Settings) (input : Route) (c : Conversion)
    (files : FileTree) : Except AccessError (FileTree × Option Text.EncodeFault) := do
  let output := settings.output input
  let files ← files.ensureDirectories place.directory output.parent
  files.writeText place.directory output.text c.code

/-- Does with a conversion what the settings ask for. The status is one if that failed or, when
settings are strict, if anything was reported. -/
def finish (place : Workplace) (settings : Settings) (input : Route) (source : Text)
    (c : Conversion) (s : Session) : Session × Except Breakdown Nat :=
  -- Reports are printed whether or not the conversion can be saved.
  let lines := reports input.text c
  let s := lines.foldl Session.complain s
  -- A check writes nothing, and its status tells only of changes.
  if settings.check then
    let (s, status) := showChanges settings input source c s
    (s, .ok status)
  else
    match save place settings input c s.files with
    | .error e => (s, .error (.access (.access e)))
    | .ok (files, some fault) => ({ s with files }, .error (.writing fault))
    | .ok (files, none) =>
      ({ s with files }, .ok (if settings.strict && !lines.isEmpty then 1 else 0))

/-- What follows from an input that cannot be converted: the failure is reported, unless reading
broke down over it or what was read does not tell where it stands. -/
def reject (path : Text) (error : ConversionError) (s : Session) :
    Session × Except Breakdown Nat :=
  match error with
  | .unreadable fault =>
    if fault.isBreakdown then (s, .error (.reading fault))
    else (s.complain (conversionComplaint path error), .ok 1)
  | .unlifted .noRange => (s, .error .unplaced)
  | .unwritten .noRange => (s, .error .unplaced)
  | _ => (s.complain (conversionComplaint path error), .ok 1)

/-- Converts one input. Most failures are reported and give a status; the others end the run. -/
def convertInput (place : Workplace) (settings : Settings) (input : Route) (s : Session) :
    Session × Except Breakdown Nat :=
  let path := input.text
  match s.files.find place.directory path with
  -- A name that no file can have is more than a missing file.
  | .error .tooLong => (s, .error (.access (.access { problem := .tooLong, path })))
  | .error _ => (s.complain ("ERROR: Input file not found: " ++ path), .ok 1)
  | .ok _ =>
    match s.files.readText place.directory path with
    | .error (.access e) =>
      (s.complain ("ERROR: Failed to read " ++ path ++ ": " ++ e.message), .ok 1)
    -- Bytes that are no text end the whole run.
    | .error e => (s, .error (.access e))
    | .ok source =>
      let isFile := s.files.isFile place.directory
      match convertWith place.reader settings.options isFile path source with
      | .error e => reject path e s
      | .ok c =>
        if c.specifiers.any (settings.stumbles isFile (Path.directory path)) then
          (s, .error .extension)
        else finish place settings input source c s

/-- Converts inputs one after the other; the status is the largest of theirs. -/
def convertInputs (place : Workplace) (settings : Settings) :
    List Route → Nat → Session → Session × Except Breakdown Nat
  | [], status, s => (s, .ok status)
  | input :: rest, status, s =>
    match convertInput place settings input s with
    | (s, .error e) => (s, .error e)
    -- A failed input does not keep the others from being converted.
    | (s, .ok code) => convertInputs place settings rest (max status code) s

/-- Converts the inputs that settings name. -/
def convertCommand (place : Workplace) (settings : Settings) (s : Session) :
    Session × Except Breakdown Nat :=
  let inputs := settings.inputs.map fun path => (Route.ofText path).absolute place.directory
  -- A path that no file can have is met first, when the inputs are looked up.
  if let some path := settings.inputs.find? holdsNull then
    (s, .error (.access (.access { problem := .nullByte, path })))
  -- One output file cannot take several inputs.
  else if settings.target?.isSome && 1 < inputs.length then
    (s.complain "ERROR: --out requires a single input file.", .ok 2)
  else if settings.target?.isSome && settings.inPlace then
    (s.complain "ERROR: --out and --in-place are mutually exclusive.", .ok 2)
  else convertInputs place settings inputs 0 s

/-- How a run ends. -/
inductive Ending where
  | finished (status : Nat)
  /-- It did not get past its arguments. -/
  | stopped (status : Nat)
  | broken (cause : Breakdown)
deriving DecidableEq, Repr, Inhabited

/-- Runs the program with some arguments. -/
def run (place : Workplace) (arguments : List String) (files : FileTree) : Session × Ending :=
  let s : Session := { files }
  match settings arguments with
  | .error (.help level) => (s.print level.help, .stopped 0)
  | .error (.refused level error) =>
    (s.complain (level.usage ++ level.name ++ ": error: " ++ error.message), .stopped 2)
  | .ok none => (s.print Level.program.help, .finished 1)
  | .ok (some settings) =>
    match convertCommand place settings s with
    | (s, .ok status) => (s, .finished status)
    | (s, .error e) => (s, .broken e)

end ModuleLift.Command
