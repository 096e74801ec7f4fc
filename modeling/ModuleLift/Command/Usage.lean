import ModuleLift.Command.Arguments

/-! The commands: their options, what they tell about themselves, and the settings read from their
arguments. -/

namespace ModuleLift.Command

/-- How the program is called. -/
def programUsage : String := "usage: cjs2esm [-h] \x7bconvert\x7d ...\n"

/-- How the command is called. -/
def convertUsage : String :=
  "usage: cjs2esm convert [-h] [--out OUT] [--in-place] [--check] [--ext EXT]\n" ++
  "                       [--script] [--strict]\n" ++
  "                       inputs [inputs ...]\n"

/-- What the program tells about itself. -/
def programHelp : String :=
  programUsage ++
  "\n" ++
  "Convert CommonJS modules to ES modules\n" ++
  "\n" ++
  "positional arguments:\n" ++
  "  \x7bconvert\x7d\n" ++
  "    convert   Convert CommonJS files to ES modules\n" ++
  "\n" ++
  "options:\n" ++
  "  -h, --help  show this help message and exit\n"

/-- What the command tells about itself. -/
def convertHelp : String :=
  convertUsage ++
  "\n" ++
  "positional arguments:\n" ++
  "  inputs      Paths to the CommonJS files\n" ++
  "\n" ++
  "options:\n" ++
  "  -h, --help  show this help message and exit\n" ++
  "  --out OUT   Output file path (defaults to the input path with a .mjs\n" ++
  "              extension)\n" ++
  "  --in-place  Overwrite each input file with its converted source.\n" ++
  "  --check     Write nothing; print a diff and exit 1 if any file would change.\n" ++
  "  --ext EXT   Extension probed when completing relative specifiers\n" ++
  "              (repeatable, default .js).\n" ++
  "  --script    Parse the input as a script instead of a module.\n" ++
  "  --strict    Treat warnings and untransformed requires as errors.\n"

/-- Where arguments are taken in. -/
inductive Level where
  | program
  | convert
deriving DecidableEq, Repr, Inhabited

namespace Level

/-- The name messages give. -/
def name : Level → String
  | .program => "cjs2esm"
  | .convert => "cjs2esm convert"

/-- How it is called. -/
def usage : Level → String
  | .program => programUsage
  | .convert => convertUsage

/-- What it tells about itself. -/
def help : Level → String
  | .program => programHelp
  | .convert => convertHelp

end Level

/-- Why a run ends before anything is converted. -/
inductive Stop where
  | help (level : Level)
  | refused (level : Level) (error : ArgumentError)
deriving DecidableEq, Repr, Inhabited

/-- What is to be converted, and how. -/
structure Settings where
  inputs : List String := []
  out : Option String := none
  inPlace : Bool := false
  check : Bool := false
  /-- The extensions to try; one whose value was taken out is none. -/
  extensions : List (Option String) := []
  script : Bool := false
  strict : Bool := false
deriving DecidableEq, Repr, Inhabited

/-- The options of the program. -/
def programOptions : Names := [("-h", .help), ("--help", .help)]

/-- The options of the command. -/
def convertOptions : Names :=
  [("-h", .help), ("--help", .help), ("--out", .out), ("--in-place", .inPlace),
    ("--check", .check), ("--ext", .ext), ("--script", .script), ("--strict", .strict)]

/-- The settings after an option. -/
def Settings.choose (s : Settings) : Choice → Option String → Except Stop Settings
  | .help, _ => .error (.help .convert)
  | .out, value => .ok { s with out := value }
  | .inPlace, _ => .ok { s with inPlace := true }
  | .check, _ => .ok { s with check := true }
  | .ext, value => .ok { s with extensions := s.extensions ++ [value] }
  | .script, _ => .ok { s with script := true }
  | .strict, _ => .ok { s with strict := true }

/-- How the arguments of the command are taken in. -/
def convertIntake : Intake Settings Stop where
  names := convertOptions
  greedy := false
  refuse := .refused .convert
  plain s inputs := .ok { s with inputs := inputs.erase "--" }
  choose := Settings.choose

/-- The settings in the arguments of the command, and the arguments it does not know. -/
def convertArguments (arguments : List String) : Except Stop (Settings × List String) := do
  let taken ← convertIntake.all {} arguments
  -- The command has nothing to do without an input.
  if taken.pending then throw (.refused .convert .inputsRequired)
  return (taken.state, taken.left)

/-- How the arguments of the program are taken in: the command takes all that follow it. -/
def programIntake : Intake (Option (Settings × List String)) Stop where
  names := programOptions
  greedy := true
  refuse := .refused .program
  plain _ arguments :=
    match arguments with
    | "convert" :: rest => (convertArguments rest).map some
    | other :: _ => .error (.refused .program (.unknownCommand other))
    | [] => .ok none
  choose _ _ _ := .error (.help .program)

/-- The settings in the arguments of the program; none without a command. -/
def settings (arguments : List String) : Except Stop (Option Settings) := do
  let taken ← programIntake.all none arguments
  -- What neither level knows is refused in one message.
  let unknown := taken.left ++ (taken.state.map (·.2)).getD []
  if unknown.isEmpty then return taken.state.map (·.1)
  else throw (.refused .program (.unrecognized unknown))

end ModuleLift.Command
