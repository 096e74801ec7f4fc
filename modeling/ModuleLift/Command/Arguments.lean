import ModuleLift.Text.Digits
import ModuleLift.Text.Shown

/-! The arguments of a command: which are options, what values they take, and what is left over. -/

namespace ModuleLift.Command

/-- An option. -/
inductive Choice where
  | help
  | out
  | inPlace
  | check
  | ext
  | script
  | strict
deriving DecidableEq, Repr, Inhabited

namespace Choice

/-- Whether the option takes a value. -/
def takesValue : Choice → Bool
  | .out => true
  | .ext => true
  | _ => false

/-- What the option is called in messages. -/
def label : Choice → String
  | .help => "-h/--help"
  | .out => "--out"
  | .inPlace => "--in-place"
  | .check => "--check"
  | .ext => "--ext"
  | .script => "--script"
  | .strict => "--strict"

end Choice

/-- Why arguments are refused. -/
inductive ArgumentError where
  | ambiguous (argument : String) (candidates : List String)
  | valueExpected (choice : Choice)
  | valueIgnored (choice : Choice) (value : String)
  | inputsRequired
  | unknownCommand (name : String)
  | unrecognized (arguments : List String)
deriving DecidableEq, Repr, Inhabited

/-- The wording of a refusal. -/
def ArgumentError.message : ArgumentError → Text
  | .ambiguous argument candidates =>
    "ambiguous option: " ++ argument ++ " could match " ++ ", ".intercalate candidates
  | .valueExpected choice => "argument " ++ choice.label ++ ": expected one argument"
  | .valueIgnored choice value =>
    "argument " ++ choice.label ++ ": ignored explicit argument " ++ Text.shown value
  | .inputsRequired => "the following arguments are required: inputs"
  | .unknownCommand name =>
    "argument command: invalid choice: " ++ Text.shown name ++ " (choose from 'convert')"
  | .unrecognized arguments => "unrecognized arguments: " ++ " ".intercalate arguments

/-- The names of options. -/
abbrev Names := List (String × Choice)

/-- How an argument with a dash is understood; an option that is not known has no choice. -/
structure Reading where
  choice : Option Choice
  name : List Char := []
  /-- A value in one piece with the option: after an equals sign, or right behind a letter. -/
  attached : Option (List Char) := none
deriving DecidableEq, Repr, Inhabited

/-- What an argument is. -/
inductive Sign where
  /-- The first double dash, after which nothing is an option. -/
  | divider
  | plain
  | option (reading : Reading)
deriving DecidableEq, Repr, Inhabited

/-- The text before and after the first equals sign, if there is one. -/
def splitEquals (text : List Char) : List Char × Option (List Char) :=
  let name := text.takeWhile (· ≠ '=')
  match text.dropWhile (· ≠ '=') with
  | _ :: value => (name, some value)
  | [] => (name, none)

/-- Whether a text is a negative number. -/
def isNegativeNumber (text : List Char) : Bool :=
  let body := if text.getLast? = some '\n' then text.dropLast else text
  match body with
  | '-' :: number =>
    match number.dropWhile Text.isDecimalDigit with
    | [] => !number.isEmpty
    | '.' :: decimals => !decimals.isEmpty && decimals.all Text.isDecimalDigit
    | _ => false
  | _ => false

/-- The options an argument may be short for. -/
def abbreviated (names : Names) (argument : List Char) : List (String × Reading) :=
  match argument with
  | '-' :: '-' :: _ =>
    let (start, value) := splitEquals argument
    (names.filter fun (name, _) => start.isPrefixOf name.toList).map fun (name, choice) =>
      (name, ⟨some choice, name.toList, value⟩)
  -- Behind a single dash a value may follow the letter directly.
  | _ =>
    names.filterMap fun (name, choice) =>
      if name.toList = argument.take 2 then
        some (name, ⟨some choice, name.toList, some (argument.drop 2)⟩)
      else if argument.isPrefixOf name.toList then
        some (name, ⟨some choice, name.toList, none⟩)
      else none

/-- The option a name stands for. -/
def named? (names : Names) (name : List Char) : Option Choice := names.lookup (String.ofList name)

/-- What an argument is that does not come after the divider. -/
def sign (names : Names) (argument : String) : Except ArgumentError Sign :=
  let text := argument.toList
  if text.head? ≠ some '-' then .ok .plain
  else
    match named? names text with
    | some choice => .ok (.option ⟨some choice, text, none⟩)
    | none =>
      -- A dash alone names no option.
      if text.length = 1 then .ok .plain
      else
        -- The name in full goes before anything it may be short for.
        let (name, value) := splitEquals text
        match named? names name, value with
        | some choice, some value => .ok (.option ⟨some choice, name, some value⟩)
        | _, _ =>
          match abbreviated names text with
          | [(_, reading)] => .ok (.option reading)
          | [] =>
            -- Numbers and texts with blanks are values, whatever they start with.
            if isNegativeNumber text || text.contains ' ' then .ok .plain
            else .ok (.option { choice := none })
          | candidates => .error (.ambiguous argument (candidates.map (·.1)))

/-- What the arguments are, up to the divider by their form and after it all plain. -/
def signs (names : Names) : List String → Except ArgumentError (List (String × Sign))
  | [] => .ok []
  | argument :: rest =>
    if argument = "--" then .ok ((argument, .divider) :: rest.map fun a => (a, .plain))
    else do
      let here ← sign names argument
      let later ← signs names rest
      return (argument, here) :: later

/-- The options written as letters behind one dash, after the first of them. -/
def cluster (names : Names) (choice : Choice) : List Char → Except ArgumentError (List Choice)
  | [] => .ok [choice]
  | c :: rest =>
    match named? names ['-', c] with
    -- From an unknown letter on, the rest can only be a value, and none is taken.
    | none => .error (.valueIgnored choice (String.ofList (c :: rest)))
    | some next => (choice :: ·) <$> cluster names next rest

/-- The effect of an option: the choices it makes, their value, what it leaves over, and the
arguments after it. -/
structure Effect where
  choices : List Choice
  value : Option String := none
  left : List String := []
  rest : List (String × Sign)

/-- The effect of an option with the arguments after it. -/
def effect (names : Names) (argument : String) (reading : Reading) (rest : List (String × Sign)) :
    Except ArgumentError Effect :=
  match reading.choice, reading.attached with
  | none, _ => .ok { choices := [], left := [argument], rest }
  | some choice, none =>
    if choice.takesValue then
      match rest with
      -- Only a plain argument can be the value.
      | (value, .plain) :: rest => .ok { choices := [choice], value := some value, rest }
      | _ => .error (.valueExpected choice)
    else .ok { choices := [choice], rest }
  | some choice, some attached =>
    if choice.takesValue then
      -- A double dash is taken out of the values also here, and leaves none.
      let value := if attached = ['-', '-'] then none else some (String.ofList attached)
      .ok { choices := [choice], value, rest }
    -- What follows a letter that takes no value is more letters.
    else if reading.name.length = 2 && !attached.isEmpty then
      match cluster names choice attached with
      | .ok choices => .ok { choices, rest }
      | .error e => .error e
    else .error (.valueIgnored choice (String.ofList attached))

/-- An option never leaves more arguments than came after it. -/
theorem effect_rest_length {names : Names} {argument : String} {reading : Reading}
    {rest : List (String × Sign)} {e : Effect} (done : effect names argument reading rest = .ok e) :
    e.rest.length ≤ rest.length := by
  -- Only an option that takes its value from the next argument uses one up.
  unfold effect at done
  split at done
  · cases done; exact Nat.le_refl _
  · split at done
    · split at done
      · cases done; simp
      · cases done
    · cases done; exact Nat.le_refl _
  · split at done
    · cases done; exact Nat.le_refl _
    · split at done
      · split at done
        · cases done; exact Nat.le_refl _
        · cases done
      · cases done

/-- Whether an argument is an option. -/
def Sign.isOption : Sign → Bool
  | .option _ => true
  | _ => false

/-- The arguments that a list of arguments starts with and that are no options, if there is a plain
one among them. A greedy reading takes all that follow, options too. -/
def leadingPlain (greedy : Bool) (arguments : List (String × Sign)) : List String :=
  match arguments.dropWhile fun (_, s) => s == .divider with
  | (_, .plain) :: _ =>
    (if greedy then arguments else arguments.takeWhile fun (_, s) => !s.isOption).map (·.1)
  | _ => []

/-- How the arguments of one level are taken in: plain ones once, in one piece, and options one by
one. -/
structure Intake (σ ε : Type) where
  names : Names
  greedy : Bool
  refuse : ArgumentError → ε
  plain : σ → List String → Except ε σ
  choose : σ → Choice → Option String → Except ε σ

/-- What was taken in. -/
structure Taken (σ : Type) where
  state : σ
  /-- Whether no plain arguments have come yet. -/
  pending : Bool := true
  left : List String := []

/-- Makes several choices one after the other. -/
def Intake.chooseAll {σ ε : Type} (intake : Intake σ ε) (value : Option String) :
    List Choice → σ → Except ε σ
  | [], state => .ok state
  | choice :: rest, state => do
    let state ← intake.choose state choice value
    intake.chooseAll value rest state

/-- Takes in arguments. -/
def Intake.run {σ ε : Type} (intake : Intake σ ε) (taken : Taken σ) :
    List (String × Sign) → Except ε (Taken σ)
  | [] => .ok taken
  | (argument, .option reading) :: rest =>
    match _ : effect intake.names argument reading rest with
    | .error e => .error (intake.refuse e)
    | .ok e => do
      let state ← intake.chooseAll e.value e.choices taken.state
      intake.run { taken with state, left := taken.left ++ e.left } e.rest
  | (argument, mark) :: rest =>
    -- Plain arguments count once; those that come after an option are left over.
    match taken.pending, leadingPlain intake.greedy ((argument, mark) :: rest) with
    | true, first :: more => do
      let state ← intake.plain taken.state (first :: more)
      intake.run { taken with state, pending := false } (rest.drop more.length)
    | _, _ => intake.run { taken with left := taken.left ++ [argument] } rest
termination_by arguments => arguments.length
decreasing_by
  · rename_i done
    have := effect_rest_length done
    simp only [List.length_cons]
    omega
  · simp only [List.length_drop, List.length_cons]
    omega
  · simp only [List.length_cons]
    omega

/-- Takes in the arguments of one level. -/
def Intake.all {σ ε : Type} (intake : Intake σ ε) (state : σ) (arguments : List String) :
    Except ε (Taken σ) := do
  let marked ← (signs intake.names arguments).mapError intake.refuse
  intake.run { state } marked

end ModuleLift.Command
