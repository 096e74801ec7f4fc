import ModuleLift.Text.Letter

/-! Why a program text is refused, and where. -/

namespace ModuleLift.Grammar

/-- A reason to refuse a program text. -/
inductive Complaint where
  | endOfInput
  | illegalText
  | identifierHere
  | numberHere
  | stringHere
  | templateHere (raw : Text)
  | reservedWord
  | token (text : Text)
  | misplacedForm
  | badEscapedKeyword
  | badHexEscape
  | openRegularExpression
  | octalInTemplate
  | accessorConstructor
  | asyncConstructor
  | assignmentTarget
  | catchName
  | constructorTwice
  | defaultTwice
  | deleteName
  | duplicateBinding (name : Text)
  | duplicateParameter
  | forInTarget
  | forOfTarget
  | functionInStatement
  | functionName
  | generatorLabel
  | getterParameters
  | illegalBreak
  | illegalContinue
  | illegalReturn
  | labelTwice (name : Text)
  | letBinding
  | loopInitializer (loop : Text)
  | missingHandler
  | missingInitializer (kind : Text)
  | octalLiteral
  | parameterName
  | postfixTarget
  | prefixTarget
  | protoTwice
  | restNotLast
  | setterParameters
  | setterRest
  | staticPrototype
  | strictAssignment
  | strictDirective
  | strictReserved
  | templateHead
  | throwLineBreak
  | unknownLabel (name : Text)
  | variableName
  | withStatement
  /-- The bound on the depth of the text was reached; reading a text never gets there. -/
  | tooDeep
deriving DecidableEq, Repr, Inhabited

/-- The wording of a complaint. -/
def Complaint.message : Complaint → Text
  | endOfInput => "Unexpected end of input"
  | illegalText => "Unexpected token ILLEGAL"
  | identifierHere => "Unexpected identifier"
  | numberHere => "Unexpected number"
  | stringHere => "Unexpected string"
  | templateHere raw => "Unexpected quasi " ++ raw
  | reservedWord => "Unexpected reserved word"
  | token text => "Unexpected token " ++ text
  | misplacedForm => "Unexpected token"
  | badEscapedKeyword => "Keyword must not contain escaped characters"
  | badHexEscape => "Invalid hexadecimal escape sequence"
  | openRegularExpression => "Invalid regular expression: missing /"
  | octalInTemplate => "Octal literals are not allowed in template strings."
  | accessorConstructor => "Class constructor may not be an accessor"
  | asyncConstructor => "Class constructor may not be an async method"
  | assignmentTarget => "Invalid left-hand side in assignment"
  | catchName => "Catch variable may not be eval or arguments in strict mode"
  | constructorTwice => "A class may only have one constructor"
  | defaultTwice => "More than one default clause in switch statement"
  | deleteName => "Delete of an unqualified identifier in strict mode."
  | duplicateBinding name => "Duplicate binding " ++ name
  | duplicateParameter => "Strict mode function may not have duplicate parameter names"
  | forInTarget => "Invalid left-hand side in for-in"
  | forOfTarget => "Invalid left-hand side in for-loop"
  | functionInStatement =>
    "In strict mode code, functions can only be declared at top level or inside a block"
  | functionName => "Function name may not be eval or arguments in strict mode"
  | generatorLabel => "Generator declarations are not allowed in legacy contexts"
  | getterParameters => "Getter must not have any formal parameters"
  | illegalBreak => "Illegal break statement"
  | illegalContinue => "Illegal continue statement"
  | illegalReturn => "Illegal return statement"
  | labelTwice name => "Label '" ++ name ++ "' has already been declared"
  | letBinding => "let is disallowed as a lexically bound name"
  | loopInitializer loop => loop ++ " loop variable declaration may not have an initializer"
  | missingHandler => "Missing catch or finally after try"
  | missingInitializer kind => "Missing initializer in " ++ kind ++ " declaration"
  | octalLiteral => "Octal literals are not allowed in strict mode."
  | parameterName => "Parameter name eval or arguments is not allowed in strict mode"
  | postfixTarget =>
    "Postfix increment/decrement may not have eval or arguments operand in strict mode"
  | prefixTarget =>
    "Prefix increment/decrement may not have eval or arguments operand in strict mode"
  | protoTwice => "Duplicate __proto__ fields are not allowed in object literals"
  | restNotLast => "Rest parameter must be last formal parameter"
  | setterParameters => "Setter must have exactly one formal parameter"
  | setterRest => "Setter function argument must not be a rest parameter"
  | staticPrototype => "Classes may not have static property named prototype"
  | strictAssignment => "Assignment to eval or arguments is not allowed in strict mode"
  | strictDirective =>
    "Illegal 'use strict' directive in function with non-simple parameter list"
  | strictReserved => "Use of future reserved word in strict mode"
  | templateHead => "Template literal must start with a template head"
  | throwLineBreak => "Illegal newline after throw"
  | unknownLabel name => "Undefined label '" ++ name ++ "'"
  | variableName => "Variable name may not be eval or arguments in strict mode"
  | withStatement => "Strict mode code may not include a with statement"
  | tooDeep => "Nesting too deep"

/-- A complaint at a place: a line counted from one and a column counted from one.

The column counts from the start of the line on which reading stood, so a complaint about an
earlier line can have a column below one. -/
structure Fault where
  complaint : Complaint
  line : Nat
  column : Int
deriving DecidableEq, Repr, Inhabited

/-- Whether reading broke down instead of refusing the text: the complaint then stands for itself,
without a place, and no other way to read the text is tried. -/
def Fault.isBreakdown (fault : Fault) : Bool := fault.complaint = .templateHead

/-- What a fault says, with its line in front. -/
def Fault.description (fault : Fault) : Text :=
  "Line " ++ Text.ofNat fault.line ++ ": " ++ fault.complaint.message

/-- Repeats a step until it gives an answer, at most `bound` times. -/
def repeatBounded {m : Type → Type} [Monad m] [MonadExceptOf Fault m] {σ α : Type}
    (bound : Nat) (state : σ) (step : σ → m (σ ⊕ α)) : m α :=
  match bound with
  | 0 => throw { complaint := .tooDeep, line := 0, column := 0 }
  | bound + 1 => do
    match ← step state with
    | .inl next => repeatBounded bound next step
    | .inr answer => return answer

end ModuleLift.Grammar
