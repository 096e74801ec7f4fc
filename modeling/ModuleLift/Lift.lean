import ModuleLift.Buried
import ModuleLift.ExportMap
import ModuleLift.Polyfill
import ModuleLift.Scope.Analysis
import ModuleLift.Specifier

/-! Lifting a program: top-level calls of `require` become imports, and the first acceptable
assignment to `module.exports` becomes exports. -/

namespace ModuleLift

/-- The comment before a call of `require` that stays. -/
def defaultMarker : Text := "cjs2esm: require() left as-is, evaluated at runtime"

/-- What is put after a name to name the factory it comes from. -/
def defaultFactorySuffix : Text := "Factory"

/-- The extensions tried when none are given. -/
def defaultExtensions : List Text := [".js"]

/-- What a program is lifted with. -/
structure Surroundings where
  /-- The directory the program's file lies in. -/
  baseDir : Text := ""
  extensions : List Text := defaultExtensions
  /-- Which paths are files. -/
  isFile : Text → Bool
  factorySuffix : Text := defaultFactorySuffix
  marker : Text := defaultMarker

/-- Why a tree cannot be lifted. -/
inductive LiftError where
  /-- It is no program. -/
  | noProgram (spot : Spot)
  /-- A statement does not tell where it stands, and something has to be put there. -/
  | noRange
deriving DecidableEq, Repr, Inhabited

/-- The wording of a refusal. -/
def LiftError.message : LiftError → Text
  | .noProgram spot => "Expected Program node at the root." ++ spot.suffix
  | .noRange => "'range'"

/-- What is known while the statements are gone through. -/
structure Progress where
  /-- The names in use, as far as later statements depend on them. -/
  names : Polyfill
  /-- Whether an assignment to `module.exports` became exports. -/
  exported : Bool := false
  /-- The specifiers that were completed, as written. -/
  specifiers : List Text := []
  localModules : List Text := []
  diagnostics : List Diagnostic := []
  /-- The paths asked for. -/
  probes : List Text := []

namespace Progress

/-- Adds a report. -/
def report (p : Progress) (notice : Notice) (t : Tree) : Progress :=
  { p with diagnostics := p.diagnostics ++ [.about notice t] }

/-- Adds several reports. -/
def reportAll (p : Progress) (more : List Diagnostic) : Progress :=
  { p with diagnostics := p.diagnostics ++ more }

/-- Takes note of the names a statement mentions. -/
def mention (p : Progress) (names : List Text) : Progress :=
  { p with names := names.foldl Polyfill.record p.names }

/-- Takes a name out of those that are free. -/
def take (p : Progress) (name : Text) : Progress :=
  { p with names := { p.names with bound := p.names.bound ++ [name] } }

/-- Takes note of a completed specifier, and reports a local one for which no file was found. -/
def noteResolved (p : Progress) (resolved : Specifier.Resolved) (target : Tree) (module : Text) :
    Progress :=
  let p := { p with
    specifiers := p.specifiers ++ [module], probes := p.probes ++ resolved.probes }
  -- Only files beside the program are expected to be there.
  if resolved.isLocal then
    let p := { p with localModules := p.localModules ++ [resolved.path] }
    if resolved.found then p else p.report (.missingModule module) target
  else p

end Progress

namespace Lift

/-- The source of the import that takes the place of a call of `require`: the literal itself, or
one with the completed specifier in the same quotes. -/
def importSource (s : Surroundings) (target : Tree) (module : Text) (p : Progress) :
    Tree × Progress :=
  let resolved := Specifier.resolve s.isFile s.baseDir s.extensions module
  -- A specifier that stays keeps its literal, and with it every escape as written.
  let source :=
    if resolved.path = module then target else .stringLiteral target.quoteOf resolved.path
  (source, p.noteResolved resolved target module)

/-- What becomes of a declarator. -/
inductive Fate where
  | kept (declarator : Tree)
  /-- Kept, and it calls `require` with something that is no string literal. -/
  | dynamic (declarator : Tree)
  /-- An import takes its place. -/
  | imported (statement : Tree)
  /-- An import of a factory, and a declarator that calls it. -/
  | factored (statement declarator : Tree)

namespace Fate

/-- The import a declarator gave rise to. -/
def statement? : Fate → Option Tree
  | .imported statement => some statement
  | .factored statement _ => some statement
  | _ => none

/-- The declarator that is left. -/
def declarator? : Fate → Option Tree
  | .kept declarator => some declarator
  | .dynamic declarator => some declarator
  | .factored _ declarator => some declarator
  | .imported _ => none

/-- Whether a call of `require` with something that is no string literal is left. -/
def isDynamic : Fate → Bool
  | .dynamic _ => true
  | _ => false

end Fate

/-- What becomes of a declarator whose target is a pattern in braces. -/
def destructure (s : Surroundings) (declarator : Tree) (loader : Loader) (module : Text)
    (p : Progress) : Fate × Progress :=
  let id := declarator.get "id"
  -- Only the module itself can be taken apart by an import.
  let pairs := match loader with
    | .plain _ => patternPairs? id
    | _ => none
  match pairs with
  | none => (.kept declarator, p.report .destructured id)
  | some pairs =>
    let (source, p) := importSource s loader.target module p
    (.imported (.importNamed pairs source), p)

/-- What becomes of a declarator whose target is a name. -/
def bindName (s : Surroundings) (declarator : Tree) (loader : Loader) (module : Text)
    (p : Progress) : Fate × Progress :=
  let id := declarator.get "id"
  let (source, p) := importSource s loader.target module p
  match loader with
  | .plain _ => (.imported (.importDefault id.name source), p)
  | .member _ property => (.imported (.importNamed [(property.name, id.name)] source), p)
  | .factory _ arguments =>
    -- The factory needs a name that nothing in the program uses yet.
    let factory := freshName (id.name ++ s.factorySuffix) p.names.bound
    (.factored (.importDefault factory source)
      (.variableDeclarator id (.call (.identifier factory) arguments)), p.take factory)

/-- What becomes of a declarator. -/
def declarator (s : Surroundings) (d : Tree) (p : Progress) : Fate × Progress :=
  match Loader.classify (d.get "init") with
  | none => (.kept d, p)
  | some loader =>
    match loader.module? with
    | none => (.dynamic d, p.report .dynamicDeclaration d)
    | some module =>
      if (d.get "id").isA "ObjectPattern" then destructure s d loader module p
      else if (d.get "id").isIdentifier then bindName s d loader module p
      else (.kept d, p.report .unsupportedBinding (d.get "id"))

/-- What becomes of several declarators, one after the other. -/
def declarators (s : Surroundings) : List Tree → Progress → List Fate × Progress
  | [], p => ([], p)
  | d :: rest, p =>
    -- Names taken by one declarator are taken for the next.
    let (fate, p) := declarator s d p
    let (fates, p) := declarators s rest p
    (fate :: fates, p)

/-- The statements with the last standing for a region, and the others for its start. -/
def anchorAll (region : Region) : List Tree → List Tree
  | [] => []
  | [last] => [last.anchor region]
  | t :: rest => t.anchor ⟨region.start, region.start⟩ :: anchorAll region rest

/-- What takes the place of a top-level statement. -/
inductive Replacement where
  /-- The statement itself, perhaps with a comment. -/
  | kept (statement : Tree)
  /-- Other statements, which are still to be put where it stands. -/
  | replaced (statements : List Tree)

/-- Puts what takes the place of a statement where the statement stands. -/
def Replacement.place (t : Tree) : Replacement → Except LiftError (List Tree)
  | .kept statement => .ok [statement]
  -- Only now does it matter where the statement was read.
  | .replaced statements =>
    match t.range? with
    | some region => .ok (anchorAll region statements)
    | none => .error .noRange

/-- What takes the place of a declaration, by what becomes of its declarators: imports, then what is
left of it. -/
def joinFates (marker : Text) (declaration : Tree) (fates : List Fate) : Replacement :=
  let imports := fates.filterMap Fate.statement?
  let left := fates.filterMap Fate.declarator?
  let dynamic := fates.any Fate.isDynamic
  let marked (t : Tree) : Tree := if dynamic then t.comment marker else t
  -- A declaration that nothing was taken from is copied as it was written.
  if imports.isEmpty then .kept (marked declaration)
  else
    let remainder :=
      if left.isEmpty then []
      else [marked (.variableDeclaration (declaration.get "kind") left)]
    .replaced (imports ++ remainder)

/-- What takes the place of a declaration. -/
def replaceDeclaration (s : Surroundings) (t : Tree) (p : Progress) : Replacement × Progress :=
  let (fates, p) := declarators s (t.get "declarations").items p
  (joinFates s.marker t fates, p)

/-- Whether an expression is `module.exports`. -/
def isModuleExports (t : Tree) : Bool :=
  t.isA "MemberExpression" && !(t.get "computed").isSet && (t.get "object").isNamed "module" &&
    (t.get "property").isNamed "exports"

/-- The value a statement assigns to `module.exports`. -/
def exportsValue? (statement : Tree) : Option Tree :=
  let expression := statement.get "expression"
  if expression.isA "AssignmentExpression" && (expression.get "operator").isText "=" &&
      isModuleExports (expression.get "left") then
    some (expression.get "right")
  else none

/-- The names that can be exported: those bound at the top level, and those that get defined. -/
def exportable (names : Polyfill) : List Text :=
  names.topLevel ++ [dirnameName, filenameName]

/-- The reports on exported names that nothing binds. -/
def unboundExports (names : Polyfill) (statement : Tree) (pairs : List (Text × Text)) :
    List Diagnostic :=
  (pairs.filter fun (bound, _) => !(exportable names).contains bound).map fun (bound, exported) =>
    .about (.exportUnbound bound exported) statement

/-- What takes the place of an assignment to `module.exports`. -/
def replaceExports (statement value : Tree) (p : Progress) : Replacement × Progress :=
  if !value.isA "ObjectExpression" then (.kept statement, p.report .exportsNoObject statement)
  else
    match ExportMap.ofObject? value with
    | none => (.kept statement, p.report .exportsIrregular statement)
    | some entries =>
      -- A module has one default export.
      if p.exported then (.kept statement, p.report .exportsRepeated statement)
      else
        let pairs := entries.namedExports
        -- The object stays as the default export, so every entry can still be reached.
        let named := if pairs.isEmpty then [] else [Tree.exportNamed pairs]
        (.replaced (named ++ [.exportDefault value]),
          { p with exported := true }.reportAll (unboundExports p.names statement pairs))

/-- What takes the place of an expression statement. -/
def replaceExpression (s : Surroundings) (t : Tree) (p : Progress) : Replacement × Progress :=
  match Loader.classify (t.get "expression") with
  | some loader =>
    match loader.module? with
    | none => (.kept (t.comment s.marker), p.report .dynamicStatement t)
    | some module =>
      match loader with
      | .plain target =>
        let (source, p) := importSource s target module p
        (.replaced [.importEffects source], p)
      -- What a factory returns or a member holds is thrown away, but it may have effects.
      | _ => (.kept t, p)
  | none =>
    match exportsValue? t with
    | some value => replaceExports t value p
    | none => (.kept t, p)

/-- What takes the place of a top-level statement. -/
def replaceStatement (s : Surroundings) (t : Tree) (p : Progress) : Replacement × Progress :=
  if t.isA "VariableDeclaration" then replaceDeclaration s t p
  else if t.isA "ExpressionStatement" then replaceExpression s t p
  else (.kept t, p)

/-- Goes through one top-level statement: what lies below it is commented first. The flag says
whether a comment was added. -/
def visitStatement (s : Surroundings) (t : Tree) (p : Progress) :
    Except LiftError (List Tree × Bool × Progress) := do
  -- Reports on what lies inside come before those on the statement itself.
  let p := (p.mention t.mentions).reportAll t.buriedDiagnostics
  let (t, added) := t.annotate s.marker false
  let (replacement, p) := replaceStatement s t p
  let statements ← replacement.place t
  return (statements, added, p)

/-- Goes through the top-level statements one after the other. -/
def visitBody (s : Surroundings) :
    List Tree → Progress → Except LiftError (List Tree × Bool × Progress)
  | [], p => return ([], false, p)
  | t :: rest, p => do
    let (here, added, p) ← visitStatement s t p
    let (later, more, p) ← visitBody s rest p
    return (here ++ later, added || more, p)

/-- Where a body starts; an empty one does so at the very start. -/
def bodyStart : List Tree → Except LiftError Nat
  | [] => .ok 0
  | first :: _ =>
    match first.region? with
    | some region => .ok region.start
    | none => .error .noRange

/-- The definitions put before a body, at the place where it starts. -/
def prelude (names : Polyfill) (body : List Tree) : Except LiftError (List Tree) :=
  -- Where the body starts is asked for only if there is something to put there.
  if names.statements.isEmpty then .ok []
  else do
    let start ← bodyStart body
    return names.statements.map fun t => t.anchor ⟨start, start⟩

end Lift

/-- A lifted program, and what was found on the way. -/
structure Lifted where
  program : Tree
  diagnostics : List Diagnostic
  /-- The specifiers that were completed, as written. -/
  specifiers : List Text
  localModules : List Text
  probes : List Text

/-- What is known before the first statement. -/
def Progress.ofLedger (ledger : Ledger) : Progress :=
  { names := { bound := ledger.boundNames, topLevel := ledger.topLevelNames } }

/-- Lifts a program, whose names the ledger tells. -/
def liftWith (ledger : Ledger) (s : Surroundings) (program : Tree) : Except LiftError Lifted :=
  if program.isA "Program" then do
    let (body, added, p) ←
      Lift.visitBody s (program.get "body").items (Progress.ofLedger ledger)
    let opening ← Lift.prelude p.names body
    -- A comment below shows in the flags of all nodes above it.
    let flagged := program.mapMark fun mark => { mark with modified := mark.modified || added }
    return {
      program := flagged.mapField "body" fun _ => .list (opening ++ body)
      diagnostics := p.diagnostics
      specifiers := p.specifiers
      localModules := p.localModules
      probes := p.probes }
  else .error (.noProgram program.mark.spot)

/-- Lifts a program. -/
def lift (s : Surroundings) (program : Tree) : Except LiftError Lifted :=
  liftWith (Scope.analyze program) s program

end ModuleLift
