import ModuleLift.Proofs.Lift.Placement
import ModuleLift.Proofs.Loader

/-! What a single declarator and a single expression statement can do: what becomes of them, and
what is taken note of on the way. Everything that is proved about them goes through these cases. -/

namespace ModuleLift

namespace Loader

/-- Whether the value of the module is called right away. -/
def isFactory : Loader → Bool
  | .factory _ _ => true
  | _ => false

end Loader

namespace Tree

/-- Whether a declarator binds a plain name to what a factory returns. -/
def takesFactory (d : Tree) : Bool :=
  (d.get "id").isIdentifier && (Loader.classify (d.get "init")).any Loader.isFactory

/-- Whether an import takes the place of a declarator: the target is a plain name, or a flat pattern
that takes the module itself apart. -/
def isTaken (d : Tree) : Bool :=
  match Loader.classify (d.get "init") with
  | some (.plain target) => target.stringValue?.isSome && ((d.get "id").isIdentifier ||
      (d.get "id").isA "ObjectPattern" && (patternPairs? (d.get "id")).isSome)
  | some (.member _ _) => (d.get "id").isIdentifier
  | _ => false

/-- What an import takes the place of is no call of a factory. -/
theorem takesFactory_of_isTaken {d : Tree} (taken : d.isTaken) : d.takesFactory = false := by
  -- An import takes the place of the two other forms of call.
  rw [isTaken] at taken
  rw [takesFactory]
  split at taken
  · simp_all [Loader.isFactory]
  · simp_all [Loader.isFactory]
  · cases taken

/-- Whether an import is made for a declarator. -/
def isLowered (d : Tree) : Bool := d.isTaken || d.takesFactory

/-- No import is made without a call of `require`. -/
theorem isLowered_of_uncalled {d : Tree} (uncalled : Loader.classify (d.get "init") = none) :
    d.isLowered = false := by
  simp [isLowered, isTaken, takesFactory, uncalled]

/-- No import is made for a call whose argument is no string literal. -/
theorem isLowered_of_unnamed {d : Tree} {loader : Loader}
    (called : Loader.classify (d.get "init") = some loader) (unnamed : loader.module? = none) :
    d.isLowered = false := by
  -- Each form of call asks for the literal.
  have none : loader.target.stringValue? = none := unnamed
  rw [isLowered, isTaken, takesFactory, called]
  cases Loader.calls_of_classify called with
  | plain call => simp_all [Loader.target, Loader.isFactory]
  | factory isCall inner literal => simp_all [Loader.target]
  | member isMember inner literal property => simp_all [Loader.target]

/-- A factory is taken only if an import is made. -/
theorem takesFactory_of_not_isLowered {d : Tree} (unfit : d.isLowered = false) :
    d.takesFactory = false :=
  (Bool.or_eq_false_iff.mp unfit).2

/-- The notice on a target that no import can bind. -/
def refusal (id : Tree) : Notice :=
  if id.isA "ObjectPattern" then .destructured else .unsupportedBinding

/-- Why a value assigned to `module.exports` makes no exports, where some were made before or
not. -/
def exportsRefusal? (exported : Bool) (value : Tree) : Option Notice :=
  if !value.isA "ObjectExpression" then some .exportsNoObject
  else if (ExportMap.ofObject? value).isNone then some .exportsIrregular
  else if exported then some .exportsRepeated
  else none

/-- The three refusals of a value assigned to `module.exports`. -/
theorem notice_exportsRefusal {exported : Bool} {value : Tree} {notice : Notice}
    (refused : value.exportsRefusal? exported = some notice) :
    notice = .exportsNoObject ∨ notice = .exportsIrregular ∨ notice = .exportsRepeated := by
  -- The tests are made one after the other, each with its notice.
  rw [exportsRefusal?] at refused
  split at refused
  · exact .inl (Option.some.inj refused).symm
  · split at refused
    · exact .inr (.inl (Option.some.inj refused).symm)
    · split at refused
      · exact .inr (.inr (Option.some.inj refused).symm)
      · cases refused

/-- A value is refused unless it is an object literal with plain entries and the first such. -/
theorem exportsRefusal?_eq_none {exported : Bool} {value : Tree} :
    value.exportsRefusal? exported = none ↔
      (value.isA "ObjectExpression" && (ExportMap.ofObject? value).isSome) ∧ exported = false := by
  -- All answers of the three tests.
  rw [exportsRefusal?]
  cases value.isA "ObjectExpression" <;> cases ExportMap.ofObject? value <;> cases exported <;> simp

end Tree

namespace Progress

/-- All that is taken note of when a specifier is completed. -/
theorem noteResolved_eq (p : Progress) (resolved : Specifier.Resolved) (target : Tree)
    (module : Text) : p.noteResolved resolved target module =
      { p with
        specifiers := p.specifiers ++ [module]
        localModules := p.localModules ++ if resolved.isLocal then [resolved.path] else []
        diagnostics := p.diagnostics ++ if resolved.isLocal && !resolved.found then
          [.about (.missingModule module) target] else []
        probes := p.probes ++ resolved.probes } := by
  -- The path and the notice are for local modules, the notice for missing ones only.
  simp only [noteResolved]
  cases resolved.isLocal <;> cases resolved.found <;> simp [report]

end Progress

namespace Lift

variable (s : Surroundings)

/-- Completing a specifier takes no name. -/
theorem names_importSource (target : Tree) (module : Text) (p : Progress) :
    (importSource s target module p).2.names = p.names := by
  rw [importSource, Progress.noteResolved_eq]

/-- Completing a specifier exports nothing. -/
theorem exported_importSource (target : Tree) (module : Text) (p : Progress) :
    (importSource s target module p).2.exported = p.exported := by
  rw [importSource, Progress.noteResolved_eq]

/-- The import from a source that binds the target of a declarator: a name to the whole module or to
one property of it, or the names of a flat pattern to the properties it takes. -/
inductive Binds (id source : Tree) : Loader → Tree → Prop where
  | whole {target : Tree} (name : id.isIdentifier) :
      Binds id source (.plain target) (.importDefault id.name source)
  | member {target property : Tree} (name : id.isIdentifier) :
      Binds id source (.member target property) (.importNamed [(property.name, id.name)] source)
  | flat {target : Tree} {pairs : List (Text × Text)} (pattern : id.isA "ObjectPattern")
      (found : patternPairs? id = some pairs) :
      Binds id source (.plain target) (.importNamed pairs source)

/-- A declarator that an import can bind is taken. -/
theorem Binds.isTaken {d source statement : Tree} {loader : Loader} {module : Text}
    (binds : Binds (d.get "id") source loader statement)
    (called : Loader.classify (d.get "init") = some loader)
    (named : loader.module? = some module) : d.isTaken := by
  -- What an import can bind is what the test of the declarator asks for.
  have literal : loader.target.stringValue?.isSome := Option.isSome_of_eq_some named
  rw [Tree.isTaken, called]
  cases binds with
  | whole name => exact Bool.and_eq_true_iff.mpr ⟨literal, by simp [name]⟩
  | member name => exact name
  | flat pattern found => exact Bool.and_eq_true_iff.mpr ⟨literal, by simp [pattern, found]⟩

/-- What becomes of a declarator, and what is taken note of. -/
inductive DeclaratorStep (d : Tree) (p : Progress) : Fate × Progress → Prop where
  | uncalled (uncalled : Loader.classify (d.get "init") = none) : DeclaratorStep d p (.kept d, p)
  | dynamic {loader : Loader} (called : Loader.classify (d.get "init") = some loader)
      (unnamed : loader.module? = none) :
      DeclaratorStep d p (.dynamic d, p.report .dynamicDeclaration d)
  -- A module is named, but no import can bind the target.
  | refused {loader : Loader} {module : Text}
      (called : Loader.classify (d.get "init") = some loader)
      (named : loader.module? = some module) (unfit : d.isLowered = false) :
      DeclaratorStep d p (.kept d, p.report (d.get "id").refusal (d.get "id"))
  | imported {loader : Loader} {module : Text} {statement : Tree}
      (called : Loader.classify (d.get "init") = some loader)
      (named : loader.module? = some module) (fit : d.isTaken)
      (binds : Binds (d.get "id") (importSource s loader.target module p).1 loader statement) :
      DeclaratorStep d p (.imported statement, (importSource s loader.target module p).2)
  -- Completing the specifier takes no name, so the factory is named apart from those known before.
  | factored {target : Tree} {arguments : List Tree} {module factory : Text}
      (called : Loader.classify (d.get "init") = some (.factory target arguments))
      (named : target.stringValue? = some module) (fit : d.takesFactory)
      (fresh : factory = freshName ((d.get "id").name ++ s.factorySuffix) p.names.bound) :
      DeclaratorStep d p
        (.factored (.importDefault factory (importSource s target module p).1)
          (.variableDeclarator (d.get "id") (.call (.identifier factory) arguments)),
          (importSource s target module p).2.take factory)

section Declarators

variable {d : Tree} {loader : Loader} {module : Text}

/-- A pattern in braces is imported from if it takes the module itself apart and is flat. -/
theorem destructure_step (p : Progress) (called : Loader.classify (d.get "init") = some loader)
    (named : loader.module? = some module) (pattern : (d.get "id").isA "ObjectPattern") :
    DeclaratorStep s d p (destructure s d loader module p) := by
  -- Only the module itself can be taken apart, and only by a flat pattern.
  have noName : (d.get "id").isIdentifier = false := Tree.isA_eq_false pattern (by decide)
  have refused (unfit : d.isLowered = false) :
      DeclaratorStep s d p (.kept d, p.report .destructured (d.get "id")) := by
    have step := DeclaratorStep.refused (s := s) (p := p) called named unfit
    rwa [Tree.refusal, if_pos pattern] at step
  cases loader with
  | plain target =>
    simp only [destructure]
    cases found : patternPairs? (d.get "id") with
    | none =>
      exact refused (by
        simp [Tree.isLowered, Tree.isTaken, Tree.takesFactory, called, noName, found])
    | some pairs =>
      have binds := @Binds.flat _ (importSource s target module p).1 target _ pattern found
      exact .imported called named (binds.isTaken called named) binds
  | factory target arguments =>
    exact refused (by simp [Tree.isLowered, Tree.isTaken, Tree.takesFactory, called, noName])
  | member target property =>
    exact refused (by simp [Tree.isLowered, Tree.isTaken, Tree.takesFactory, called, noName])

/-- A name is bound to the module, to a property of it, or to what its factory returns. -/
theorem bindName_step (p : Progress) (called : Loader.classify (d.get "init") = some loader)
    (named : loader.module? = some module) (name : (d.get "id").isIdentifier) :
    DeclaratorStep s d p (bindName s d loader module p) := by
  -- Naming the module first does not change the names that a fresh one avoids.
  cases loader with
  | plain target =>
    have binds := @Binds.whole _ (importSource s target module p).1 target name
    exact .imported called named (binds.isTaken called named) binds
  | member target property =>
    have binds := @Binds.member _ (importSource s target module p).1 target property name
    exact .imported called named (binds.isTaken called named) binds
  | factory target arguments =>
    refine .factored called named ?_ ?_
    · simp [Tree.takesFactory, called, name, Loader.isFactory]
    · exact congrArg (fun names : Polyfill => freshName _ names.bound)
        (names_importSource s target module p)

end Declarators

/-- Every declarator is dealt with in one of these ways. -/
theorem declarator_step (d : Tree) (p : Progress) :
    DeclaratorStep s d p (declarator s d p) := by
  -- The questions in the order they are asked: is it a call, does it name a module, and what is the
  -- module bound to.
  rw [declarator]
  cases called : Loader.classify (d.get "init") with
  | none => exact .uncalled called
  | some loader =>
    cases named : loader.module? with
    | none =>
      simp only [named]
      exact .dynamic called named
    | some module =>
      simp only [named]
      split
      · exact destructure_step s p called named ‹_›
      · rename_i noPattern
        split
        · exact bindName_step s p called named ‹_›
        · rename_i noName
          have unfit : d.isLowered = false := by
            cases loader <;>
              simp [Tree.isLowered, Tree.isTaken, Tree.takesFactory, called, noName, noPattern]
          have step := DeclaratorStep.refused (s := s) (p := p) called named unfit
          rwa [Tree.refusal, if_neg noPattern] at step

/-- A declarator that takes a factory imports it under a fresh name, and calls it with the arguments
as they are. -/
theorem declarator_factored {d : Tree} (takes : d.takesFactory) (p : Progress) :
    let factory := freshName ((d.get "id").name ++ s.factorySuffix) p.names.bound
    ∃ source, (declarator s d p).1 = .factored (.importDefault factory source)
      (.variableDeclarator (d.get "id")
        (.call (.identifier factory) ((d.get "init").get "arguments").items)) := by
  -- All other outcomes contradict that the declarator takes a factory.
  have step := declarator_step s d p
  generalize declarator s d p = result at step ⊢
  cases step with
  | uncalled uncalled =>
    simp [Tree.takesFactory_of_not_isLowered (Tree.isLowered_of_uncalled uncalled)] at takes
  | dynamic called unnamed =>
    simp [Tree.takesFactory_of_not_isLowered (Tree.isLowered_of_unnamed called unnamed)] at takes
  | refused called named unfit => simp [Tree.takesFactory_of_not_isLowered unfit] at takes
  | imported called named fit => simp [Tree.takesFactory_of_isTaken fit] at takes
  | factored called named fit fresh =>
    cases Loader.calls_of_classify called with
    | factory isCall inner literal =>
      subst fresh
      exact ⟨_, rfl⟩

/-- What an expression statement becomes, and what is taken note of. -/
inductive ExpressionStep (t : Tree) (p : Progress) : List Tree × Progress → Prop where
  | dynamic {loader : Loader} (called : Loader.classify (t.get "expression") = some loader)
      (unnamed : loader.module? = none) :
      ExpressionStep t p ([t.comment s.marker], p.report .dynamicStatement t)
  | loaded {target : Tree} {module : Text}
      (called : Loader.classify (t.get "expression") = some (.plain target))
      (named : target.stringValue? = some module) :
      ExpressionStep t p
        ([(Tree.importEffects (importSource s target module p).1).anchor t.readRegion],
          (importSource s target module p).2)
  -- What is made of the module is thrown away, but making it may have effects.
  | discarded {loader : Loader} {module : Text}
      (called : Loader.classify (t.get "expression") = some loader)
      (named : loader.module? = some module) (indirect : ∀ target, loader ≠ .plain target) :
      ExpressionStep t p ([t], p)
  | idle (uncalled : Loader.classify (t.get "expression") = none)
      (unassigned : exportsValue? t = none) : ExpressionStep t p ([t], p)
  | refused {value : Tree} {notice : Notice}
      (uncalled : Loader.classify (t.get "expression") = none)
      (assigned : exportsValue? t = some value)
      (refused : value.exportsRefusal? p.exported = some notice) :
      ExpressionStep t p ([t], p.report notice t)
  | exported {value : Tree} {entries : ExportMap}
      (uncalled : Loader.classify (t.get "expression") = none)
      (assigned : exportsValue? t = some value) (object : value.isA "ObjectExpression")
      (found : ExportMap.ofObject? value = some entries) (first : p.exported = false) :
      ExpressionStep t p
        (anchorAll t.readRegion
          ((if entries.namedExports.isEmpty then [] else [.exportNamed entries.namedExports]) ++
            [.exportDefault value]),
          { p with exported := true }.reportAll (unboundExports p.names t entries.namedExports))

/-- An assignment to `module.exports` is refused, or it makes exports. -/
theorem replaceExports_step {t value : Tree} (p : Progress)
    (uncalled : Loader.classify (t.get "expression") = none)
    (assigned : exportsValue? t = some value) :
    ExpressionStep s t p ((replaceExports t value p).1.nodes t.readRegion,
      (replaceExports t value p).2) := by
  -- The three refusals, in the order in which they are tried.
  have refused {notice : Notice} (refused : value.exportsRefusal? p.exported = some notice) :
      ExpressionStep s t p ([t], p.report notice t) := .refused uncalled assigned refused
  rw [replaceExports]
  split
  · rename_i noObject
    exact refused (by rw [Tree.exportsRefusal?, if_pos noObject])
  · rename_i object
    split
    · rename_i none
      exact refused (by simp [Tree.exportsRefusal?, object, none])
    · rename_i entries found
      split
      · rename_i before
        exact refused (by simp [Tree.exportsRefusal?, object, found, before])
      · rename_i first
        exact .exported uncalled assigned (by simpa using object) found (by simpa using first)

/-- Every expression statement is dealt with in one of these ways. -/
theorem expressionStatement_step (t : Tree) (p : Progress) :
    ExpressionStep s t p (expressionStatement s t p) := by
  -- A call of `require` is looked for first, then an assignment to `module.exports`.
  rw [expressionStatement, replaceExpression]
  cases called : Loader.classify (t.get "expression") with
  | some loader =>
    cases named : loader.module? with
    | none =>
      simp only [named]
      exact .dynamic called named
    | some module =>
      simp only [named]
      cases loader with
      | plain target => exact .loaded called named
      | factory target arguments => exact .discarded called named (by simp)
      | member target property => exact .discarded called named (by simp)
  | none =>
    cases assigned : exportsValue? t with
    | some value => exact replaceExports_step s p called assigned
    | none => exact .idle called assigned

end Lift

end ModuleLift
