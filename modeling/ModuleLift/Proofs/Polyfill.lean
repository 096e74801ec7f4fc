import ModuleLift.Polyfill
import ModuleLift.Proofs.Fresh
import ModuleLift.Proofs.Tree.Parts

/-! When the definitions put before a program can stand together in one module. -/

namespace ModuleLift

namespace Tree

/-- The names an import binds, or a declaration of plain names. -/
def boundNames (t : Tree) : List Text :=
  if t.isA "ImportDeclaration" then
    (t.get "specifiers").items.map fun specifier => (specifier.get "local").name
  else if t.isA "VariableDeclaration" then
    (t.get "declarations").items.map fun declarator => (declarator.get "id").name
  else []

/-- The initializers of a declaration. -/
def initializers (t : Tree) : List Tree :=
  if t.isA "VariableDeclaration" then
    (t.get "declarations").items.map fun declarator => declarator.get "init"
  else []

/-- The names that are called somewhere in an expression. -/
def calledNames (t : Tree) : List Text :=
  let callees := (t.parts.filter fun part => part.isA "CallExpression").map (·.get "callee")
  (callees.filter isIdentifier).map name

end Tree

namespace Polyfill

/-- The names the definitions bind in the module. -/
def declared (p : Polyfill) : List Text := p.statements.flatMap Tree.boundNames

/-- The local names of the helpers that are imported. -/
def helpers (p : Polyfill) : List Text :=
  (p.statements.filter fun t => t.isA "ImportDeclaration").flatMap Tree.boundNames

/-- The names that the initializers of the definitions call. -/
def called (p : Polyfill) : List Text :=
  (p.statements.flatMap Tree.initializers).flatMap Tree.calledNames

/-- The definitions bind each name once, none that the program binds at its top level, and call
nothing but the helpers they import. -/
structure SelfConsistent (p : Polyfill) : Prop where
  distinct : p.declared.Nodup
  free : ∀ name ∈ p.declared, name ∉ p.topLevel
  imported : ∀ name ∈ p.called, name ∈ p.helpers

/-- Whether the helper that gives a directory is imported under the name to be defined: the names
with fewer underscores are bound in the unit, and that one is not. -/
def Clashes (p : Polyfill) : Prop :=
  p.needsDirname ∧ ("dirname" : Text) ∈ p.bound ∧ ("_dirname" : Text) ∈ p.bound ∧
    dirnameName ∉ p.bound

instance (p : Polyfill) : Decidable p.Clashes := by unfold Clashes; infer_instance

/-- An import of a helper binds its local name. -/
theorem boundNames_helperImport (helper bound module : Text) :
    (helperImport helper bound module).boundNames = [bound] := rfl

/-- A constant binds its name. -/
theorem boundNames_constant (name : Text) (init : Tree) :
    (constant name init).boundNames = [name] := rfl

/-- A helper is imported by an import declaration. -/
@[simp] theorem isImport_helperImport (helper bound module : Text) :
    (helperImport helper bound module).isA "ImportDeclaration" = true := rfl

/-- A constant is not defined by an import declaration. -/
@[simp] theorem isImport_constant (name : Text) (init : Tree) :
    (constant name init).isA "ImportDeclaration" = false := rfl

/-- An import has no initializers. -/
theorem initializers_helperImport (helper bound module : Text) :
    (helperImport helper bound module).initializers = [] := rfl

/-- A constant has one initializer. -/
theorem initializers_constant (name : Text) (init : Tree) :
    (constant name init).initializers = [init] := rfl

/-- The path of the module is found by one call. -/
theorem calledNames_modulePath (p : Polyfill) : p.modulePath.calledNames = [p.toPathName] := rfl

/-- The directory of the module is found by a call around that one. -/
theorem calledNames_parent (p : Polyfill) :
    (Tree.call (.identifier p.parentName) [p.modulePath]).calledNames =
      [p.parentName, p.toPathName] := rfl

/-- The names bound, in the order of the definitions. -/
theorem declared_eq (p : Polyfill) :
    p.declared = if !p.needsDirname && !p.needsFilename then [] else
      p.toPathName :: ((if p.needsDirname then [p.parentName, dirnameName] else []) ++
        (if p.needsFilename then [filenameName] else [])) := by
  -- Each statement binds one name, whichever of the two definitions are there.
  cases dir : p.needsDirname <;> cases file : p.needsFilename <;>
    simp [declared, statements, dir, file, boundNames_helperImport, boundNames_constant]

/-- A name that does not end in the helper's own name is not the one it is imported under. -/
theorem ne_toPathName {p : Polyfill} {name : Text} (other : ¬("fileURLToPath" : Text) <:+ name) :
    name ≠ p.toPathName := by
  -- A fresh name ends in the name it is made of.
  rintro rfl
  exact other (suffix_freshName _ _)

/-- A name that does not end in the helper's own name is not the one it is imported under. -/
theorem ne_parentName {p : Polyfill} {name : Text} (other : ¬("dirname" : Text) <:+ name) :
    name ≠ p.parentName := by
  -- A fresh name ends in the name it is made of.
  rintro rfl
  exact other (suffix_freshName _ _)

/-- The two helpers are imported under two names, neither of which the unit binds. -/
theorem parentName_not_mem (p : Polyfill) :
    p.parentName ∉ p.bound ∧ p.parentName ≠ p.toPathName := by
  -- The name is fresh among the bound names and the name of the other helper.
  have free := freshName_not_mem "dirname" (p.bound ++ [p.toPathName])
  simp only [List.mem_append, List.mem_singleton, not_or] at free
  exact free

/-- The directory helper gets the name to be defined exactly when just the two names with fewer
underscores are bound. -/
theorem parentName_eq_iff (p : Polyfill) :
    p.parentName = dirnameName ↔
      ("dirname" : Text) ∈ p.bound ∧ ("_dirname" : Text) ∈ p.bound ∧ dirnameName ∉ p.bound := by
  -- The search stops at two underscores exactly if it passes over none and one.
  have target : dirnameName = underscored 2 "dirname" := by decide
  have first : underscored 0 "dirname" = "dirname" := by decide
  have second : underscored 1 "dirname" = "_dirname" := by decide
  -- The other helper's name ends differently, so it is none of the three.
  have bare : ("dirname" : Text) ≠ p.toPathName := ne_toPathName (by decide)
  have single : ("_dirname" : Text) ≠ p.toPathName := ne_toPathName (by decide)
  have double : dirnameName ≠ p.toPathName := ne_toPathName (by decide)
  rw [parentName, target, freshName_eq_iff, ← target]
  simp only [List.mem_append, List.mem_singleton, double, or_false]
  constructor
  · rintro ⟨free, passed⟩
    have bareTaken := passed 0 (by omega)
    have singleTaken := passed 1 (by omega)
    rw [first] at bareTaken
    rw [second] at singleTaken
    exact ⟨bareTaken.resolve_right bare, singleTaken.resolve_right single, free⟩
  -- There are just two numbers of underscores below two.
  · rintro ⟨bareTaken, singleTaken, free⟩
    refine ⟨free, fun earlier below => ?_⟩
    rcases earlier with _ | _ | earlier
    · rw [first]
      exact .inl bareTaken
    · rw [second]
      exact .inl singleTaken
    · omega

/-- No name that is bound by a definition is bound at the top level of the program. -/
theorem declared_free {p : Polyfill} (within : p.topLevel ⊆ p.bound) :
    ∀ name ∈ p.declared, name ∉ p.topLevel := by
  intro name member top
  have bound := within top
  rw [declared_eq] at member
  split at member
  · simp at member
  · -- Helpers are named by what is free in the whole unit, and the rest only if it is needed.
    simp only [List.mem_cons, List.mem_append] at member
    rcases member with rfl | dir | file
    · exact freshName_not_mem _ _ bound
    · split at dir
      · rename_i needed
        simp only [List.mem_cons, List.not_mem_nil, or_false] at dir
        rcases dir with rfl | rfl
        · exact (parentName_not_mem p).1 bound
        · simp [needsDirname, top] at needed
      · simp at dir
    · split at file
      · rename_i needed
        simp only [List.mem_cons, List.not_mem_nil, or_false] at file
        subst file
        simp [needsFilename, top] at needed
      · simp at file

/-- The helpers imported. -/
theorem helpers_eq (p : Polyfill) :
    p.helpers = if !p.needsDirname && !p.needsFilename then [] else
      p.toPathName :: (if p.needsDirname then [p.parentName] else []) := by
  -- There are four cases, by which of the two names need a definition.
  cases dir : p.needsDirname <;> cases file : p.needsFilename <;>
    simp [helpers, statements, dir, file, List.filter_cons, boundNames_helperImport]

/-- The names called. -/
theorem called_eq (p : Polyfill) :
    p.called = (if p.needsDirname then [p.parentName, p.toPathName] else []) ++
      (if p.needsFilename then [p.toPathName] else []) := by
  -- Four cases, by the two definitions that are needed or not.
  cases dir : p.needsDirname <;> cases file : p.needsFilename <;>
    simp [called, statements, dir, file, initializers_helperImport, initializers_constant,
      calledNames_modulePath, calledNames_parent]

/-- What the definitions call is imported before them. -/
theorem called_imported (p : Polyfill) : ∀ name ∈ p.called, name ∈ p.helpers := by
  rw [called_eq, helpers_eq]
  -- Whichever definitions are there, the imports they rest on are there too.
  cases p.needsDirname <;> cases p.needsFilename <;> simp

/-- The names bound are distinct unless the directory helper takes the name to be defined. -/
theorem declared_nodup_iff (p : Polyfill) : p.declared.Nodup ↔ ¬p.Clashes := by
  -- The other names differ in how they end, whatever underscores they start with.
  have dirOther : dirnameName ≠ p.toPathName := ne_toPathName (by decide)
  have fileOther : filenameName ≠ p.toPathName := ne_toPathName (by decide)
  have fileParent : filenameName ≠ p.parentName := ne_parentName (by decide)
  have apart := (parentName_not_mem p).2
  have names : dirnameName ≠ filenameName := by decide
  rw [declared_eq, Clashes, ← parentName_eq_iff]
  -- Of all pairs of names only the helper and the directory can fall together.
  cases dir : p.needsDirname <;> cases file : p.needsFilename <;>
    simp [dirOther.symm, fileOther.symm, fileParent.symm, apart.symm, names]

/-- The definitions form a block of their own exactly when the directory helper's name does not
clash with the name to be defined. -/
theorem selfConsistent_iff {p : Polyfill} (within : p.topLevel ⊆ p.bound) :
    p.SelfConsistent ↔ ¬p.Clashes := by
  -- Two of the three conditions always hold, so the distinctness decides.
  constructor
  · intro consistent
    exact (declared_nodup_iff p).mp consistent.distinct
  · intro apart
    exact ⟨(declared_nodup_iff p).mpr apart, declared_free within, called_imported p⟩

/-- A unit that binds the plain helper names gets a block of four definitions. -/
theorem selfConsistent_aliased :
    let p : Polyfill := {
      bound := ["dirname", "_dirname", "__dirname", "fileURLToPath"], topLevel := ["dirname"]
      dirnameUsed := true, filenameUsed := true }
    p.topLevel ⊆ p.bound ∧ p.SelfConsistent :=
  ⟨by decide, (selfConsistent_iff (by decide)).mpr (by decide)⟩

/-- A unit that binds just the two names with fewer underscores gets two definitions of one
name. -/
theorem not_selfConsistent_underscored :
    let p : Polyfill := { bound := ["dirname", "_dirname"], dirnameUsed := true }
    p.topLevel ⊆ p.bound ∧ ¬p.SelfConsistent := by
  -- The fresh name of the helper is the name of the constant.
  refine ⟨by decide, fun consistent => ?_⟩
  have distinct := consistent.distinct
  revert distinct
  decide

end Polyfill

end ModuleLift
