import ModuleLift.Proofs.ExportMap
import ModuleLift.Proofs.Lift.Mention
import ModuleLift.Proofs.Lift.Rest

/-! Lifting a lifted program: its statements are left as they are, and nothing is put before them
unless another module knows something by an ambient name. -/

namespace ModuleLift

open Emission (ImportsName)

namespace Loader

variable {t : Tree} {loader : Loader}

/-- The argument of `require` mentions no more than the expression around it. -/
theorem Calls.mentions_target (calls : Calls t loader) : loader.target.mentions ⊆ t.mentions := by
  -- The argument is met on the way through the expression.
  have within : Tree.visits true loader.target ⊆ Tree.visits false t := calls.visits_target
  exact Tree.mentions_subset within

/-- What a factory is given mentions no more than the expression around it. -/
theorem Calls.mentions_given (calls : Calls t loader) {argument : Tree}
    (held : argument ∈ loader.given) : argument.mentions ⊆ t.mentions := by
  -- The arguments are met on the way through the expression.
  have within : Tree.visits true argument ⊆ Tree.visits false t := calls.visits_given held
  exact Tree.mentions_subset within

end Loader

namespace Tree

/-- A field that is set twice to the same value is set. -/
theorem mapField_twice (t : Tree) (key : String) (value : Tree) :
    (t.mapField key fun _ => value).mapField key (fun _ => value) =
      t.mapField key fun _ => value := by
  -- The field is found again and set to what it is.
  cases t with
  | node kind mark fields =>
    simp only [mapField, List.map_map]
    congr 1
    refine List.map_congr_left ?_
    rintro ⟨name, held⟩ _
    by_cases here : name = key <;> simp [here]
  | _ => rfl

/-- Without a new comment below it, a node keeps its flag. -/
theorem mapMark_unflagged (t : Tree) :
    (t.mapMark fun mark => { mark with modified := mark.modified || false }) = t := by
  cases t <;> simp [mapMark]

/-- An assignment that exports can be made of assigns an object literal. -/
theorem assignsObject_of_yieldsExports {t : Tree} (yields : t.yieldsExports) : t.assignsObject := by
  -- Only an object literal has entries to be exported.
  rw [yieldsExports, Bool.and_eq_true] at yields
  rw [assignsObject, yields.1, Bool.true_and]
  cases assigned : Lift.exportsValue? t <;> simp_all

/-- The part of a specifier that holds the name by which another module knows what is imported or
exported. -/
def foreignPart (specifier : Tree) : Tree :=
  if specifier.isA "ImportSpecifier" then specifier.get "imported"
  else if specifier.isA "ExportSpecifier" then specifier.get "exported"
  else .null

/-- The names by which other modules know what a statement imports or exports. -/
def foreignNames (t : Tree) : List Text :=
  if t.isA "ImportDeclaration" || t.isA "ExportNamedDeclaration" then
    (((t.get "specifiers").items.map foreignPart).filter isIdentifier).map name
  else []

/-- Marks do not tell which names other modules know. -/
@[simp] theorem foreignNames_mapMark (t : Tree) (change : Mark → Mark) :
    (t.mapMark change).foreignNames = t.foreignNames := by
  simp [foreignNames]

/-- The foreign name of a specifier is mentioned in it. -/
theorem mentions_foreignPart (specifier : Tree) :
    (foreignPart specifier).mentions ⊆ specifier.mentions := by
  -- It is the imported name or the exported one, and neither is passed over.
  rw [foreignPart]
  split
  · exact mentions_get ‹_› rfl rfl
  · split
    · exact mentions_get ‹_› rfl rfl
    · exact List.nil_subset _

/-- Names by which other modules know something count as mentioned. -/
theorem foreignNames_subset (t : Tree) : t.foreignNames ⊆ t.mentions := by
  intro name found
  rw [foreignNames] at found
  split at found
  · rename_i isModule
    obtain ⟨part, named, rfl⟩ := List.mem_map.mp found
    obtain ⟨listed, isName⟩ := List.mem_filter.mp named
    obtain ⟨specifier, held, rfl⟩ := List.mem_map.mp listed
    -- The specifiers of an import and those of an export are in the same field.
    have inner : specifier.mentions ⊆ t.mentions := by
      rcases Bool.or_eq_true_iff.mp isModule with isImport | isExport
      · exact mentions_get_item isImport rfl rfl held
      · exact mentions_get_item isExport rfl rfl held
    refine inner (mentions_foreignPart specifier ?_)
    rw [mentions_name isName]
    exact List.mem_singleton_self _
  · cases found

/-- The names mentioned in an import that is put in. -/
theorem mem_mentions_import {specifiers : List Tree} {source : Tree}
    (names : ∀ specifier ∈ specifiers, ImportsName specifier) {name : Text}
    (mentioned : name ∈ (importFrom specifiers source).mentions) :
    name ∈ (importFrom specifiers source).foreignNames ∨
      (true, name) ∈ (importFrom specifiers source).bindings ∨ name ∈ source.mentions := by
  rw [importFrom, mentions_synthetic rfl rfl] at mentioned
  simp only [List.flatMap_cons, List.flatMap_nil, List.append_nil, mentions_list,
    List.mem_append] at mentioned
  rcases mentioned with specified | sourced
  · obtain ⟨specifier, held, named⟩ := List.mem_flatMap.mp specified
    -- The local name is bound, and the other one is known elsewhere.
    have bound (found : specifier.get "local" = identifier name) :
        (true, name) ∈ (importFrom specifiers source).bindings := by
      rw [bindings, Scope.Task.binds_import rfl]
      refine List.mem_flatMap.mpr ⟨specifier, held, ?_⟩
      rw [found, Scope.Task.binds_name]
      exact List.mem_singleton_self _
    cases names specifier held with
    | whole own =>
      rw [mentions_synthetic rfl rfl] at named
      obtain rfl : name = own := by simpa using named
      exact .inr (.inl (bound rfl))
    | named imported own =>
      rw [mentions_synthetic rfl rfl] at named
      obtain rfl | rfl : name = imported ∨ name = own := by simpa using named
      · refine .inl (List.mem_map.mpr ⟨_, List.mem_filter.mpr
          ⟨List.mem_map.mpr ⟨_, held, rfl⟩, rfl⟩, rfl⟩)
      · exact .inr (.inl (bound rfl))
  · exact .inr (.inr sourced)

end Tree

namespace ExportMap

/-- Every entry is made of some property. -/
theorem exists_property {value : Tree} {entries : ExportMap}
    (found : ofObject? value = some entries) {entry : Text × Option Text}
    (held : entry ∈ entries.entries) :
    ∃ property ∈ (value.get "properties").items, ofProperty? property = some entry := by
  obtain ⟨list, known, rfl⟩ := Option.map_eq_some_iff.mp found
  clear found
  -- The properties are read one by one, and each gives one entry.
  generalize (value.get "properties").items = properties at known ⊢
  induction properties generalizing list with
  | nil => cases known; cases held
  | cons property rest ih =>
    rw [List.mapM_cons] at known
    obtain ⟨first, here, more⟩ := Option.bind_eq_some_iff.mp known
    obtain ⟨others, later, done⟩ := Option.bind_eq_some_iff.mp more
    cases done
    rcases List.mem_cons.mp held with rfl | further
    · exact ⟨property, List.mem_cons_self, here⟩
    · obtain ⟨other, member, made⟩ := ih others further later
      exact ⟨other, List.mem_cons_of_mem _ member, made⟩

/-- A name that is exported is mentioned in the object. -/
theorem mentions_of_namedExports {value : Tree} (object : value.isA "ObjectExpression")
    {entries : ExportMap} (found : ofObject? value = some entries) {pair : Text × Text}
    (held : pair ∈ entries.namedExports) : pair.1 ∈ value.mentions := by
  obtain ⟨bound, key⟩ := pair
  -- The last entry with the key is one of the entries.
  obtain ⟨_, before, after, whole, _⟩ := mem_namedExports.mp held
  have listed : (key, some bound) ∈ entries.entries := by
    rw [whole]
    simp
  obtain ⟨property, member, entry⟩ := exists_property found listed
  rw [ofProperty?] at entry
  split at entry
  · rename_i plain
    simp only [Bool.and_eq_true] at plain
    obtain ⟨name, _, same⟩ := Option.map_eq_some_iff.mp entry
    have value : bound ∈ (property.get "value").mentions := by
      split at same
      · cases same
        simp [Tree.mentions_name ‹_›]
      · cases same
    exact Tree.mentions_get_item object rfl rfl member
      (Tree.mentions_get plain.1.1.1 rfl rfl value)
  · cases entry

end ExportMap

namespace Lift

section Mentions

variable {s : Surroundings} {t : Tree}

/-- What a statement mentions is mentioned in the statement it was made of, or another module knows
something by that name, or one of the statements around it binds the name at the top level. -/
def Draws (t : Tree) (block : List Tree) (u : Tree) : Prop :=
  ∀ name ∈ u.mentions, name ∈ t.mentions ∨ name ∈ u.foreignNames ∨
    (true, name) ∈ block.flatMap Tree.bindings

/-- A statement that mentions no more than the original draws on it alone. -/
theorem draws_of_subset {block : List Tree} {u : Tree} (within : u.mentions ⊆ t.mentions) :
    Draws t block u :=
  fun _ mentioned => .inl (within mentioned)

/-- An import that is put in mentions what it imports, and what its source mentions. -/
theorem draws_import {specifiers : List Tree} {source : Tree} {block : List Tree} {region : Region}
    (names : ∀ specifier ∈ specifiers, ImportsName specifier)
    (within : source.mentions ⊆ t.mentions)
    (held : (Tree.importFrom specifiers source).anchor region ∈ block) :
    Draws t block ((Tree.importFrom specifiers source).anchor region) := by
  -- What an import mentions is a foreign name, a name it binds, or in its source.
  intro name mentioned
  rw [Tree.anchor, Tree.mentions_mapMark] at mentioned
  rw [Tree.anchor, Tree.foreignNames_mapMark]
  rcases Tree.mem_mentions_import names mentioned with foreign | bound | sourced
  · exact .inr (.inl foreign)
  · refine .inr (.inr (List.mem_flatMap.mpr ⟨_, held, ?_⟩))
    rwa [Tree.bindings_anchor]
  · exact .inl (within sourced)

section Declarators

variable {bound : List Text} {d : Tree} {fate : Fate} {own : List Diagnostic}

/-- The source of a new import mentions no more than the argument. -/
theorem NamesModule.mentions_subset {target source : Tree} {module : Text}
    (names : NamesModule s target module source) : source.mentions ⊆ target.mentions := by
  -- A literal that is put in mentions nothing.
  cases names with
  | written complete => exact List.Subset.refl _
  | completed quote => exact List.nil_subset _

/-- The import made for a declarator has its source from the declarator. -/
theorem Settles.import_within (settles : Settles s bound d fate own)
    (isDeclarator : d.isA "VariableDeclarator") {u : Tree} (made : fate.statement? = some u) :
    ∃ specifiers source, u = .importFrom specifiers source ∧
      (∀ specifier ∈ specifiers, ImportsName specifier) ∧ source.mentions ⊆ d.mentions := by
  -- A source is the target of the call, or has no names in it at all.
  have within {loader : Loader} (called : Loader.classify (d.get "init") = some loader) :
      loader.target.mentions ⊆ d.mentions :=
    List.Subset.trans (Loader.calls_of_classify called).mentions_target
      (Tree.mentions_get isDeclarator rfl rfl)
  cases settles with
  | taken _ called named fit names specifies binds =>
    cases made
    exact ⟨_, _, rfl, specifies, List.Subset.trans names.mentions_subset (within called)⟩
  | factored _ called named fit names fresh =>
    cases made
    exact ⟨_, _, rfl, by simpa using .whole _,
      List.Subset.trans names.mentions_subset (within called)⟩
  | _ => cases made

/-- What is left of a declarator mentions no more, but for a factory that is imported. -/
theorem Settles.mentions_declarator (settles : Settles s bound d fate own)
    (isDeclarator : d.isA "VariableDeclarator") {left : Tree} (kept : fate.declarator? = some left)
    {name : Text} (mentioned : name ∈ left.mentions) :
    name ∈ d.mentions ∨ ∃ u, fate.statement? = some u ∧ (true, name) ∈ u.bindings := by
  cases settles with
  | taken => cases kept
  | @factored target arguments _ source factory _ called named fit names fresh =>
    cases kept
    rw [Tree.variableDeclarator, Tree.mentions_synthetic rfl rfl, List.flatMap_cons,
      List.flatMap_singleton, Tree.call, Tree.mentions_synthetic rfl rfl, List.flatMap_cons,
      List.flatMap_singleton, Tree.mentions_identifier, Tree.mentions_list, List.mem_append,
      List.mem_append, List.mem_singleton] at mentioned
    -- The name of the factory is new, but the import made with this declarator binds it.
    rcases mentioned with target | rfl | given
    · exact .inl (Tree.mentions_get isDeclarator rfl rfl target)
    · refine .inr ⟨_, rfl, ?_⟩
      rw [Tree.bindings_importDefault]
      exact List.mem_singleton_self _
    · obtain ⟨argument, held, inside⟩ := List.mem_flatMap.mp given
      have within := (Loader.calls_of_classify called).mentions_given held
      exact .inl (Tree.mentions_get isDeclarator rfl rfl (within inside))
  | _ => cases kept; exact .inl mentioned

end Declarators

/-- What a declaration becomes mentions no other names. -/
theorem draws_assemble (isDeclaration : t.isA "VariableDeclaration")
    (declared : ∀ d ∈ (t.get "declarations").items, d.isA "VariableDeclarator")
    {fates : List Fate}
    (each : List.Forall₂ (fun d fate => ∃ bound own, Settles s bound d fate own)
      (t.get "declarations").items fates)
    (imports : fates.filterMap Fate.statement? ≠ []) :
    ∀ u ∈ assemble s.marker t fates, Draws t (assemble s.marker t fates) u := by
  have inner {d : Tree} (held : d ∈ (t.get "declarations").items) : d.mentions ⊆ t.mentions :=
    Tree.mentions_get_item isDeclaration rfl rfl held
  intro u block
  have member := block
  rw [assemble_eq imports] at member
  obtain ⟨v, held, place, rfl⟩ := mem_anchorAll member
  rcases List.mem_append.mp held with imported | remains
  · obtain ⟨fate, found, made⟩ := List.mem_filterMap.mp imported
    obtain ⟨d, there, bound, own, settles⟩ := exists_of_forall₂ each.flip found
    obtain ⟨specifiers, source, rfl, names, within⟩ :=
      settles.import_within (declared d there) made
    exact draws_import names (List.Subset.trans within (inner there)) block
  · intro name mentioned
    -- A comment before what is left mentions nothing.
    have whole : name ∈ (Tree.variableDeclaration (t.get "kind")
        (fates.filterMap Fate.declarator?)).mentions := by
      rw [Tree.anchor, Tree.mentions_mapMark, eq_of_mem_remainder remains] at mentioned
      split at mentioned
      · rwa [Tree.comment, Tree.mentions_mapMark] at mentioned
      · exact mentioned
    rw [Tree.variableDeclaration, Tree.mentions_synthetic rfl rfl, List.flatMap_cons,
      List.flatMap_singleton, Tree.mentions_list, List.mem_append] at whole
    rcases whole with below | kind
    · obtain ⟨left, there, inside⟩ := List.mem_flatMap.mp below
      obtain ⟨fate, found, kept⟩ := List.mem_filterMap.mp there
      obtain ⟨d, present, bound, own, settles⟩ := exists_of_forall₂ each.flip found
      rcases settles.mentions_declarator (declared d present) kept inside with
        known | ⟨factory, made, binds⟩
      · exact .inl (inner present known)
      · -- The import of the factory stands among the same statements.
        obtain ⟨region, stands⟩ := exists_import_assemble s.marker t found made
        refine .inr (.inr (List.mem_flatMap.mpr ⟨_, stands, ?_⟩))
        rwa [Tree.bindings_anchor]
    · exact .inl (Tree.mentions_get isDeclaration rfl rfl kind)

/-- Exports mention what the object mentions, and the names under which it is exported. -/
theorem draws_exports {value : Tree} (object : value.isA "ObjectExpression") {entries : ExportMap}
    (found : ExportMap.ofObject? value = some entries) (within : value.mentions ⊆ t.mentions)
    (region : Region) (block : List Tree) :
    let pairs := entries.namedExports
    ∀ u ∈ anchorAll region ((if pairs.isEmpty then [] else [.exportNamed pairs]) ++
      [.exportDefault value]), Draws t block u := by
  intro pairs u member
  obtain ⟨v, held, place, rfl⟩ := mem_anchorAll member
  intro name mentioned
  rw [Tree.anchor, Tree.mentions_mapMark] at mentioned
  rw [Tree.anchor, Tree.foreignNames_mapMark]
  rcases eq_of_mem_exports held with rfl | rfl
  · -- Local names are those in the object. The names on the other side are foreign ones.
    rw [Tree.exportNamed, Tree.mentions_synthetic rfl rfl] at mentioned
    have listed : name ∈ (pairs.map fun pair => Tree.synthetic "ExportSpecifier"
        [("local", .identifier pair.1), ("exported", .identifier pair.2)]).flatMap
          Tree.mentions := by
      simpa using mentioned
    rw [List.flatMap_map] at listed
    obtain ⟨pair, chosen, named⟩ := List.mem_flatMap.mp listed
    rw [Tree.mentions_synthetic rfl rfl] at named
    obtain rfl | rfl : name = pair.1 ∨ name = pair.2 := by simpa using named
    · exact .inl (within (ExportMap.mentions_of_namedExports object found chosen))
    · exact .inr (.inl (List.mem_map.mpr ⟨_, List.mem_filter.mpr
        ⟨List.mem_map.mpr ⟨_, List.mem_map_of_mem chosen, rfl⟩, rfl⟩, rfl⟩))
  · rw [Tree.exportDefault, Tree.mentions_synthetic rfl rfl, List.flatMap_singleton] at mentioned
    exact .inl (within mentioned)

/-- One statement: what it becomes mentions no other names. -/
theorem draws_step (declared : t.isA "VariableDeclaration" →
      ∀ d ∈ (t.get "declarations").items, d.isA "VariableDeclarator") (p : Progress) :
    ∀ u ∈ (step s t p).1, Draws t (step s t p).1 u := by
  have same := Tree.mentions_annotate s.marker false t
  have declarators := declared_annotate s.marker declared
  have lowered := step_lowered s t p
  -- Comments mention nothing, so from here on the commented statement takes the place of the other.
  simp only [Draws, ← same]
  generalize (step s t p).1 = result at lowered ⊢
  generalize (t.annotate s.marker false).1 = t at declarators lowered ⊢
  change ∀ u ∈ result, Draws t result u
  cases lowered with
  | kept =>
    rw [List.forall_mem_singleton]
    refine draws_of_subset ?_
    split
    · rw [Tree.comment, Tree.mentions_mapMark]
      exact List.Subset.refl _
    · exact List.Subset.refl _
  | declared isDeclaration _ each imports =>
    exact draws_assemble isDeclaration (declarators isDeclaration) each imports
  | loaded isExpression _ called named names =>
    have target := (Loader.calls_of_classify called).mentions_target
    have expression : (t.get "expression").mentions ⊆ t.mentions :=
      Tree.mentions_get isExpression rfl rfl
    rw [List.forall_mem_singleton]
    exact draws_import (by simp) (List.Subset.trans names.mentions_subset
      (List.Subset.trans target expression)) (List.mem_singleton_self _)
  | exported isExpression _ assigned object found =>
    obtain ⟨isAssignment, _, rfl⟩ := assigns_of_exportsValue assigned
    have expression : (t.get "expression").mentions ⊆ t.mentions :=
      Tree.mentions_get isExpression rfl rfl
    exact draws_exports object found
      (List.Subset.trans (Tree.mentions_get isAssignment rfl rfl) expression) _ _

/-- All statements: what they become mentions no other names. -/
theorem mentions_steps {ts : List Tree} (declared : ∀ t ∈ ts, t.isA "VariableDeclaration" →
      ∀ d ∈ (t.get "declarations").items, d.isA "VariableDeclarator") (p : Progress) {u : Tree}
    (member : u ∈ (steps s ts p).1) {name : Text} (mentioned : name ∈ u.mentions) :
    (∃ t ∈ ts, name ∈ t.mentions) ∨ name ∈ u.foreignNames ∨
      (true, name) ∈ (steps s ts p).1.flatMap Tree.bindings := by
  -- What is bound next to one of the statements is bound in the whole.
  induction ts generalizing p with
  | nil => cases member
  | cons t rest ih =>
    simp only [steps, List.flatMap_append, List.mem_append] at member ⊢
    rcases member with here | later
    · rcases draws_step (declared t List.mem_cons_self) p u here name mentioned with
        known | foreign | bound
      · exact .inl ⟨t, List.mem_cons_self, known⟩
      · exact .inr (.inl foreign)
      · exact .inr (.inr (.inl bound))
    · rcases ih (fun u held => declared u (List.mem_cons_of_mem _ held)) _ later with
        ⟨other, held, known⟩ | foreign | bound
      · exact .inl ⟨other, List.mem_cons_of_mem _ held, known⟩
      · exact .inr (.inl foreign)
      · exact .inr (.inr (.inr bound))

/-- The definitions put before a body mention names that they declare or import, and `import`. -/
theorem mentions_opening {names : Polyfill} {body : List Tree} {u : Tree}
    (member : u ∈ opening names body) {name : Text} (mentioned : name ∈ u.mentions) :
    name ∈ u.foreignNames ∨ name ∈ names.declared ∨ name = "import" := by
  have foreign (helper bound module : Text) :
      (Polyfill.helperImport helper bound module).foreignNames = [helper] := rfl
  have helper (imported bound module : Text) :
      (Polyfill.helperImport imported bound module).mentions = [imported, bound] := rfl
  have constant (text : Text) (init : Tree) :
      (Polyfill.constant text init).mentions = text :: init.mentions := by
    rw [Polyfill.constant, Tree.variableDeclaration, Tree.mentions_synthetic rfl rfl,
      Tree.variableDeclarator, List.flatMap_cons, Tree.mentions_list, List.flatMap_singleton,
      Tree.mentions_synthetic rfl rfl]
    simp
  have path : names.modulePath.mentions = [names.toPathName, "import"] := rfl
  have parent : (Tree.call (.identifier names.parentName) [names.modulePath]).mentions =
      [names.parentName, names.toPathName, "import"] := rfl
  simp only [opening, List.mem_map] at member
  obtain ⟨t, held, rfl⟩ := member
  rw [Tree.anchor, Tree.mentions_mapMark] at mentioned
  rw [Tree.anchor, Tree.foreignNames_mapMark]
  revert t
  -- The helpers that a definition calls are imported with it.
  cases dir : names.needsDirname <;> cases file : names.needsFilename <;>
    simp [Polyfill.declared_eq, Polyfill.statements, dir, file, helper, constant, foreign, path,
      parent] <;> grind

end Mentions

section Program

variable {program : Tree} {s : Surroundings}

/-- Whether a comment is added below one of the statements of a program. -/
def isCommentedBelow (s : Surroundings) (program : Tree) : Bool :=
  (steps s (program.get "body").items (.ofLedger (Scope.analyze program))).2.1

/-- A lifted program is the program with a flag if a comment was added, and with the new body. -/
theorem program_lift {lifted : Lifted} (known : lift s program = .ok lifted) :
    lifted.program = (program.mapMark fun mark =>
      { mark with modified := mark.modified || isCommentedBelow s program }).mapField "body"
        fun _ =>
          .list (opening (finalNames s program) (newBody s program) ++ newBody s program) := by
  -- A lift that ends well gives the result that can be told in advance.
  rw [eq_liftedOf _ s known]
  rfl

/-- Nothing is put before a body if and only if no ambient name has to be defined. -/
theorem opening_eq_nil_iff {names : Polyfill} {body : List Tree} :
    opening names body = [] ↔ ∀ name, isAmbient name → ¬names.needs name := by
  -- There are two ambient names, and each has its own definition.
  have apart : dirnameName ≠ filenameName := by decide
  have empty : opening names body = [] ↔ names.statements = [] := List.map_eq_nil_iff
  have either : (∀ name, isAmbient name → ¬names.needs name) ↔
      names.needsDirname = false ∧ names.needsFilename = false := by
    simp [isAmbient, Polyfill.needs, apart, apart.symm]
  rw [empty, either]
  cases dir : names.needsDirname <;> cases file : names.needsFilename <;>
    simp [Polyfill.statements, dir, file]

/-- What has to be defined is declared. -/
theorem mem_declared_of_needs {names : Polyfill} {name : Text} (needed : names.needs name) :
    name ∈ names.declared := by
  -- The two names are listed if they are needed.
  rw [Polyfill.declared_eq]
  rcases needed with ⟨rfl, dir⟩ | ⟨rfl, file⟩
  · simp [dir]
  · simp [file]

/-- An ambient name that a lifted program mentions is bound at its top level, or another module
knows something by it. -/
theorem mentions_lift (isProgram : program.isA "Program") (series : (program.get "body").isSeries)
    (orderly : program.Orderly)
    (declared : ∀ t ∈ (program.get "body").items, t.isA "VariableDeclaration" →
      ∀ d ∈ (t.get "declarations").items, d.isA "VariableDeclarator")
    {lifted : Lifted} (known : lift s program = .ok lifted) {u : Tree}
    (held : u ∈ (lifted.program.get "body").items) {name : Text} (ambient : isAmbient name)
    (mentioned : name ∈ u.mentions) :
    name ∈ u.foreignNames ∨ name ∈ (Scope.analyze lifted.program).topLevelNames := by
  obtain ⟨stays, list, items⟩ := program_of_lift s known
  have entries {entry : Bool × Text} :=
    @mem_entries_lift program isProgram series orderly s _ known entry
  have defined (needed : name ∈ (finalNames s program).declared) :
      name ∈ (Scope.analyze lifted.program).topLevelNames := by
    rw [Scope.mem_topLevelNames, entries]
    exact .inr (List.mem_map_of_mem (List.mem_append_right _ needed))
  rw [items] at held
  -- The definitions mention their own names, the statements those they were made of.
  rcases List.mem_append.mp held with before | body
  · rcases mentions_opening before mentioned with foreign | chosen | rfl
    · exact .inl foreign
    · exact .inr (defined chosen)
    · cases ambient
  · rcases mentions_steps declared _ body mentioned with ⟨t, there, inside⟩ | foreign | bound
    · -- A name that the program mentions was bound by it, or is defined before the body.
      by_cases top : name ∈ (Scope.analyze program).topLevelNames
      · rw [Scope.mem_topLevelNames, entries, ← Scope.mem_topLevelNames]
        exact .inr (.inl top)
      · have needed := (needs_finalNames s program ambient).mpr ⟨top, t, there, inside⟩
        exact .inr (defined (mem_declared_of_needs needed))
    · exact .inl foreign
    · rw [Scope.mem_topLevelNames, entries_program stays list, items, List.flatMap_append]
      exact .inr (List.mem_append_right _ bound)

end Program

end Lift

/-- A program with at most one assignment of an object literal to `module.exports` at the top level
can be lifted, and what comes of it can be lifted again, with the usual suffix for factories. The
second time nothing changes, no comment and no flag, if and only if no import or export has an
ambient name as the name by which the other module knows it, unless that name is bound at the top
level. -/
theorem lift_lift {program : Tree} (isProgram : program.isA "Program")
    (series : (program.get "body").isSeries)
    (regular : ∀ part ∈ program.parts, part.Regular)
    (declared : ∀ t ∈ (program.get "body").items, t.isA "VariableDeclaration" →
      ∀ d ∈ (t.get "declarations").items, d.isA "VariableDeclarator")
    (single : (program.get "body").items.countP Tree.assignsObject ≤ 1)
    {s : Surroundings} (suffix : s.factorySuffix = defaultFactorySuffix) :
    (program.Ranged → ∃ lifted again,
      lift s program = .ok lifted ∧ lift s lifted.program = .ok again) ∧
    ∀ lifted again, lift s program = .ok lifted → lift s lifted.program = .ok again →
      (again.program = lifted.program ↔
        ∀ t ∈ (lifted.program.get "body").items, ∀ name ∈ t.foreignNames, Lift.isAmbient name →
          name ∈ (Scope.analyze lifted.program).topLevelNames) := by
  refine ⟨fun ranged => ?_, fun lifted again known knownAgain => ?_⟩
  · -- No factory is named `require` with the usual suffix, so the second time goes through as well.
    have spared := Lift.require_not_mem_factories (s := s) (by rw [suffix]; decide) program
    obtain ⟨lifted, known⟩ := Lift.exists_liftWith _ s isProgram ranged
    have standing := Lift.isStanding_lift (fun t held => .inl (ranged t held)) spared known
    exact ⟨lifted, _, known,
      Lift.liftWith_of_standing _ s (Lift.program_of_lift s known).1 standing⟩
  obtain ⟨stays, list, items⟩ := Lift.program_of_lift s known
  obtain ⟨_, _, itemsAgain⟩ := Lift.program_of_lift s knownAgain
  have rests : ∀ u ∈ (lifted.program.get "body").items, Lift.Rests s.marker u := by
    rw [items, List.forall_mem_append]
    exact ⟨Lift.rests_opening _ _, Lift.rests_steps suffix declared _⟩
  have none : ∀ u ∈ (lifted.program.get "body").items, u.yieldsExports = false := by
    obtain ⟨_, pending⟩ := Lift.programTally_lift known
    -- The first time uses up the only assignment that exports can be made of.
    have fewer : (Lift.programTally program).2 ≤ 1 :=
      Nat.le_trans (List.countP_mono_left fun t _ => Tree.assignsObject_of_yieldsExports) single
    have zero : (Lift.programTally lifted.program).2 = 0 := by omega
    simpa using List.countP_eq_zero.mp zero
  obtain ⟨same, still⟩ :=
    Lift.steps_of_rests rests none (.ofLedger (Scope.analyze lifted.program))
  have body : Lift.newBody s lifted.program = (lifted.program.get "body").items := same
  have quiet : Lift.isCommentedBelow s lifted.program = false := still
  -- The program stays the same if and only if nothing is put before its body.
  rw [body] at itemsAgain
  have fixed : again.program = lifted.program ↔
      Lift.opening (Lift.finalNames s lifted.program) (lifted.program.get "body").items = [] := by
    constructor
    · intro equal
      rw [equal] at itemsAgain
      exact List.self_eq_append_left.mp itemsAgain
    · intro empty
      have first := Lift.program_lift known
      have second := Lift.program_lift knownAgain
      rw [body, empty, quiet, List.nil_append, Tree.mapMark_unflagged, items, first,
        Tree.mapField_twice, ← first] at second
      exact second
  refine fixed.trans (Lift.opening_eq_nil_iff.trans ⟨?_, ?_⟩)
  · -- A name that is known elsewhere counts as mentioned, and would be defined.
    intro defined u held name foreign ambient
    by_contra free
    exact defined name ambient ((Lift.needs_finalNames s lifted.program ambient).mpr
      ⟨free, u, held, Tree.foreignNames_subset u foreign⟩)
  · intro bound name ambient needed
    obtain ⟨free, u, held, mentioned⟩ := (Lift.needs_finalNames s lifted.program ambient).mp needed
    rcases Lift.mentions_lift isProgram series regular declared known held ambient mentioned with
      foreign | top
    · exact free (bound u held name foreign ambient)
    · exact free top

/-- A factory that is given an ambient name, a call with something that is no string literal, a
buried call and an assignment to `module.exports` are all dealt with at the first time. -/
theorem lift_lift_mixed :
    let load (target : Tree) : Tree := .call (.identifier "require") [target]
    let declaration : Tree := .variableDeclaration (.text "const")
      [.variableDeclarator (.identifier "a")
        (.call (load (.stringLiteral '"' "x")) [.identifier "__dirname"]),
        .variableDeclarator (.identifier "b") (load (.identifier "a"))]
    let buried : Tree := .synthetic "IfStatement" [("test", .identifier "a"),
      ("consequent", .synthetic "ExpressionStatement"
        [("expression", load (.stringLiteral '"' "y"))])]
    let assignment := exportsAssignment (.synthetic "ObjectExpression"
      [("properties", .list [.synthetic "Property" [("key", .identifier "c"),
        ("computed", .flag false), ("value", .identifier "b"), ("kind", .text "init"),
        ("method", .flag false)]])])
    let program : Tree := .synthetic "Program" [("body", .list
      [declaration.readAt ⟨0, 52⟩, buried.readAt ⟨53, 73⟩, assignment.readAt ⟨74, 100⟩])]
    let s : Surroundings := { isFile := fun _ => false }
    (program.get "body").isSeries ∧ program.Ranged ∧
      (∀ part ∈ program.parts, part.Regular) ∧
      (program.get "body").items.countP Tree.assignsObject = 1 ∧
      ∃ lifted again, lift s program = .ok lifted ∧ lift s lifted.program = .ok again ∧
        (lifted.program.get "body").items.map Tree.kind? =
          [some "ImportDeclaration", some "ImportDeclaration", some "VariableDeclaration",
            some "ImportDeclaration", some "VariableDeclaration", some "IfStatement",
            some "ExportNamedDeclaration", some "ExportDefaultDeclaration"] ∧
        again.program = lifted.program := by
  intro load declaration buried assignment program s
  have ranged : program.Ranged := by decide
  have regular : ∀ part ∈ program.parts, part.Regular := by decide +kernel
  have single : (program.get "body").items.countP Tree.assignsObject = 1 := by decide +kernel
  obtain ⟨lifts, each⟩ :=
    @lift_lift program rfl rfl regular (by decide +kernel) (Nat.le_of_eq single) s rfl
  obtain ⟨lifted, again, known, knownAgain⟩ := lifts ranged
  have same := each lifted again known knownAgain
  have kinds : ∀ result ∈ (lift s program).toOption,
      (result.program.get "body").items.map Tree.kind? =
        [some "ImportDeclaration", some "ImportDeclaration", some "VariableDeclaration",
          some "ImportDeclaration", some "VariableDeclaration", some "IfStatement",
          some "ExportNamedDeclaration", some "ExportDefaultDeclaration"] := by
    decide +kernel
  -- That ambient names are bound at the top level has to hold of the result, not of the program.
  have foreign : ∀ result ∈ (lift s program).toOption,
      ∀ t ∈ (result.program.get "body").items, ∀ name ∈ t.foreignNames,
        Lift.isAmbient name → name ∈ (Scope.analyze result.program).topLevelNames := by
    decide +kernel
  have found : lifted ∈ (lift s program).toOption := by
    rw [known]
    rfl
  exact ⟨rfl, ranged, regular, single, lifted, again, known, knownAgain, kinds lifted found,
    same.mpr (foreign lifted found)⟩

end ModuleLift
