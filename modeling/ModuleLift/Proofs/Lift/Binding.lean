import ModuleLift.Proofs.Lift.Names
import ModuleLift.Proofs.Scope.Stored
import ModuleLift.Proofs.Tree.Shape

/-! Lifting keeps what a program binds: names stay bound in the scope they were bound in, and only
factories and the definitions put before the body are new. -/

namespace ModuleLift

open Scope (Task)

/-- A property of a flat pattern binds the name that is its value. -/
theorem of_patternPair? {property : Tree} {pair : Text × Text}
    (found : patternPair? property = some pair) :
    property.isA "Property" ∧ (property.get "computed").isSet = false ∧
      (property.get "value").isIdentifier ∧ pair.2 = (property.get "value").name := by
  -- All conditions have to be met for a pair to be given.
  rw [patternPair?] at found
  split at found
  · rename_i plain
    rw [Bool.and_eq_true, Bool.not_eq_true'] at plain
    split at found
    · split at found
      · rename_i isName
        cases found
        exact ⟨plain.1, plain.2, isName, rfl⟩
      · cases found
    · cases found
  · cases found

/-- What all items are taken as tells what they give, if each gives one thing. -/
theorem flatMap_of_mapM {α β γ : Type} {f : α → Option β} {g : α → List γ} {h : β → γ}
    (each : ∀ a b, f a = some b → g a = [h b]) {items : List α} {results : List β}
    (found : items.mapM f = some results) : items.flatMap g = results.map h := by
  -- Every item is taken as something, so every item gives one thing.
  induction items generalizing results with
  | nil =>
    cases found
    rfl
  | cons a rest ih =>
    rw [List.mapM_cons] at found
    obtain ⟨b, here, more⟩ := Option.bind_eq_some_iff.mp found
    obtain ⟨others, later, done⟩ := Option.bind_eq_some_iff.mp more
    cases done
    rw [List.flatMap_cons, each a b here, ih later]
    rfl

namespace Tree

/-- Whether a value is no part of a program: no list, and no node but a record of single values. -/
def isDatum : Tree → Bool
  | .list _ => false
  | .node kind _ fields =>
    kind.isNone && fields.all fun field => !field.2.isNode && field.2.items.isEmpty
  | _ => true

/-- A node with its program parts where they belong: its fields have different names; for the kinds
that lifting takes apart all other fields are notes or data; and what is passed on is a list. -/
structure Regular (t : Tree) : Prop where
  names : (t.fields.map (·.1)).Nodup
  held : ∀ keys ∈ heldIn? t.kind?, ∀ field ∈ t.fields,
    field.1 ∈ keys ∨ Task.isNote field.1 ∨ field.2.isDatum
  given : (t.get "arguments").isSeries

instance (t : Tree) : Decidable t.Regular :=
  decidable_of_iff
    ((t.fields.map (·.1)).Nodup ∧
      (∀ keys ∈ heldIn? t.kind?, ∀ field ∈ t.fields,
        field.1 ∈ keys ∨ Task.isNote field.1 ∨ field.2.isDatum) ∧
      (t.get "arguments").isSeries)
    ⟨fun ⟨names, held, given⟩ => ⟨names, held, given⟩,
      fun ⟨names, held, given⟩ => ⟨names, held, given⟩⟩

/-- A bare tree is a node if the tree is. -/
@[simp] theorem isNode_bare (t : Tree) : t.bare.isNode = t.isNode := by
  cases t <;> simp [bare, isNode]

/-- A bare tree is a datum if the tree is. -/
@[simp] theorem isDatum_bare (t : Tree) : t.bare.isDatum = t.isDatum := by
  -- Bare fields are those of the node, under the same keys.
  cases t with
  | node kind mark fields => simp [bare_node, isDatum, bareField, Function.comp_def]
  | list items => simp [isDatum]
  | _ => rfl

/-- Whether a node is regular is told by the bare tree. -/
theorem regular_bare (t : Tree) : t.Regular ↔ t.bare.Regular := by
  have names : t.bare.fields.map (·.1) = t.fields.map (·.1) := by
    rw [fields_bare, List.map_map]
    rfl
  -- Of a field only its key matters, and whether its value is a datum.
  have held (keys : List String) : (∀ field ∈ t.bare.fields,
        field.1 ∈ keys ∨ Task.isNote field.1 ∨ field.2.isDatum) ↔
      ∀ field ∈ t.fields, field.1 ∈ keys ∨ Task.isNote field.1 ∨ field.2.isDatum := by
    rw [fields_bare, List.forall_mem_map]
    simp [bareField]
  constructor
  · rintro ⟨distinct, known, given⟩
    exact ⟨by rwa [names], fun keys row => (held keys).mpr (known keys (by simpa using row)),
      by simpa using given⟩
  · rintro ⟨distinct, known, given⟩
    exact ⟨by rwa [← names], fun keys row => (held keys).mp (known keys (by simpa using row)),
      by simpa using given⟩

/-- A tree in which all nodes are regular. -/
def Orderly (t : Tree) : Prop := ∀ part ∈ t.parts, part.Regular

/-- What a field of an orderly tree holds is orderly. -/
theorem Orderly.get {t : Tree} (orderly : t.Orderly) {key : String}
    (entered : isNoteKey key = false) : (t.get key).Orderly :=
  fun part member => orderly part ((parts_get_sublist t entered).subset member)

/-- The elements of a list in an orderly tree are orderly. -/
theorem Orderly.item {t item : Tree} (orderly : t.Orderly) {key : String}
    (entered : isNoteKey key = false) (held : item ∈ (t.get key).items) : item.Orderly :=
  fun part member => orderly part ((parts_sublist_of_mem_get entered held).subset member)

/-- A node of some kind in an orderly tree is regular. -/
theorem Orderly.self {t : Tree} (orderly : t.Orderly) {kind : String} (isA : t.isA kind) :
    t.Regular :=
  orderly t (mem_parts_of_kind (kind_of_isA isA))

/-- Commenting keeps a tree orderly. -/
theorem Orderly.annotate {t : Tree} (orderly : t.Orderly) (marker : Text) (nested : Bool) :
    (t.annotate marker nested).1.Orderly :=
  forall_parts_of_bare_eq regular_bare (bare_annotate marker nested t) orderly

end Tree

namespace Scope.Task

variable {place : Place} {t : Tree}

/-- Data bind nothing. -/
theorem binds_datum (datum : t.isDatum) : (visit place t).binds = [] := by
  cases t with
  | list items => cases datum
  | node kind mark fields =>
    rw [Tree.isDatum, Bool.and_eq_true, List.all_eq_true] at datum
    obtain ⟨kindless, single⟩ := datum
    have none : kind = none := by simpa using kindless
    subst none
    rw [binds_unruled rfl (by simp [Tree.kind?]), List.flatMap_eq_nil_iff]
    -- Each field holds a single value.
    intro field held
    have value := single field (List.mem_filter.mp held).1
    rw [Bool.and_eq_true] at value
    exact binds_value (by simpa using value.1) (by simpa using value.2)
  | _ => rw [binds_value rfl rfl]

/-- A node of a kind that lifting takes apart binds what the fields of its parts bind. -/
theorem mem_binds_held (regular : t.Regular) {kind : String} (isA : t.isA kind)
    {keys : List String} (known : Tree.heldIn? (some kind) = some keys)
    (unruled : kind ∉ ruled) {entry : Bool × Text} :
    entry ∈ (visit place t).binds ↔ ∃ key ∈ keys, entry ∈ (visit place (t.get key)).binds := by
  have same : t.kind? = some kind := beq_iff_eq.mp isA
  rw [binds_unruled (isNode_of_isA isA) (kind_ne_of_unruled isA unruled), List.mem_flatMap]
  constructor
  · rintro ⟨field, member, bound⟩
    obtain ⟨held, walked⟩ := List.mem_filter.mp member
    -- Neither a note nor a datum binds anything.
    rcases regular.held keys (by rw [same]; exact known) field held with row | note | datum
    · refine ⟨field.1, row, ?_⟩
      rw [Tree.get, Tree.lookup_of_mem regular.names held]
      exact bound
    · simp [note] at walked
    · rw [binds_datum datum] at bound
      cases bound
  · rintro ⟨key, row, bound⟩
    rcases t.get_eq_null_or_mem key with absent | held
    · rw [absent, binds_value rfl rfl] at bound
      cases bound
    · have entered := (Tree.nodup_of_heldIn known).2 key row
      refine ⟨_, List.mem_filter.mpr ⟨held, ?_⟩, bound⟩
      simp [isNote_of_isNoteKey entered]

/-- A name, or a literal, binds nothing where it stands. -/
theorem binds_atom (regular : t.Regular) {kind : String} (isA : t.isA kind)
    (known : Tree.heldIn? (some kind) = some []) (unruled : kind ∉ ruled) :
    (visit place t).binds = [] := by
  -- Nothing is held below it that could bind a name.
  refine List.eq_nil_iff_forall_not_mem.mpr fun entry bound => ?_
  obtain ⟨key, row, _⟩ := (mem_binds_held regular isA known unruled).mp bound
  cases row

/-- A list that may be missing binds what its elements bind. -/
theorem binds_series (series : t.isSeries) :
    (visit place t).binds = t.items.flatMap fun item => (visit place item).binds := by
  -- A missing list has no elements.
  cases t with
  | list items => exact binds_list place items
  | null => rw [binds_value rfl rfl]; rfl
  | _ => cases series

/-- A string literal binds nothing. -/
theorem binds_stringLiteral (literal : t.stringValue?.isSome) (orderly : t.Orderly) :
    (visit place t).binds = [] := by
  -- A string value is that of a literal.
  have isLiteral : t.isA "Literal" := by
    rw [Tree.stringValue?] at literal
    split at literal
    · exact (Bool.and_eq_true_iff.mp ‹_›).1
    · cases literal
  exact binds_atom (orderly.self isLiteral) isLiteral rfl (by decide)

/-- A call of `require` with a string literal binds nothing. -/
theorem binds_requires {target : Tree} (call : Loader.Requires t target)
    (literal : target.stringValue?.isSome) (orderly : t.Orderly) : (visit place t).binds = [] := by
  -- The callee is a name and the only argument a literal.
  have name := (Bool.and_eq_true_iff.mp call.callee).1
  have held : target ∈ (t.get "arguments").items := by simp [call.single]
  rw [binds_call call.isCall, binds_atom ((orderly.get rfl).self name) name rfl (by decide),
    binds_series (orderly.self call.isCall).given, call.single, List.nil_append,
    List.flatMap_singleton]
  exact binds_stringLiteral literal (orderly.item rfl held)

/-- An expression that takes a module by a string literal binds what a factory is given, if it is
one. -/
theorem binds_calls {loader : Loader} (calls : Loader.Calls t loader)
    (literal : loader.target.stringValue?.isSome) (orderly : t.Orderly) :
    (visit place t).binds = loader.given.flatMap fun item => (visit place item).binds := by
  cases calls with
  | plain call => exact binds_requires call literal orderly
  | factory isCall inner _ =>
    rw [binds_call isCall, binds_requires inner literal (orderly.get rfl),
      binds_series (orderly.self isCall).given]
    rfl
  | member isMember inner _ property =>
    have object : (visit place (t.get "object")).binds = [] :=
      binds_requires inner literal (orderly.get rfl)
    have name : (visit place (t.get "property")).binds = [] :=
      binds_atom ((orderly.get rfl).self property) property rfl (by decide)
    -- Neither the module nor the name of the member binds anything.
    refine List.eq_nil_iff_forall_not_mem.mpr fun entry bound => ?_
    rw [mem_binds_held (orderly.self isMember) isMember rfl (by decide)] at bound
    simp [object, name] at bound

/-- A flat pattern binds its local names. -/
theorem binds_flat (kind : BindingKind) {pairs : List (Text × Text)}
    (isPattern : t.isA "ObjectPattern") (found : patternPairs? t = some pairs) :
    (pattern kind place t).binds = pairs.map fun pair => (place.scope == 0, pair.2) := by
  -- Each property has a name as its value, and binds that.
  rw [binds_pattern kind (isNode_of_isA isPattern), ofPattern, beq_iff_eq.mp isPattern]
  change List.flatMap binds (List.flatMap _ (t.get "properties").items) = _
  rw [List.flatMap_assoc]
  refine flatMap_of_mapM (fun property pair here => ?_) found
  obtain ⟨isProperty, plain, name, bound⟩ := of_patternPair? here
  simp [isProperty, plain, binds_pattern_name kind name, bound]

/-- Marks do not tell which names a value binds. -/
@[simp] theorem binds_mapMark (place : Place) (t : Tree) (change : Mark → Mark) :
    (visit place (t.mapMark change)).binds = (visit place t).binds := by
  -- The walk goes by kinds and fields; a node without a kind is passed over by the same rule.
  cases t with
  | node kind mark fields =>
    cases kind with
    | some name => exact binds_visit_congr (Tree.skeleton_mapMark rfl change) place
    | none =>
      rw [Tree.mapMark, binds_unruled rfl (by simp [Tree.kind?]),
        binds_unruled rfl (by simp [Tree.kind?])]
      rfl
  | _ => rfl

/-- A node that is put in, of a kind without a rule, binds what its fields bind. -/
theorem binds_synthetic (place : Place) {kind : String} (unruled : kind ∉ ruled)
    (fields : List (String × Tree)) :
    (visit place (.synthetic kind fields)).binds =
      (fields.filter fun field => !isNote field.1).flatMap fun field =>
        (visit place field.2).binds :=
  binds_unruled rfl (kind_ne_of_unruled (beq_self_eq_true _) unruled)

/-- A missing value binds nothing. -/
@[simp] theorem binds_null (place : Place) : (visit place .null).binds = [] := binds_value rfl rfl

/-- A flag binds nothing. -/
@[simp] theorem binds_flag (place : Place) (value : Bool) :
    (visit place (.flag value)).binds = [] :=
  binds_value rfl rfl

/-- A text binds nothing. -/
@[simp] theorem binds_text (place : Place) (value : Text) :
    (visit place (.text value)).binds = [] :=
  binds_value rfl rfl

/-- A name that is put in binds nothing where it stands. -/
@[simp] theorem binds_identifier (place : Place) (name : Text) :
    (visit place (.identifier name)).binds = [] := by
  -- It has one field, which is a text.
  rw [Tree.identifier, binds_synthetic place (by decide)]
  simp [isNote]

/-- A call that is put in binds what is bound in what it is made of. -/
@[simp] theorem binds_synthetic_call (place : Place) (callee : Tree) (arguments : List Tree) :
    (visit place (.call callee arguments)).binds =
      (visit place callee).binds ++ arguments.flatMap fun item => (visit place item).binds := by
  -- The arguments are a list, which binds what its items bind.
  rw [binds_call rfl]
  exact congrArg _ (binds_list place arguments)

/-- The address of the module binds nothing. -/
@[simp] theorem binds_importMetaUrl (place : Place) :
    (visit place .importMetaUrl).binds = [] := by
  -- It is made of names only.
  rw [Tree.importMetaUrl, binds_synthetic place (by decide)]
  have object : (visit place (.synthetic "MetaProperty"
      [("meta", .identifier "import"), ("property", .identifier "meta")])).binds = [] := by
    rw [binds_synthetic place (by decide)]
    simp [isNote]
  simp [isNote, object]

end Scope.Task

namespace Tree

/-- What a top-level statement binds, each name with whether it is bound at the top level. -/
def bindings (t : Tree) : List (Bool × Text) := (Task.visit ⟨0, 0⟩ t).binds

/-- What a declarator at the top level binds. -/
def declares (kind : BindingKind) (d : Tree) : List (Bool × Text) :=
  (Task.pattern kind ⟨0, 0⟩ (d.get "id")).binds ++ (d.get "init").bindings

/-- What stands beside a node binds nothing. -/
theorem bindings_mapMark (t : Tree) (change : Mark → Mark) :
    (t.mapMark change).bindings = t.bindings :=
  Task.binds_mapMark ..

/-- A place does not change what a statement binds. -/
@[simp] theorem bindings_anchor (t : Tree) (region : Region) :
    (t.anchor region).bindings = t.bindings :=
  bindings_mapMark ..

/-- A comment does not change what a statement binds. -/
@[simp] theorem bindings_comment (t : Tree) (text : Text) :
    (t.comment text).bindings = t.bindings :=
  bindings_mapMark ..

/-- Commenting buried calls does not change what a statement binds. -/
theorem bindings_annotate (marker : Text) (nested : Bool) (t : Tree) :
    (t.annotate marker nested).1.bindings = t.bindings :=
  Task.binds_visit_congr (skeleton_annotate marker nested t) _

/-- A declaration binds what its declarators bind. -/
theorem bindings_declaration {t : Tree} (isDeclaration : t.isA "VariableDeclaration") :
    t.bindings =
      (t.get "declarations").items.flatMap (declares (Task.bindingKind (t.get "kind"))) := by
  -- At the top level it makes no difference whether a name is hoisted.
  rw [bindings, Task.binds_declaration isDeclaration, Task.ofDeclaration, List.flatMap_assoc]
  refine List.flatMap_congr fun d _ => ?_
  simp [declares, bindings, Scope.Place.hoisted]

/-- What is left of a declaration binds what its declarators bind. -/
theorem bindings_variableDeclaration (kind : Tree) (ds : List Tree) :
    (variableDeclaration kind ds).bindings = ds.flatMap (declares (Task.bindingKind kind)) :=
  bindings_declaration rfl

/-- A name that is declared is bound at the top level. -/
theorem declares_variableDeclarator (kind : BindingKind) (id init : Tree) :
    declares kind (variableDeclarator id init) =
      (Task.pattern kind ⟨0, 0⟩ id).binds ++ init.bindings := rfl

/-- A name binds nothing where it stands. -/
@[simp] theorem bindings_identifier (name : Text) : (identifier name).bindings = [] :=
  Task.binds_identifier ..

/-- A call that is put in binds what is bound in what it is made of. -/
theorem bindings_call (callee : Tree) (arguments : List Tree) :
    (call callee arguments).bindings = callee.bindings ++ arguments.flatMap bindings :=
  Task.binds_synthetic_call ..

/-- An import binds its local names at the top level. -/
theorem bindings_importNamed (pairs : List (Text × Text)) (source : Tree) :
    (importNamed pairs source).bindings = pairs.map fun pair => (true, pair.2) := by
  -- Each specifier binds its local name.
  have specifiers : ((importNamed pairs source).get "specifiers").items = pairs.map fun pair =>
      synthetic "ImportSpecifier" [("imported", identifier pair.1), ("local", identifier pair.2)] :=
    rfl
  rw [bindings, Task.binds_import rfl, specifiers, List.flatMap_map]
  simp only [Task.binds_name]
  induction pairs with
  | nil => rfl
  | cons pair rest ih => rw [List.flatMap_cons, ih rfl]; rfl

/-- An import of a module under one name binds that. -/
theorem bindings_importDefault (name : Text) (source : Tree) :
    (importDefault name source).bindings = [(true, name)] := by
  -- There is one specifier.
  rw [bindings, Task.binds_import rfl]
  have specifiers : ((importDefault name source).get "specifiers").items =
      [synthetic "ImportDefaultSpecifier" [("local", identifier name)]] := rfl
  rw [specifiers, List.flatMap_singleton, Task.binds_name]
  rfl

/-- An import without names binds nothing. -/
theorem bindings_importEffects (source : Tree) : (importEffects source).bindings = [] := by
  -- There are no specifiers.
  rw [bindings, Task.binds_import rfl]
  rfl

/-- An export of names binds nothing. -/
theorem bindings_exportNamed (pairs : List (Text × Text)) : (exportNamed pairs).bindings = [] := by
  -- The names in it stand for others.
  have specifier (bound exported : Text) : (Task.visit ⟨0, 0⟩ (synthetic "ExportSpecifier"
      [("local", identifier bound), ("exported", identifier exported)])).binds = [] := by
    rw [Task.binds_synthetic _ (by decide)]
    simp [Task.isNote]
  rw [bindings, exportNamed, Task.binds_synthetic _ (by decide)]
  simp [Task.isNote, List.flatMap_map, specifier]

/-- The default export binds what its value binds. -/
theorem bindings_exportDefault (value : Tree) :
    (exportDefault value).bindings = value.bindings := by
  -- The value is its only field.
  rw [bindings, exportDefault, Task.binds_synthetic _ (by decide)]
  simp [Task.isNote, bindings]

end Tree

namespace Lift

open ModuleLift.Tree (bindings declares)

/-- What a fate binds, in its import and in the declarator that is left. -/
def Fate.binds (kind : BindingKind) (fate : Fate) : List (Bool × Text) :=
  fate.statement?.toList.flatMap bindings ++ fate.declarator?.toList.flatMap (declares kind)

section Declarators

variable (s : Surroundings) {d : Tree} {kind : BindingKind} {entry : Bool × Text}

/-- An import binds what the declarator bound that it takes the place of. -/
theorem Binds.bindings_eq {loader : Loader} {source statement : Tree}
    (binds : Binds (d.get "id") source loader statement)
    (calls : Loader.Calls (d.get "init") loader) (literal : loader.target.stringValue?.isSome)
    (orderly : d.Orderly) : statement.bindings = declares kind d := by
  -- The call itself binds nothing: nothing is given to what is loaded.
  have none : (d.get "init").bindings = loader.given.flatMap bindings :=
    Task.binds_calls calls literal (orderly.get rfl)
  rw [declares, none]
  cases binds with
  | whole name =>
    simp [Tree.bindings_importDefault, @Task.binds_pattern_name ⟨0, 0⟩ _ kind name, Loader.given]
  | member name =>
    simp [Tree.bindings_importNamed, @Task.binds_pattern_name ⟨0, 0⟩ _ kind name, Loader.given]
  | flat pattern found =>
    simp [Tree.bindings_importNamed, Task.binds_flat kind pattern found, Loader.given]

/-- What becomes of a declarator binds what it bound, and the name of its factory. -/
theorem mem_binds_declarator (p : Progress) (orderly : d.Orderly) :
    entry ∈ (declarator s d p).1.binds kind ↔ entry ∈ declares kind d ∨
      entry ∈ (freshNames p.names.bound
        (if d.takesFactory then [(d.get "id").name ++ s.factorySuffix] else [])).map
          (true, ·) := by
  have step := declarator_step s d p
  generalize declarator s d p = result at step ⊢
  cases step with
  | uncalled uncalled =>
    simp [Tree.takesFactory_of_not_isLowered (Tree.isLowered_of_uncalled uncalled), freshNames,
      Fate.binds, Fate.statement?, Fate.declarator?]
  | dynamic called unnamed =>
    simp [Tree.takesFactory_of_not_isLowered (Tree.isLowered_of_unnamed called unnamed), freshNames,
      Fate.binds, Fate.statement?, Fate.declarator?]
  | refused called named unfit =>
    simp [Tree.takesFactory_of_not_isLowered unfit, freshNames, Fate.binds, Fate.statement?,
      Fate.declarator?]
  | imported called named fit binds =>
    have same := @Binds.bindings_eq _ kind _ _ _ binds (Loader.calls_of_classify called)
      (Option.isSome_of_eq_some named) orderly
    simp [Tree.takesFactory_of_isTaken fit, freshNames, Fate.binds, Fate.statement?,
      Fate.declarator?, same]
  | @factored target arguments module factory called named fit fresh =>
    -- What the factory is given is passed on as it was.
    have init : (d.get "init").bindings = arguments.flatMap bindings :=
      Task.binds_calls (Loader.calls_of_classify called) (Option.isSome_of_eq_some named)
        (orderly.get rfl)
    have left : declares kind (.variableDeclarator (d.get "id")
        (.call (.identifier factory) arguments)) = declares kind d := by
      rw [Tree.declares_variableDeclarator, declares, init]
      simp [Tree.bindings_call]
    simp only [Fate.binds, Fate.statement?, Fate.declarator?, Option.toList_some,
      List.flatMap_singleton, Tree.bindings_importDefault, left, fit, if_true, freshNames, ← fresh,
      List.map_cons, List.map_nil, List.mem_append, List.mem_singleton]
    exact or_comm

/-- What becomes of several declarators binds what they bound, and the names of their factories. -/
theorem mem_binds_declarators {ds : List Tree} (p : Progress)
    (orderly : ∀ d ∈ ds, d.Orderly) :
    entry ∈ (declarators s ds p).1.flatMap (Fate.binds kind) ↔ entry ∈ ds.flatMap (declares kind) ∨
      entry ∈ (freshNames p.names.bound (factoryBases s
        ((ds.filter Tree.takesFactory).map fun d => (d.get "id").name))).map (true, ·) := by
  induction ds generalizing p with
  | nil => simp [declarators, factoryBases, freshNames]
  | cons d rest ih =>
    have here := @mem_binds_declarator s d kind entry p (orderly d List.mem_cons_self)
    have later := ih (declarator s d p).2 fun other held =>
      orderly other (List.mem_cons_of_mem _ held)
    have bound : (declarator s d p).2.names.bound = p.names.bound ++ freshNames p.names.bound
        (if d.takesFactory then [(d.get "id").name ++ s.factorySuffix] else []) := by
      rw [names_declarator]
      rfl
    -- The names of later factories are chosen with this one taken.
    rw [bound] at later
    have fates : (declarators s (d :: rest) p).1 =
        (declarator s d p).1 :: (declarators s rest (declarator s d p).2).1 := rfl
    rw [fates, List.flatMap_cons, List.mem_append, here, later, factoryBases_cons,
      freshNames_append, List.map_append, List.mem_append, List.flatMap_cons, List.mem_append]
    exact or_or_or_comm

end Declarators

section Statements

variable (s : Surroundings) {t : Tree} {entry : Bool × Text}

/-- Anchored statements bind what they bind anywhere. -/
theorem bindings_anchorAll (region : Region) (added : List Tree) :
    (anchorAll region added).flatMap bindings = added.flatMap bindings :=
  flatMap_anchorAll Tree.bindings_anchor region added

/-- The imports and the rest of a declaration bind what its declarators become. -/
theorem mem_bindings_assemble {marker : Text} {fates : List Fate}
    (some : fates.filterMap Fate.statement? ≠ []) :
    entry ∈ (assemble marker t fates).flatMap bindings ↔
      entry ∈ fates.flatMap (Fate.binds (Task.bindingKind (t.get "kind"))) := by
  have rest : (remainder marker t fates).flatMap bindings =
      (fates.filterMap Fate.declarator?).flatMap
        (declares (Task.bindingKind (t.get "kind"))) := by
    simp only [remainder]
    split
    · rename_i none
      rw [List.isEmpty_iff.mp none]
      rfl
    · rw [List.flatMap_singleton]
      split
      · rw [Tree.bindings_comment, Tree.bindings_variableDeclaration]
      · rw [Tree.bindings_variableDeclaration]
  rw [assemble_eq some, bindings_anchorAll, List.flatMap_append, rest]
  -- Both sides run through the imports and the declarators left of all fates.
  simp only [Fate.binds, List.mem_append, List.mem_flatMap, List.mem_filterMap,
    Option.mem_toList]
  constructor
  · rintro (⟨u, ⟨fate, held, made⟩, bound⟩ | ⟨d, ⟨fate, held, left⟩, bound⟩)
    · exact ⟨fate, held, .inl ⟨u, made, bound⟩⟩
    · exact ⟨fate, held, .inr ⟨d, left, bound⟩⟩
  · rintro ⟨fate, held, ⟨u, made, bound⟩ | ⟨d, left, bound⟩⟩
    · exact .inl ⟨u, ⟨fate, held, made⟩, bound⟩
    · exact .inr ⟨d, ⟨fate, held, left⟩, bound⟩

/-- A declaration becomes statements that bind what it bound, and the names of its factories. -/
theorem mem_bindings_declaration (p : Progress) (isDeclaration : t.isA "VariableDeclaration")
    (orderly : t.Orderly) :
    entry ∈ (declaration s t p).1.flatMap bindings ↔ entry ∈ t.bindings ∨
      entry ∈ (freshNames p.names.bound (factoryBases s t.factoryNames)).map (true, ·) := by
  have fates := @mem_binds_declarators s (Task.bindingKind (t.get "kind")) entry
    (t.get "declarations").items p fun d held => orderly.item rfl held
  rw [← Tree.bindings_declaration isDeclaration] at fates
  have introduced : List.Forall₂ _ _ _ :=
    declarators_introduce s (t.get "declarations").items p
  rw [Tree.factoryNames, if_pos isDeclaration, ← fates]
  simp only [declaration_eq]
  by_cases none : (declarators s (t.get "declarations").items p).1.filterMap Fate.statement? = []
  · -- A factory would have brought in an import, so there is none, and the declaration stays.
    have noFactory : freshNames p.names.bound (factoryBases s
        (((t.get "declarations").items.filter Tree.takesFactory).map fun d =>
          (d.get "id").name)) = [] := by
      generalize freshNames p.names.bound _ = chosen at introduced ⊢
      generalize List.map _ _ = names at introduced
      cases introduced with
      | nil => rfl
      | cons first _ =>
        obtain ⟨fate, held, source, id, arguments, _, rfl⟩ := first
        cases List.filterMap_eq_nil_iff.mp none _ held
    rw [fates, noFactory, assemble_whole none, List.flatMap_singleton]
    simp only [List.map_nil, List.not_mem_nil, or_false]
    split
    · rw [Tree.bindings_comment]
    · rfl
  · exact mem_bindings_assemble none

/-- An assignment to `module.exports` binds what its value binds. -/
theorem mem_bindings_exports {value : Tree} (isExpression : t.isA "ExpressionStatement")
    (assigned : exportsValue? t = some value) (orderly : t.Orderly) :
    entry ∈ t.bindings ↔ entry ∈ value.bindings := by
  obtain ⟨isAssignment, target, rfl⟩ := assigns_of_exportsValue assigned
  simp only [isModuleExports, Bool.and_eq_true] at target
  obtain ⟨⟨⟨isMember, _⟩, object⟩, property⟩ := target
  have expression : (t.get "expression").Orderly := orderly.get rfl
  have left : ((t.get "expression").get "left").Orderly := expression.get rfl
  -- The target is made of two names.
  have names : (Task.visit ⟨0, 0⟩ ((t.get "expression").get "left")).binds = [] := by
    have isObject := (Bool.and_eq_true_iff.mp object).1
    have isProperty := (Bool.and_eq_true_iff.mp property).1
    refine List.eq_nil_iff_forall_not_mem.mpr fun entry bound => ?_
    rw [Task.mem_binds_held (left.self isMember) isMember rfl (by decide)] at bound
    simp [Task.binds_atom ((left.get rfl).self isObject) isObject rfl (by decide),
      Task.binds_atom ((left.get rfl).self isProperty) isProperty rfl (by decide)] at bound
  rw [bindings, Task.mem_binds_held (orderly.self isExpression) isExpression rfl (by decide)]
  simp [Task.mem_binds_held (expression.self isAssignment) isAssignment rfl (by decide), names,
    bindings]

/-- An expression statement becomes statements that bind what it bound. -/
theorem mem_bindings_expressionStatement (p : Progress) (isExpression : t.isA "ExpressionStatement")
    (orderly : t.Orderly) :
    entry ∈ (expressionStatement s t p).1.flatMap bindings ↔ entry ∈ t.bindings := by
  have step := expressionStatement_step s t p
  generalize expressionStatement s t p = result at step ⊢
  cases step with
  | dynamic => simp
  | loaded called named =>
    -- The call binds nothing, and an import for its effects does not either.
    have none : (Task.visit ⟨0, 0⟩ (t.get "expression")).binds = [] :=
      Task.binds_calls (Loader.calls_of_classify called) (Option.isSome_of_eq_some named)
        (orderly.get rfl)
    rw [bindings, Task.mem_binds_held (orderly.self isExpression) isExpression rfl (by decide)]
    simp [none, Tree.bindings_importEffects]
  | discarded => simp
  | idle => simp
  | refused => simp
  | exported uncalled assigned =>
    -- Exports bind nothing but what their value binds.
    rw [mem_bindings_exports isExpression assigned orderly, bindings_anchorAll,
      List.flatMap_append, List.flatMap_singleton, Tree.bindings_exportDefault]
    split <;> simp [Tree.bindings_exportNamed]

/-- A top-level statement becomes statements that bind what it bound, and the names of its
factories. -/
theorem mem_bindings_statement (p : Progress) (orderly : t.Orderly) :
    entry ∈ (statement s t p).1.flatMap bindings ↔ entry ∈ t.bindings ∨
      entry ∈ (freshNames p.names.bound (factoryBases s t.factoryNames)).map (true, ·) := by
  -- Factories are called in declarations only, so other statements need no fresh names.
  rw [statement_eq]
  split
  · exact mem_bindings_declaration s p ‹_› orderly
  · rename_i other
    rw [Tree.factoryNames, if_neg other]
    simp only [factoryBases, List.map_nil, freshNames, List.not_mem_nil, or_false]
    split
    · exact mem_bindings_expressionStatement s p ‹_› orderly
    · simp

/-- One statement: commenting what lies below it changes nothing in what it binds. -/
theorem mem_bindings_step (p : Progress) (orderly : t.Orderly) :
    entry ∈ (step s t p).1.flatMap bindings ↔ entry ∈ t.bindings ∨
      entry ∈ (freshNames p.names.bound (factoryBases s t.factoryNames)).map (true, ·) := by
  -- The statement is commented first, which leaves its bindings and factories as they are.
  have became := @mem_bindings_statement s (t.annotate s.marker false).1 entry
    ((p.mention t.mentions).reportAll t.buriedDiagnostics) (orderly.annotate s.marker false)
  rw [Tree.bindings_annotate, factoryNames_annotate, bound_noted] at became
  exact became

/-- The new body binds what the statements bound, and the names of their factories. -/
theorem mem_bindings_steps {ts : List Tree} (p : Progress) (orderly : ∀ t ∈ ts, t.Orderly) :
    entry ∈ (steps s ts p).1.flatMap bindings ↔ entry ∈ ts.flatMap bindings ∨
      entry ∈ (freshNames p.names.bound
        (factoryBases s (ts.flatMap Tree.factoryNames))).map (true, ·) := by
  induction ts generalizing p with
  | nil => simp [steps, factoryBases, freshNames]
  | cons t rest ih =>
    have here := @mem_bindings_step s t entry p (orderly t List.mem_cons_self)
    have later := ih (step s t p).2.2 fun other held => orderly other (List.mem_cons_of_mem _ held)
    -- A later factory is named apart from those of the statements before it.
    rw [bound_step] at later
    simp only [steps, List.flatMap_append, List.mem_append, here, later, List.flatMap_cons]
    rw [factoryBases, factoryBases, factoryBases, List.map_append, freshNames_append,
      List.map_append, List.mem_append]
    exact or_or_or_comm

end Statements

/-- The definitions put before a body bind their names at the top level, and nothing else. -/
theorem bindings_statements (names : Polyfill) :
    names.statements.flatMap bindings = names.declared.map (true, ·) := by
  have path : names.modulePath.bindings = [] := by
    rw [Polyfill.modulePath, Tree.bindings_call]
    simp [bindings]
  have parent : (Tree.call (.identifier names.parentName) [names.modulePath]).bindings = [] := by
    simp [Tree.bindings_call, path]
  have helper (imported bound module : Text) :
      (Polyfill.helperImport imported bound module).bindings = [(true, bound)] :=
    Tree.bindings_importNamed ..
  have constant (name : Text) {init : Tree} (plain : init.bindings = []) :
      (Polyfill.constant name init).bindings = [(true, name)] := by
    rw [Polyfill.constant, Tree.bindings_variableDeclaration, List.flatMap_singleton,
      Tree.declares_variableDeclarator, plain, Task.binds_pattern_name _ rfl]
    rfl
  -- Each statement binds one name, whichever of the two definitions are there.
  cases dir : names.needsDirname <;> cases file : names.needsFilename <;>
    simp [Polyfill.declared_eq, Polyfill.statements, dir, file, helper, constant _ path,
      constant _ parent]

/-- A program binds what its statements bind. -/
theorem entries_program {program : Tree} (isProgram : program.isA "Program")
    (series : (program.get "body").isSeries) :
    (Scope.journal program).entries = (program.get "body").items.flatMap bindings := by
  -- The body is a list, and its items are visited one by one.
  rw [Scope.entries_journal, Task.binds_program isProgram, Task.binds_series series]
  rfl

/-- A lifted program binds what the program bound, and at the top level the names of its factories
and of the definitions put before its body. -/
theorem mem_entries_lift {program : Tree} (isProgram : program.isA "Program")
    (series : (program.get "body").isSeries) (orderly : program.Orderly) (s : Surroundings)
    {lifted : Lifted} (known : lift s program = .ok lifted) {entry : Bool × Text} :
    entry ∈ (Scope.journal lifted.program).entries ↔ entry ∈ (Scope.journal program).entries ∨
      entry ∈ (factories s program ++ (finalNames s program).declared).map (true, ·) := by
  obtain ⟨stays, list, items⟩ := program_of_lift s known
  have body : entry ∈ (newBody s program).flatMap bindings ↔
      entry ∈ (program.get "body").items.flatMap bindings ∨
        entry ∈ (factories s program).map (true, ·) :=
    mem_bindings_steps s _ fun t held => orderly.item rfl held
  have before : (opening (finalNames s program) (newBody s program)).flatMap bindings =
      (finalNames s program).declared.map (true, ·) := by
    simp only [← bindings_statements, opening, List.flatMap_map, Tree.bindings_anchor]
  -- The new body comes after the definitions, but which names are bound does not depend on that.
  rw [entries_program stays list, items, List.flatMap_append, List.mem_append, body, before,
    entries_program isProgram series, List.map_append, List.mem_append]
  exact or_left_comm.trans (or_congr_right or_comm)

end Lift

/-- Lifting binds exactly the names that the program bound, at the top level and in all scopes, and
with them the names under which factories are imported and those of the definitions put before the
body. -/
theorem names_lift {program : Tree} (isProgram : program.isA "Program")
    (series : (program.get "body").isSeries)
    (regular : ∀ part ∈ program.parts, part.Regular) (s : Surroundings) :
    let names := Lift.finalNames s program
    let factories := Lift.factories s program
    (program.Ranged → ∃ lifted, lift s program = .ok lifted) ∧
    ∀ lifted, lift s program = .ok lifted →
      (lifted.program.get "body").items =
        Lift.opening names (Lift.newBody s program) ++ Lift.newBody s program ∧
      List.Forall₂ (Lift.CallsFactory (Lift.newBody s program)) (Lift.factoryUses program)
        factories ∧
      (∀ name, name ∈ (Scope.analyze lifted.program).topLevelNames ↔
        name ∈ (Scope.analyze program).topLevelNames ∨ name ∈ factories ++ names.declared) ∧
      ∀ name, name ∈ (Scope.analyze lifted.program).boundNames ↔
        name ∈ (Scope.analyze program).boundNames ∨ name ∈ factories ++ names.declared := by
  intro names factories
  refine ⟨Lift.exists_liftWith _ s isProgram, fun lifted known => ?_⟩
  -- Which names are bound where is read off the journal, of the program and of what became of it.
  obtain ⟨_, _, items⟩ := Lift.program_of_lift s known
  have entries {entry : Bool × Text} :=
    @Lift.mem_entries_lift program isProgram series regular s lifted known entry
  refine ⟨items, Lift.steps_callsFactories .., fun name => ?_, fun name => ?_⟩
  · rw [Scope.mem_topLevelNames, Scope.mem_topLevelNames, entries]
    simp [names, factories]
  · simp only [Scope.mem_boundNames, entries, exists_or]
    simp [names, factories]

/-- A pattern that becomes an import and a name that is bound to what a factory returns stay bound
at the top level. -/
theorem names_lift_destructured :
    let pattern : Tree := .synthetic "ObjectPattern" [("properties", .list [.synthetic "Property"
      [("key", .identifier "a"), ("computed", .flag false), ("value", .identifier "b")]])]
    let load (module : Text) : Tree := .call (.identifier "require") [.stringLiteral '"' module]
    let declaration : Tree := .variableDeclaration (.text "const")
      [.variableDeclarator pattern (load "x"),
        .variableDeclarator (.identifier "c") (.call (load "y") [.identifier "__dirname"])]
    let program : Tree := .synthetic "Program" [("body", .list [declaration.readAt ⟨0, 63⟩])]
    let s : Surroundings := { isFile := fun _ => false }
    program.isA "Program" ∧ (program.get "body").isSeries ∧ program.Ranged ∧
      (∀ part ∈ program.parts, part.Regular) ∧ Lift.factoryUses program = ["c"] ∧
      ∃ lifted, lift s program = .ok lifted ∧
        ∀ name, name ∈ (Scope.analyze lifted.program).topLevelNames ↔
          name ∈ (Scope.analyze program).topLevelNames ∨
            name ∈ Lift.factories s program ++ (Lift.finalNames s program).declared := by
  intro pattern load declaration program s
  -- The shape of the tree is decided, and the rest holds of any such tree.
  have ranged : program.Ranged := by decide
  have regular : ∀ part ∈ program.parts, part.Regular := by decide
  obtain ⟨lifts, each⟩ := @names_lift program rfl rfl regular s
  obtain ⟨lifted, known⟩ := lifts ranged
  obtain ⟨_, _, topLevel, _⟩ := each lifted known
  exact ⟨rfl, rfl, ranged, regular, rfl, lifted, known, topLevel⟩

end ModuleLift
