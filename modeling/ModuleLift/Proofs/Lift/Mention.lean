import ModuleLift.Proofs.Lift.Binding

/-! Which names count as mentioned, told by where they stand, and when a mentioned name is defined
before the body. -/

namespace ModuleLift

open Scope (Task)

namespace Tree

/-- Where a node stands: the kind of the node around it, whether that has a computed key, and the
field. -/
structure Site where
  parent : Option String
  computed : Bool
  key : String
deriving DecidableEq, Repr

namespace Site

/-- Whether it is the place of a label, of a name after a dot, or of a key before a colon. -/
def isBare (site : Site) : Bool :=
  site.key == "label" ||
    (site.key == "property" && !site.computed &&
      (site.parent == some "MemberExpression" || site.parent == some "MetaProperty")) ||
    (site.key == "key" && !site.computed &&
      (site.parent == some "Property" || site.parent == some "MethodDefinition"))

/-- Whether it is the place of a name by which another module knows what is imported or exported. -/
def isForeign (site : Site) : Bool :=
  (site.parent == some "ImportSpecifier" && site.key == "imported") ||
    (site.parent == some "ExportSpecifier" && site.key == "exported")

/-- Whether what stands there is looked at: it lies in no name and has a meaning of its own. -/
def isOpen (site : Site) : Bool := site.parent != some "Identifier" && !site.isBare

end Site

mutual

/-- The nodes of a value, each with the places passed on the way to it, outer ones first. -/
def placed : Tree → List (List Site × Tree)
  | .list items => placedAll items
  | .node kind mark fields =>
    ([], .node kind mark fields) :: placedFields kind (computedIn fields) fields
  | _ => []

/-- The nodes of the elements of a list. -/
def placedAll : List Tree → List (List Site × Tree)
  | [] => []
  | t :: rest => placed t ++ placedAll rest

/-- The nodes that the fields of a node hold, notes apart. -/
def placedFields (kind : Option String) (computed : Bool) :
    List (String × Tree) → List (List Site × Tree)
  | [] => []
  | (key, value) :: rest =>
    (if isNoteKey key then []
      else (placed value).map fun (path, t) => (⟨kind, computed, key⟩ :: path, t)) ++
      placedFields kind computed rest

end

/-- Nodes of several trees are those of each. -/
theorem placedAll_eq (items : List Tree) : placedAll items = items.flatMap placed := by
  -- The recursion is that of a `flatMap`.
  induction items with
  | nil => rfl
  | cons t rest ih => rw [placedAll, List.flatMap_cons, ih]

/-- Nodes in fields stand behind the place of their field. -/
theorem placedFields_eq (kind : Option String) (computed : Bool)
    (fields : List (String × Tree)) :
    placedFields kind computed fields = fields.flatMap fun field =>
      if isNoteKey field.1 then []
      else (placed field.2).map fun (path, t) => (⟨kind, computed, field.1⟩ :: path, t) := by
  -- Fields with notes are left out.
  induction fields with
  | nil => rfl
  | cons field rest ih =>
    obtain ⟨key, value⟩ := field
    rw [placedFields, List.flatMap_cons, ih]

/-- The walk over references enters what is neither a note nor a bare name. -/
theorem entersField_eq (kind : Option String) (computed : Bool) (key : String) :
    entersField kind computed key = (!isNoteKey key && !Site.isBare ⟨kind, computed, key⟩) := by
  -- Notes are passed over whatever else is known of the field.
  rw [entersField, Site.isBare]
  cases isNoteKey key <;> rfl

/-- What stands in a list stands in an item. -/
theorem mem_placed_list {items : List Tree} {place : List Site × Tree} :
    place ∈ (list items).placed ↔ ∃ item ∈ items, place ∈ item.placed := by
  rw [placed, placedAll_eq, List.mem_flatMap]

/-- A node stands in a node as that node itself, or behind the place of one field. -/
theorem mem_placed_node {kind : Option String} {mark : Mark} {fields : List (String × Tree)}
    {path : List Site} {u : Tree} :
    (path, u) ∈ (node kind mark fields).placed ↔ path = [] ∧ u = node kind mark fields ∨
      ∃ field ∈ fields, isNoteKey field.1 = false ∧ ∃ rest,
        (rest, u) ∈ field.2.placed ∧ path = ⟨kind, computedIn fields, field.1⟩ :: rest := by
  -- A field with notes holds no places at all.
  rw [placed, placedFields_eq, List.mem_cons, Prod.mk.injEq, List.mem_flatMap]
  refine or_congr_right (exists_congr fun field => and_congr_right fun _ => ?_)
  cases isNoteKey field.1 with
  | true => simp
  | false => simp [eq_comm]

/-- The walk over references meets the nodes on the way to which all places are open. -/
theorem mem_visits {t u : Tree} (nested : Bool) :
    (∃ v ∈ visits nested t, v.node = u) ↔
      ∃ path, (path, u) ∈ t.placed ∧ ∀ site ∈ path, site.isOpen := by
  -- Induction on the tree: each field adds one place to the paths through it.
  induction t using Tree.induction generalizing nested with
  | list items ih =>
    constructor
    · rintro ⟨v, met, rfl⟩
      obtain ⟨item, held, inside⟩ := mem_visits_list.mp met
      obtain ⟨path, found, open_⟩ := (ih item held nested).mp ⟨v, inside, rfl⟩
      exact ⟨path, mem_placed_list.mpr ⟨item, held, found⟩, open_⟩
    · rintro ⟨path, found, open_⟩
      obtain ⟨item, held, inside⟩ := mem_placed_list.mp found
      obtain ⟨v, met, rfl⟩ := (ih item held nested).mpr ⟨path, inside, open_⟩
      exact ⟨v, mem_visits_list.mpr ⟨item, held, met⟩, rfl⟩
  | node kind mark fields ih =>
    constructor
    · rintro ⟨v, met, rfl⟩
      rcases mem_visits_node.mp met with rfl | ⟨noName, field, held, enters, inside⟩
      · exact ⟨[], mem_placed_node.mpr (.inl ⟨rfl, rfl⟩), by simp⟩
      · rw [entersField_eq, Bool.and_eq_true, Bool.not_eq_true'] at enters
        obtain ⟨rest, found, open_⟩ := (ih field held _).mp ⟨v, inside, rfl⟩
        refine ⟨_, mem_placed_node.mpr (.inr ⟨field, held, enters.1, rest, found, rfl⟩), ?_⟩
        refine List.forall_mem_cons.mpr ⟨?_, open_⟩
        rw [Site.isOpen, enters.2, Bool.and_true]
        simpa using noName
    · rintro ⟨path, found, open_⟩
      rcases mem_placed_node.mp found with ⟨_, rfl⟩ | ⟨field, held, entered, rest, inside, rfl⟩
      · exact ⟨_, mem_visits_node.mpr (.inl rfl), rfl⟩
      · -- The first place on the path is this field, and it is open.
        obtain ⟨here, later⟩ := List.forall_mem_cons.mp open_
        rw [Site.isOpen, Bool.and_eq_true] at here
        obtain ⟨v, met, same⟩ := (ih field held _).mpr ⟨rest, inside, later⟩
        refine ⟨v, mem_visits_node.mpr (.inr ⟨by simpa using here.1, field, held, ?_, met⟩), same⟩
        rw [entersField_eq, entered, here.2]
        rfl
  | _ => simp [visits, placed]

/-- A name is mentioned if it stands somewhere on the way to which all places are open. -/
theorem mem_mentions {t : Tree} {name : Text} :
    name ∈ t.mentions ↔ ∃ place ∈ t.placed, (∀ site ∈ place.1, site.isOpen) ∧
      place.2.isIdentifier ∧ place.2.name = name := by
  -- Visits and places are two accounts of the same walk.
  rw [mentions]
  constructor
  · intro mentioned
    obtain ⟨v, met, rfl⟩ := List.mem_map.mp mentioned
    obtain ⟨member, isName⟩ := List.mem_filter.mp met
    obtain ⟨path, found, open_⟩ := (mem_visits false).mp ⟨v, member, rfl⟩
    exact ⟨(path, v.node), found, open_, isName, rfl⟩
  · rintro ⟨⟨path, u⟩, found, open_, isName, rfl⟩
    obtain ⟨v, met, same⟩ := (mem_visits false).mpr ⟨path, found, open_⟩
    subst same
    exact List.mem_map.mpr ⟨v, List.mem_filter.mpr ⟨met, isName⟩, rfl⟩

end Tree

namespace Polyfill

/-- Whether a name is one of the two ambient names, and has to be defined. -/
def needs (p : Polyfill) (name : Text) : Prop :=
  dirnameName = name ∧ p.needsDirname ∨ filenameName = name ∧ p.needsFilename

/-- A name is defined exactly if it has to be. -/
theorem exists_constant_iff (p : Polyfill) (name : Text) :
    (∃ t ∈ p.statements, t.isA "VariableDeclaration" ∧ t.boundNames = [name]) ↔ p.needs name := by
  have helper (imported bound module : Text) :
      (helperImport imported bound module).isA "VariableDeclaration" = false := rfl
  have constant (name : Text) (init : Tree) :
      (constant name init).isA "VariableDeclaration" = true := rfl
  -- The imports of helpers are no declarations, and each constant declares one name.
  cases dir : p.needsDirname <;> cases file : p.needsFilename <;>
    simp [statements, needs, dir, file, helper, constant, boundNames_constant]

end Polyfill

namespace Lift

/-- The two names that a module has to define for itself. -/
def isAmbient (name : Text) : Bool := name == dirnameName || name == filenameName

/-- The definitions put before a body are the same wherever it starts. -/
theorem exists_opening_iff (names : Polyfill) (body : List Tree) (name : Text) :
    (∃ t ∈ opening names body, t.isA "VariableDeclaration" ∧ t.boundNames = [name]) ↔
      names.needs name := by
  -- A definition keeps its kind and its name in whatever place it stands.
  rw [← names.exists_constant_iff]
  simp only [opening, List.mem_map]
  constructor
  · rintro ⟨_, ⟨t, held, rfl⟩, isDeclaration, bound⟩
    rw [Tree.boundNames_anchor] at bound
    exact ⟨t, held, by simpa [Tree.anchor] using isDeclaration, bound⟩
  · rintro ⟨t, held, isDeclaration, bound⟩
    refine ⟨_, ⟨t, held, rfl⟩, by simpa [Tree.anchor] using isDeclaration, ?_⟩
    rw [Tree.boundNames_anchor, bound]

/-- An ambient name has to be defined if it is mentioned and not bound at the top level. -/
theorem needs_finalNames (s : Surroundings) (program : Tree) {name : Text}
    (ambient : isAmbient name) :
    (finalNames s program).needs name ↔ name ∉ (Scope.analyze program).topLevelNames ∧
      ∃ t ∈ (program.get "body").items, name ∈ t.mentions := by
  -- The two ambient names are looked for separately.
  have apart : dirnameName ≠ filenameName := by decide
  rw [isAmbient, Bool.or_eq_true, beq_iff_eq, beq_iff_eq] at ambient
  rw [finalNames_eq, Polyfill.needs]
  rcases ambient with rfl | rfl
  · simp [Polyfill.needsDirname, apart.symm, and_comm]
  · simp [Polyfill.needsFilename, apart, and_comm]

end Lift

/-- An ambient name is defined before the body if and only if the program does not bind it at the
top level and it stands somewhere that is no label, no name after a dot and no key before a colon,
nor below such a place. Names by which other modules know something count as well. -/
theorem defines_iff_placed {program : Tree} (isProgram : program.isA "Program")
    (s : Surroundings) {name : Text} (ambient : Lift.isAmbient name) :
    let opening := Lift.opening (Lift.finalNames s program) (Lift.newBody s program)
    (program.Ranged → ∃ lifted, lift s program = .ok lifted) ∧
    ∀ lifted, lift s program = .ok lifted →
      (lifted.program.get "body").items = opening ++ Lift.newBody s program ∧
      ((∃ t ∈ opening, t.isA "VariableDeclaration" ∧ t.boundNames = [name]) ↔
        name ∉ (Scope.analyze program).topLevelNames ∧
          ∃ t ∈ (program.get "body").items, ∃ place ∈ t.placed,
            (∀ site ∈ place.1, site.isOpen) ∧ place.2.isIdentifier ∧ place.2.name = name) := by
  intro opening
  refine ⟨Lift.exists_liftWith _ s isProgram, fun lifted known => ?_⟩
  obtain ⟨_, _, items⟩ := Lift.program_of_lift s known
  refine ⟨items, ?_⟩
  -- A definition is put in if the name is needed, and that is told by mentions.
  rw [Lift.exists_opening_iff, Lift.needs_finalNames s program ambient]
  simp only [Tree.mem_mentions]

/-- Of two names on the two sides of a dot, the first is defined. -/
theorem defines_iff_placed_dot :
    let member : Tree := .synthetic "MemberExpression" [("computed", .flag false),
      ("object", .identifier filenameName), ("property", .identifier dirnameName)]
    let program : Tree := .synthetic "Program"
      [("body", .list [(Tree.exportDefault member).readAt ⟨0, 36⟩])]
    let s : Surroundings := { isFile := fun _ => false }
    let opening := Lift.opening (Lift.finalNames s program) (Lift.newBody s program)
    program.isA "Program" ∧ program.Ranged ∧
      (∃ t ∈ opening, t.isA "VariableDeclaration" ∧ t.boundNames = [filenameName]) ∧
      ¬∃ t ∈ opening, t.isA "VariableDeclaration" ∧ t.boundNames = [dirnameName] := by
  intro member program s opening
  -- Nothing is bound in the program, so what decides is where the names stand.
  have free (name : Text) : name ∉ (Scope.analyze program).topLevelNames := by
    have none : member.bindings = [] := by
      rw [Tree.bindings, Task.binds_synthetic _ (by decide)]
      simp [Task.isNote]
    rw [Scope.mem_topLevelNames, Lift.entries_program rfl rfl]
    change _ ∉ [(Tree.exportDefault member).readAt ⟨0, 36⟩].flatMap Tree.bindings
    rw [List.flatMap_singleton, Tree.readAt, Tree.bindings_mapMark, Tree.bindings_exportDefault,
      none]
    exact List.not_mem_nil
  have ranged : program.Ranged := by decide
  obtain ⟨lifts, each⟩ := @defines_iff_placed program rfl s filenameName rfl
  obtain ⟨lifted, known⟩ := lifts ranged
  obtain ⟨_, file⟩ := each lifted known
  obtain ⟨_, directory⟩ := (@defines_iff_placed program rfl s dirnameName rfl).2 lifted known
  refine ⟨rfl, ranged, file.mpr ⟨free _, by decide⟩, fun found => ?_⟩
  exact absurd (directory.mp found).2 (by decide)

/-- A name by which another module knows what is imported is defined, although it stands nowhere
else. -/
theorem defines_foreign :
    let loading : Tree := .importNamed [(dirnameName, "here")] (.stringLiteral '"' "x")
    let program : Tree := .synthetic "Program" [("body", .list [loading.readAt ⟨0, 39⟩])]
    let s : Surroundings := { isFile := fun _ => false }
    (∀ t ∈ (program.get "body").items, ∀ place ∈ t.placed, place.2.isNamed dirnameName →
      place.1.getLast?.any fun site => site.isBare || site.isForeign) ∧
    ∃ lifted, lift s program = .ok lifted ∧ ∃ t ∈ (lifted.program.get "body").items,
      t.isA "VariableDeclaration" ∧ t.boundNames = [dirnameName] := by
  intro loading program s
  -- The import binds its local name only.
  have free : dirnameName ∉ (Scope.analyze program).topLevelNames := by
    rw [Scope.mem_topLevelNames, Lift.entries_program rfl rfl]
    change _ ∉ [loading.readAt ⟨0, 39⟩].flatMap Tree.bindings
    rw [List.flatMap_singleton, Tree.readAt, Tree.bindings_mapMark, Tree.bindings_importNamed]
    decide
  obtain ⟨lifted, known⟩ := @Lift.exists_liftWith _ s program rfl (by decide)
  obtain ⟨_, _, items⟩ := Lift.program_of_lift s known
  have needed := (@Lift.needs_finalNames s program dirnameName rfl).mpr ⟨free, by decide⟩
  obtain ⟨t, held, defines⟩ := (Lift.exists_opening_iff _ (Lift.newBody s program) _).mpr needed
  refine ⟨by decide, lifted, known, t, ?_, defines⟩
  rw [items]
  exact List.mem_append_left _ held

end ModuleLift
