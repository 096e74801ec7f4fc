import ModuleLift.Proofs.Scope.Extent
import ModuleLift.Proofs.Scope.Names
import ModuleLift.Proofs.Tree.Shape

/-! What the analysis takes for the top level: all that `var` and function declarations bind outside
functions, and all that other declarations bind outside functions, blocks and catch clauses. -/

namespace ModuleLift

namespace Scope

/-- Whether a place lies in a function. -/
def Place.Inner (place : Place) : Prop := place.scope ≠ 0 ∧ place.hoist ≠ 0

namespace Task

/-- Whether a task is carried out inside a function. -/
def Inner : Task Place → Prop
  | .visit place _ => place.Inner
  | .pattern _ place _ => place.Inner
  | .name _ place _ => place.scope ≠ 0
  | .handler place _ => place.Inner
  | .classBody place _ _ => place.Inner

/-- What a function leaves to do lies inside it. -/
theorem inner_of_mem_ofFunction {place : Place} {t : Tree} {ownName : Bool} {rest : Task Place}
    (left : rest ∈ (ofFunction rooted place t ownName).2) : rest.Inner := by
  have opened : Place.Inner ⟨rooted.next, rooted.next⟩ := ⟨by decide, by decide⟩
  simp only [ofFunction, List.mem_append, List.mem_map, List.mem_singleton] at left
  -- Parameters, body and own name all belong to the scope that is opened.
  rcases left with (⟨param, _, rfl⟩ | rfl) | own
  · exact opened
  · exact opened
  · split at own
    · rw [List.mem_singleton.mp own]
      exact opened.1
    · cases own

variable {place : Place}

/-- A scope that is opened inside a function lies inside it. -/
theorem inner_opened (inner : place.Inner) :
    Place.Inner { place with scope := rooted.next } := ⟨Nat.one_ne_zero, inner.2⟩

/-- What a catch clause inside a function leaves to do lies inside it. -/
theorem inner_of_mem_ofHandler (inner : place.Inner) {t : Tree} {rest : Task Place}
    (left : rest ∈ (ofHandler rooted place t).2) : rest.Inner := by
  -- Both tasks stand in the scope of the clause.
  simp only [ofHandler, List.mem_cons, List.not_mem_nil, or_false] at left
  rcases left with rfl | rfl
  · exact inner_opened inner
  · exact inner_opened inner

/-- What a declaration inside a function leaves to do lies inside it. -/
theorem inner_of_mem_ofDeclaration (inner : place.Inner) {t : Tree} {rest : Task Place}
    (left : rest ∈ ofDeclaration rooted place t) : rest.Inner := by
  simp only [ofDeclaration, List.mem_flatMap, List.mem_cons, List.not_mem_nil, or_false] at left
  obtain ⟨d, _, rfl | rfl⟩ := left
  · -- Hoisting does not lead out of a function.
    split
    · exact ⟨inner.2, inner.2⟩
    · exact inner
  · exact inner

/-- What walking a node inside a function leaves to do lies inside it. -/
theorem inner_of_mem_ofNode (inner : place.Inner) {t : Tree} {rest : Task Place}
    (left : rest ∈ (ofNode rooted place t).2) : rest.Inner := by
  -- One case for each rule: a block opens a scope, and only a function one to hoist to.
  unfold ofNode at left
  split at left
  · rw [List.mem_singleton.mp left]
    exact inner
  · rw [List.mem_singleton.mp left]
    exact inner_opened inner
  · exact inner_of_mem_ofDeclaration inner left
  · obtain ⟨_, _, rfl⟩ := List.mem_map.mp left
    exact inner.1
  · rcases List.mem_cons.mp left with rfl | left
    · exact inner.2
    · exact inner_of_mem_ofFunction left
  · exact inner_of_mem_ofFunction left
  · exact inner_of_mem_ofFunction left
  · exact inner_of_mem_ofFunction left
  · simp only [List.mem_cons, List.not_mem_nil, or_false] at left
    rcases left with rfl | rfl | rfl
    · exact inner.1
    · exact inner
    · exact inner
  · simp only [List.mem_cons, List.not_mem_nil, or_false] at left
    rcases left with rfl | rfl <;> exact inner
  · simp only [List.mem_cons, List.not_mem_nil, or_false] at left
    rcases left with rfl | rfl <;> exact inner
  · simp only [List.mem_cons, List.not_mem_nil, or_false] at left
    rcases left with rfl | rfl <;> exact inner
  · simp only [List.mem_append, List.mem_singleton] at left
    rcases left with (rfl | caught) | rfl
    · exact inner
    · split at caught
      · rw [List.mem_singleton.mp caught]
        exact inner
      · cases caught
    · exact inner
  · exact inner_of_mem_ofHandler inner left
  · obtain ⟨_, _, rfl⟩ := List.mem_map.mp left
    exact inner

/-- What binding a pattern inside a function leaves to do lies inside it. -/
theorem inner_of_mem_ofPattern (inner : place.Inner) {kind : BindingKind} {t : Tree}
    {rest : Task Place} (left : rest ∈ ofPattern kind place t) : rest.Inner := by
  -- The tasks left by a pattern stand where it does.
  rcases eq_of_mem_ofPattern left with rfl | ⟨_, rfl⟩ | ⟨_, rfl⟩
  · exact inner.1
  · exact inner
  · exact inner

/-- A task inside a function leaves tasks inside it. -/
theorem Inner.expand {task rest : Task Place} (inner : task.Inner)
    (left : rest ∈ (expand rooted task).2) : rest.Inner := by
  -- One case for each kind of task. Scopes that are opened on the way are inside as well.
  unfold Task.expand at left
  split at left
  · obtain ⟨_, _, rfl⟩ := List.mem_map.mp left
    exact inner
  · exact inner_of_mem_ofNode inner left
  · cases left
  · exact inner_of_mem_ofPattern inner left
  · cases left
  · cases left
  · exact inner_of_mem_ofHandler inner left
  · cases left
  · simp only [List.mem_append, List.mem_singleton] at left
    rcases left with rfl | own
    · exact inner_opened inner
    · split at own
      · rw [List.mem_singleton.mp own]
        exact Nat.one_ne_zero
      · cases own
  · cases left

/-- Inside a function nothing is bound at the top level. -/
theorem Inner.not_top {task : Task Place} (inner : task.Inner) (name : Text) :
    (true, name) ∉ task.binds := by
  induction task using Task.induction with
  | step task ih =>
    -- A task binds a name itself, in a scope that is not the first, or leaves it to later tasks.
    rw [binds_eq, List.mem_append, List.mem_flatMap]
    rintro (own | ⟨rest, left, bound⟩)
    · cases task with
      | name kind scope t =>
        rw [Task.own] at own
        split at own
        · simp only [List.mem_singleton, Prod.mk.injEq] at own
          exact inner (beq_iff_eq.mp own.1.symm)
        · cases own
      | _ => cases own
    · exact ih rooted rest left (inner.expand left) bound

/-- A name is bound at the top level if its scope is that of the program. -/
theorem mem_binds_name {kind : BindingKind} {place : Place} {t : Tree} {bound : Text} :
    (true, bound) ∈ (name kind place t).binds ↔
      place.scope = 0 ∧ t.isIdentifier ∧ t.name = bound := by
  -- The flag of an entry says whether the scope is that of the program.
  rw [binds_name]
  split
  · rename_i isName
    rw [List.mem_singleton, Prod.mk.injEq, isName]
    exact and_congr (eq_comm.trans beq_iff_eq) (by simp [eq_comm])
  · rename_i noName
    simp [noName]

/-- What an element of a list binds, the list binds. -/
theorem binds_item_subset {t item : Tree} (held : item ∈ t.items) :
    (visit place item).binds ⊆ (visit place t).binds := by
  -- Only a list has elements.
  cases t with
  | list items =>
    rw [binds_list]
    exact fun entry bound => List.mem_flatMap.mpr ⟨item, held, bound⟩
  | _ => cases held

/-- What a field of a node without a rule binds, the node binds. -/
theorem binds_get_subset {t : Tree} {kind key : String} (isA : t.isA kind)
    (unruled : kind ∉ ruled) (walked : isNote key = false) :
    (visit place (t.get key)).binds ⊆ (visit place t).binds := by
  -- The field is absent and binds nothing, or it is one of those walked.
  rw [binds_unruled (isNode_of_isA isA) (kind_ne_of_unruled isA unruled)]
  intro entry bound
  rcases t.get_eq_null_or_mem key with absent | held
  · rw [absent, binds_value rfl rfl] at bound
    cases bound
  · exact List.mem_flatMap.mpr ⟨_, List.mem_filter.mpr ⟨held, by simp [walked]⟩, bound⟩

/-- What each item gives under one condition, all items give under it. -/
theorem mem_flatMap_iff_and {α β γ : Type} {items : List α} {f : α → List β} {g : α → List γ}
    {b : β} {c : γ} {p : Prop} (each : ∀ a ∈ items, b ∈ f a ↔ p ∧ c ∈ g a) :
    b ∈ items.flatMap f ↔ p ∧ c ∈ items.flatMap g := by
  -- The condition is the same for the item that gives it, on both sides.
  rw [List.mem_flatMap, List.mem_flatMap]
  constructor
  · rintro ⟨a, held, here⟩
    obtain ⟨holds, there⟩ := (each a held).mp here
    exact ⟨holds, a, held, there⟩
  · rintro ⟨holds, a, held, there⟩
    exact ⟨a, held, (each a held).mpr ⟨holds, there⟩⟩

/-- A pattern with nothing to walk in it binds its names in its own scope. -/
theorem mem_binds_pattern {kind : BindingKind} {t : Tree}
    (quiet : ∀ name, (true, name) ∉ (visit place t).binds) {name : Text} :
    (true, name) ∈ (pattern kind place t).binds ↔ place.scope = 0 ∧ name ∈ t.patternNames := by
  -- The induction follows the pattern; what it walks lies in parts that bind nothing here.
  fun_induction Tree.patternNames t with
  | case1 t isName =>
    rw [binds_pattern_name kind (beq_iff_eq.mpr isName), List.mem_singleton, List.mem_singleton,
      Prod.mk.injEq]
    exact and_congr_left fun _ => eq_comm.trans beq_iff_eq
  | case2 t isObject value whole =>
    have isPattern : t.isA "ObjectPattern" := beq_iff_eq.mpr isObject
    have each (property : Tree) (held : property ∈ (t.get "properties").items) :
        (true, name) ∈ List.flatMap binds (if property.isA "Property" then
          (if (property.get "computed").isSet then [visit place (property.get "key")] else []) ++
            [pattern kind place (property.get "value")] else [pattern kind place property]) ↔
        place.scope = 0 ∧ name ∈
          if property.isA "Property" then (property.get "value").patternNames
          else property.patternNames := by
      have inside : (visit place property).binds ⊆ (visit place t).binds := fun entry bound =>
        binds_get_subset isPattern (by decide) rfl (binds_item_subset held bound)
      split
      · rename_i isProperty
        have field {key : String} (walked : isNote key = false) (name : Text) :
            (true, name) ∉ (visit place (property.get key)).binds := fun bound =>
          quiet name (inside (binds_get_subset isProperty (by decide) walked bound))
        have key : (true, name) ∉ (visit place (property.get "key")).binds := field rfl name
        rw [← value property held (field rfl)]
        split <;> simp [key]
      · rw [← whole property held fun name bound => quiet name (inside bound)]
        simp
    rw [binds_pattern kind (isNode_of_isA isPattern), ofPattern, isObject]
    change (true, name) ∈ List.flatMap binds (List.flatMap _ _) ↔ _
    simp only [List.flatMap_subtype, List.unattach_attach, List.flatMap_assoc]
    exact mem_flatMap_iff_and each
  | case3 t isArray each =>
    have isPattern : t.isA "ArrayPattern" := beq_iff_eq.mpr isArray
    have inside {element : Tree} (held : element ∈ (t.get "elements").items) (name : Text) :
        (true, name) ∉ (visit place element).binds := fun bound =>
      quiet name (binds_get_subset isPattern (by decide) rfl (binds_item_subset held bound))
    rw [binds_pattern kind (isNode_of_isA isPattern), ofPattern, isArray]
    change (true, name) ∈ List.flatMap binds (List.map _ _) ↔ _
    simp only [List.flatMap_subtype, List.unattach_attach, List.flatMap_map]
    exact mem_flatMap_iff_and fun element held => each element held (inside held)
  | case4 t isRest argument =>
    have isPattern : t.isA "RestElement" := beq_iff_eq.mpr isRest
    rw [← argument fun name bound =>
      quiet name (binds_get_subset isPattern (by decide) rfl bound),
      binds_pattern kind (isNode_of_isA isPattern), ofPattern, isRest]
    simp
  | case5 t isAssignment target =>
    have isPattern : t.isA "AssignmentPattern" := beq_iff_eq.mpr isAssignment
    have field {key : String} (walked : isNote key = false) (name : Text) :
        (true, name) ∉ (visit place (t.get key)).binds := fun bound =>
      quiet name (binds_get_subset isPattern (by decide) walked bound)
    have initial : (true, name) ∉ (visit place (t.get "right")).binds := field rfl name
    rw [← target (field rfl), binds_pattern kind (isNode_of_isA isPattern), ofPattern,
      isAssignment]
    simp [initial]
  | case6 t noName noObject noArray noRest noAssignment =>
    have none : (pattern kind place t).binds = [] := by
      cases t with
      | node node mark fields =>
        rw [binds_pattern kind rfl, ofPattern]
        split <;> first | contradiction | rfl
      | _ => rw [binds_eq]; rfl
    simp [none]

end Task

end Scope

namespace Tree

open Scope (Task)

section Shape

variable (t : Tree)

/-- Whether a node is a declaration. -/
def isDeclaration : Bool :=
  t.isA "VariableDeclaration" || t.isA "FunctionDeclaration" || t.isA "ClassDeclaration" ||
    t.isA "ImportDeclaration"

/-- Whether a value holds no declaration outside functions. -/
def isQuiet : Bool := (t.outer isFunctionKind).all fun node => !node.isDeclaration

/-- The fields in which nodes of a kind hold declarations, for the kinds that the analysis has a
rule for. Functions are left out: what they hold is their own. -/
def openIn? (kind : Option String) : Option (List String) :=
  match kind with
  | some "Program" => some ["body"]
  | some "BlockStatement" => some ["body"]
  | some "CatchClause" => some ["body"]
  | some "TryStatement" => some ["block", "handler", "finalizer"]
  | some "CallExpression" => some ["callee", "arguments"]
  | some "VariableDeclaration" => some []
  | some "ImportDeclaration" => some []
  | some "ClassDeclaration" => some []
  | some "ClassExpression" => some []
  | some "class" => some []
  | _ => none

/-- A node with declarations only where statements can stand: its fields have different names, notes
are what the analysis takes for notes, and what else it holds is quiet; what is declared are
declarators, and what handles an exception is a catch clause. -/
structure WellPlaced : Prop where
  names : (t.fields.map (·.1)).Nodup
  notes : ∀ field ∈ t.fields, isNoteKey field.1 → Task.isNote field.1
  quiet : ∀ keys ∈ openIn? t.kind?, ∀ field ∈ t.fields,
    field.1 ∈ keys ∨ isNoteKey field.1 ∨ field.2.isQuiet
  declared : t.isA "VariableDeclaration" →
    ∀ d ∈ (t.get "declarations").items, d.isA "VariableDeclarator"
  handled : t.isA "TryStatement" → (t.get "handler").isA "CatchClause" ∨ (t.get "handler").isNull

instance : Decidable t.WellPlaced :=
  decidable_of_iff
    ((t.fields.map (·.1)).Nodup ∧
      (∀ field ∈ t.fields, isNoteKey field.1 → Task.isNote field.1) ∧
      (∀ keys ∈ openIn? t.kind?, ∀ field ∈ t.fields,
        field.1 ∈ keys ∨ isNoteKey field.1 ∨ field.2.isQuiet) ∧
      (t.isA "VariableDeclaration" →
        ∀ d ∈ (t.get "declarations").items, d.isA "VariableDeclarator") ∧
      (t.isA "TryStatement" → (t.get "handler").isA "CatchClause" ∨ (t.get "handler").isNull))
    ⟨fun ⟨names, notes, quiet, declared, handled⟩ => ⟨names, notes, quiet, declared, handled⟩,
      fun ⟨names, notes, quiet, declared, handled⟩ => ⟨names, notes, quiet, declared, handled⟩⟩

end Shape

section Names

/-- The names that a node by itself declares at the top level, if it stands in this scope. -/
def ownTop (scope : Nat) (t : Tree) : List Text :=
  t.ownVars ++ t.ownFunctions ++ if scope = 0 then t.ownLexicals else []

/-- The names that are taken for names of the top level in a value that stands in this scope and in
no function. -/
def topNames (scope : Nat) (t : Tree) : List Text :=
  t.varNames ++ t.functionNames ++ if scope = 0 then t.lexicalNames else []

variable {t : Tree} {scope : Nat} {name : Text}

/-- A list declares at the top level what its elements declare there. -/
theorem mem_topNames_list {items : List Tree} :
    name ∈ (list items).topNames scope ↔ ∃ t ∈ items, name ∈ t.topNames scope := by
  -- Each of the three sorts of names is one of some element.
  have split {holds : Tree → Prop} {other : Tree → Prop} :
      (∃ t ∈ items, holds t) ∨ (∃ t ∈ items, other t) ↔ ∃ t ∈ items, holds t ∨ other t := by
    simp only [← exists_or, and_or_left]
  simp only [topNames, List.mem_append, varNames, functionNames, lexicalNames, mem_outer_list]
  by_cases top : scope = 0
  · simp only [if_pos top, mem_outer_list, split]
  · simp only [if_neg top, List.not_mem_nil, or_false, split]

/-- What is inside a scope of its own is not declared at the top level, unless it is hoisted. -/
theorem mem_topNames_node (isNode : t.isNode) (entered : isFunctionKind t.kind? = false) :
    name ∈ t.topNames scope ↔ name ∈ t.ownTop scope ∨
      ∃ field ∈ t.fields, isNoteKey field.1 = false ∧
        name ∈ field.2.topNames (if isScopeKind t.kind? then 1 else scope) := by
  have vars := @mem_outer_node isFunctionKind ownVars t isNode name
  have functions := @mem_outer_node isFunctionKind ownFunctions t isNode name
  have lexicals := @mem_outer_node isScopeKind ownLexicals t isNode name
  -- What is hoisted passes all scopes here, and the rest stops at them.
  simp only [entered, true_and] at vars functions
  simp only [topNames, ownTop, varNames, functionNames, lexicalNames, List.mem_append, vars,
    functions]
  cases opens : isScopeKind t.kind? with
  | true =>
    simp only [opens, Bool.true_eq_false, false_and, or_false] at lexicals
    by_cases top : scope = 0
    · simp only [if_pos top, lexicals]
      grind
    · simp only [if_neg top]
      grind
  | false =>
    simp only [opens, true_and] at lexicals
    by_cases top : scope = 0
    · simp only [if_pos top, lexicals]
      grind
    · simp only [if_neg top]
      grind

/-- A function declares its name at most. -/
theorem mem_topNames_function (isNode : t.isNode) (isFunction : isFunctionKind t.kind?) :
    name ∈ t.topNames scope ↔ name ∈ t.ownTop scope := by
  -- None of the three walks enters a function.
  have vars := @mem_outer_node isFunctionKind ownVars t isNode name
  have functions := @mem_outer_node isFunctionKind ownFunctions t isNode name
  have lexicals := @mem_outer_node isScopeKind ownLexicals t isNode name
  have isScope : isScopeKind t.kind? = true := by simp [isScopeKind, isFunction]
  simp only [isFunction, isScope, Bool.true_eq_false, false_and, or_false]
    at vars functions lexicals
  simp only [topNames, ownTop, varNames, functionNames, lexicalNames, List.mem_append, vars,
    functions]
  by_cases top : scope = 0
  · simp only [if_pos top, lexicals]
  · simp only [if_neg top]

/-- A node that is no declaration declares nothing by itself. -/
theorem own_of_not_declaration {node : Tree} (other : node.isDeclaration = false) :
    node.ownVars = [] ∧ node.ownFunctions = [] ∧ node.ownLexicals = [] := by
  -- Each sort of names asks for one of the kinds that are excluded.
  simp only [isDeclaration, Bool.or_eq_false_iff] at other
  obtain ⟨⟨⟨noVariable, noFunction⟩, noClass⟩, noImport⟩ := other
  refine ⟨by simp [ownVars, noVariable], by simp [ownFunctions, noFunction], ?_⟩
  unfold ownLexicals
  split
  · simp_all [isA]
  · simp_all [isA]
  · simp_all [isA]
  · rfl

/-- Stopping at more kinds leaves fewer nodes. -/
theorem outer_subset {stops more : Option String → Bool}
    (within : ∀ kind, stops kind → more kind) (t : Tree) : t.outer more ⊆ t.outer stops := by
  induction t using Tree.induction with
  | list items ih =>
    rw [outer, outer, outerAll_eq, outerAll_eq]
    intro node held
    obtain ⟨item, member, inside⟩ := List.mem_flatMap.mp held
    exact List.mem_flatMap.mpr ⟨item, member, ih item member inside⟩
  | node kind mark fields ih =>
    rw [outer, outer, outerFields_eq, outerFields_eq]
    refine List.cons_subset_cons _ ?_
    cases stopped : more kind with
    | true => simp
    | false =>
      -- A node that the shorter walk enters is entered by the longer one.
      have entered : stops kind = false := Bool.eq_false_iff.mpr fun stop => by
        simp [within kind stop] at stopped
      rw [entered, if_neg Bool.false_ne_true, if_neg Bool.false_ne_true]
      intro node held
      obtain ⟨field, member, inside⟩ := List.mem_flatMap.mp held
      refine List.mem_flatMap.mpr ⟨field, member, ?_⟩
      split
      · rename_i note
        rw [if_pos note] at inside
        cases inside
      · rename_i walked
        rw [if_neg walked] at inside
        exact ih field member inside
  | _ => exact List.Subset.refl _

/-- A quiet value declares nothing. -/
theorem not_mem_topNames (quiet : t.isQuiet) : name ∉ t.topNames scope := by
  rw [isQuiet, List.all_eq_true] at quiet
  have none {node : Tree} (held : node ∈ t.outer isFunctionKind) :=
    own_of_not_declaration (by simpa using quiet node held)
  -- Nothing outside of functions is a declaration, so nothing outside of scopes is one.
  have below : t.outer isScopeKind ⊆ t.outer isFunctionKind :=
    outer_subset (fun kind isFunction => by simp [isScopeKind, isFunction]) t
  have vars : t.varNames = [] := List.flatMap_eq_nil_iff.mpr fun node held => (none held).1
  have functions : t.functionNames = [] :=
    List.flatMap_eq_nil_iff.mpr fun node held => (none held).2.1
  have lexicals : t.lexicalNames = [] :=
    List.flatMap_eq_nil_iff.mpr fun node held => (none (below held)).2.2
  simp [topNames, vars, functions, lexicals]

/-- Whether the analysis binds at the top level what a value is said to declare there. -/
def Agrees (t : Tree) : Prop :=
  ∀ scope name, (true, name) ∈ (Task.visit ⟨scope, 0⟩ t).binds ↔ name ∈ t.topNames scope

/-- A value that is neither a node nor a list declares nothing and binds nothing. -/
theorem agrees_value (value : t.isNode = false) (single : t.items = []) : t.Agrees := by
  -- Both sides are empty.
  intro scope name
  have none : name ∉ t.topNames scope := by
    refine not_mem_topNames ?_
    cases t with
    | node => cases value
    | list items => cases single; rfl
    | _ => rfl
  rw [Task.binds_value value single]
  exact iff_of_false List.not_mem_nil none

/-- A list agrees if its elements do. -/
theorem agrees_list {items : List Tree} (below : ∀ t ∈ items, t.Agrees) : (list items).Agrees := by
  -- Both sides are told element by element.
  intro scope name
  rw [Task.binds_list, List.mem_flatMap, mem_topNames_list]
  exact exists_congr fun t => and_congr_right fun held => below t held scope name

/-- The fields that can hold declarations are no notes. -/
theorem not_note_of_openIn {kind : Option String} {keys : List String}
    (known : openIn? kind = some keys) {key : String} (row : key ∈ keys) :
    isNoteKey key = false := by
  -- Each row of the table is checked.
  have table : ∀ key ∈ keys, isNoteKey key = false := by
    unfold openIn? at known
    split at known
    all_goals first | cases known; decide | cases known
  exact table key row

/-- Of a node with a rule, only the fields in the table declare something. -/
theorem mem_fields_open (placed : t.WellPlaced) {keys : List String}
    (known : openIn? t.kind? = some keys) :
    (∃ field ∈ t.fields, isNoteKey field.1 = false ∧ name ∈ field.2.topNames scope) ↔
      ∃ key ∈ keys, name ∈ (t.get key).topNames scope := by
  constructor
  · rintro ⟨field, held, walked, named⟩
    -- A field with a declaration in it is in the table, since any other is a note or quiet.
    rcases placed.quiet keys known field held with row | note | quiet
    · refine ⟨field.1, row, ?_⟩
      rw [get, lookup_of_mem placed.names held]
      exact named
    · simp [note] at walked
    · exact absurd named (not_mem_topNames quiet)
  · rintro ⟨key, row, named⟩
    rcases t.get_eq_null_or_mem key with absent | held
    · rw [absent] at named
      exact absurd named (not_mem_topNames rfl)
    · exact ⟨_, held, not_note_of_openIn known row, named⟩

/-- Nothing is declared at the top level inside a function. -/
theorem not_top_function {place : Scope.Place} {ownName : Bool} :
    (true, name) ∉ (Task.ofFunction Task.rooted place t ownName).2.flatMap Task.binds := by
  -- All tasks that a function leaves stand inside it.
  intro bound
  obtain ⟨rest, left, bound⟩ := List.mem_flatMap.mp bound
  exact (Task.inner_of_mem_ofFunction left).not_top name bound

/-- A function is declared where a `var` in its place would be. -/
theorem agrees_functionDeclaration (isFunction : t.isA "FunctionDeclaration") : t.Agrees := by
  -- Apart from its name all of it lies inside the function.
  have same : t.kind? = some "FunctionDeclaration" := beq_iff_eq.mp isFunction
  intro scope name
  have own : t.ownTop scope = t.idNames := by
    simp [ownTop, ownVars, ownFunctions, ownLexicals, isA, same]
  rw [mem_topNames_function (Task.isNode_of_isA isFunction) (by rw [same]; rfl), own,
    Task.binds_functionDeclaration isFunction, List.mem_append, or_iff_left not_top_function,
    Task.mem_binds_name, mem_idNames]
  exact and_iff_right rfl

/-- Any other function declares nothing. -/
theorem agrees_function {kind : String} (isA : t.isA kind)
    (isFunction : kind ∈ ["FunctionExpression", "ArrowFunctionExpression", "function"]) :
    t.Agrees := by
  have same : t.kind? = some kind := beq_iff_eq.mp isA
  -- The three kinds are told apart only by whether their name is bound inside.
  have shape : isFunctionKind t.kind? ∧ t.isDeclaration = false ∧
      ∀ place, ∃ ownName, (Task.visit place t).binds =
        (Task.ofFunction Task.rooted place t ownName).2.flatMap Task.binds := by
    simp only [List.mem_cons, List.not_mem_nil, or_false] at isFunction
    rcases isFunction with rfl | rfl | rfl
    all_goals
      refine ⟨by rw [same]; rfl, by simp [isDeclaration, Tree.isA, same], fun place => ?_⟩
      rw [Task.binds_node (Task.isNode_of_isA isA), Task.ofNode, same]
      exact ⟨_, rfl⟩
  obtain ⟨isKind, plain, binds⟩ := shape
  obtain ⟨vars, functions, lexicals⟩ := own_of_not_declaration plain
  intro scope name
  obtain ⟨ownName, bound⟩ := binds ⟨scope, 0⟩
  rw [mem_topNames_function (Task.isNode_of_isA isA) isKind, bound]
  refine iff_of_false not_top_function ?_
  simp [ownTop, vars, functions, lexicals]

section Nodes

variable (below : ∀ field ∈ t.fields, isNoteKey field.1 = false → field.2.Agrees)

include below

/-- What is looked up in a node agrees. -/
theorem agrees_get {key : String} (walked : isNoteKey key = false) : (t.get key).Agrees := by
  -- The field is absent, or it is one of those below.
  rcases t.get_eq_null_or_mem key with absent | held
  · rw [absent]
    exact agrees_value rfl rfl
  · exact below _ held walked

/-- A node without a rule of its own agrees. -/
theorem agrees_unruled (placed : t.WellPlaced) (isNode : t.isNode)
    (unruled : ∀ kind ∈ Task.ruled, t.kind? ≠ some kind) : t.Agrees := by
  intro scope name
  have other (kind : String) (rule : kind ∈ Task.ruled) : t.isA kind = false := by
    simpa [isA] using unruled kind rule
  have plain : t.isDeclaration = false := by
    simp [isDeclaration, other "VariableDeclaration" (by decide),
      other "FunctionDeclaration" (by decide), other "ClassDeclaration" (by decide),
      other "ImportDeclaration" (by decide)]
  have entered : isFunctionKind t.kind? = false := by
    unfold isFunctionKind
    split <;> first | rfl | exact absurd ‹_› (unruled _ (by decide))
  have closed : isScopeKind t.kind? = false := by
    have block := other "BlockStatement" (by decide)
    have clause := other "CatchClause" (by decide)
    simp only [isA] at block clause
    simp [isScopeKind, entered, block, clause]
  obtain ⟨vars, functions, lexicals⟩ := own_of_not_declaration plain
  rw [Task.binds_unruled isNode unruled, List.mem_flatMap, mem_topNames_node isNode entered]
  simp only [ownTop, vars, functions, lexicals, closed, Bool.false_eq_true, if_false, ite_self,
    List.append_nil, List.not_mem_nil, false_or, List.mem_filter, Bool.not_eq_true', and_assoc]
  -- The analysis and the walk pass over the same fields.
  refine exists_congr fun field => and_congr_right fun held => ?_
  have notes : Task.isNote field.1 = isNoteKey field.1 := by
    cases note : isNoteKey field.1 with
    | true => exact placed.notes field held note
    | false => exact Task.isNote_of_isNoteKey note
  rw [notes]
  exact and_congr_right fun walked => below field held walked scope name

variable (placed : t.WellPlaced)

include placed

/-- The fields of a node with a rule that are not in the table bind nothing at the top level. -/
theorem not_top_unheld {keys : List String} (known : openIn? t.kind? = some keys) {key : String}
    (other : key ∉ keys) (walked : isNoteKey key = false) :
    (true, name) ∉ (Task.visit ⟨scope, 0⟩ (t.get key)).binds := by
  -- A field outside of the table is absent, a note or quiet.
  rw [agrees_get below walked scope name]
  rcases t.get_eq_null_or_mem key with absent | held
  · rw [absent]
    exact not_mem_topNames rfl
  · rcases placed.quiet keys known _ held with row | note | quiet
    · exact absurd row other
    · simp [walked] at note
    · exact not_mem_topNames quiet

/-- A node agrees if the analysis binds its own names and goes on to the fields in the table. -/
theorem agrees_of_rule {kind : String} (isA : t.isA kind) {keys : List String}
    (known : openIn? (some kind) = some keys) (entered : isFunctionKind (some kind) = false)
    (rule : ∀ scope name, (true, name) ∈ (Task.visit ⟨scope, 0⟩ t).binds ↔
      name ∈ t.ownTop scope ∨ ∃ key ∈ keys, (true, name) ∈
        (Task.visit ⟨if isScopeKind (some kind) then 1 else scope, 0⟩ (t.get key)).binds) :
    t.Agrees := by
  -- Both sides are the own names of the node and those of the fields in the table.
  have same : t.kind? = some kind := beq_iff_eq.mp isA
  intro scope name
  rw [rule, mem_topNames_node (Task.isNode_of_isA isA) (by rw [same]; exact entered),
    mem_fields_open placed (by rw [same]; exact known), same]
  refine or_congr Iff.rfl (exists_congr fun key => and_congr_right fun row => ?_)
  exact agrees_get below (not_note_of_openIn known row) _ name

/-- A node that is no declaration agrees if the analysis goes on to the fields in the table. -/
theorem agrees_of_fields {kind : String} (isA : t.isA kind) {keys : List String}
    (known : openIn? (some kind) = some keys) (entered : isFunctionKind (some kind) = false)
    (plain : t.isDeclaration = false)
    (rule : ∀ scope name, (true, name) ∈ (Task.visit ⟨scope, 0⟩ t).binds ↔
      ∃ key ∈ keys, (true, name) ∈
        (Task.visit ⟨if isScopeKind (some kind) then 1 else scope, 0⟩ (t.get key)).binds) :
    t.Agrees := by
  -- A node that is no declaration has no own names.
  obtain ⟨vars, functions, lexicals⟩ := own_of_not_declaration plain
  refine agrees_of_rule below placed isA known entered fun scope name => ?_
  rw [rule]
  simp [ownTop, vars, functions, lexicals]

/-- A program agrees with its body. -/
theorem agrees_program (isProgram : t.isA "Program") : t.Agrees := by
  -- The rule goes on to the body.
  refine agrees_of_fields below placed isProgram rfl rfl ?_ fun scope name => ?_
  · simp [isDeclaration, isA, beq_iff_eq.mp isProgram]
  · rw [Task.binds_program isProgram]
    simp [isScopeKind, isFunctionKind]

/-- A block agrees, in a scope of its own. -/
theorem agrees_block (isBlock : t.isA "BlockStatement") : t.Agrees := by
  -- The rule goes on to the body, in a new scope.
  refine agrees_of_fields below placed isBlock rfl rfl ?_ fun scope name => ?_
  · simp [isDeclaration, isA, beq_iff_eq.mp isBlock]
  · rw [Task.binds_block isBlock]
    simp [isScopeKind]

/-- A call agrees with what is called and what that is given. -/
theorem agrees_call (isCall : t.isA "CallExpression") : t.Agrees := by
  -- The rule goes on to the two fields.
  refine agrees_of_fields below placed isCall rfl rfl ?_ fun scope name => ?_
  · simp [isDeclaration, isA, beq_iff_eq.mp isCall]
  · rw [Task.binds_call isCall]
    simp [isScopeKind, isFunctionKind]

/-- The parameter of a catch clause is bound in the clause. -/
theorem agrees_clause (isClause : t.isA "CatchClause") : t.Agrees := by
  -- The parameter is not in the table, and the scope of the clause is not that of the program.
  have same : t.kind? = some "CatchClause" := beq_iff_eq.mp isClause
  refine agrees_of_fields below placed isClause rfl rfl ?_ fun scope name => ?_
  · simp [isDeclaration, isA, same]
  · have param : (true, name) ∉
        (Task.pattern .catchParameter ⟨1, 0⟩ (t.get "param")).binds := by
      rw [Task.mem_binds_pattern fun name =>
        not_top_unheld below placed (by rw [same]; rfl) (by decide) rfl]
      exact fun bound => absurd bound.1 Nat.one_ne_zero
    rw [Task.binds_clause isClause, List.mem_append]
    simp [param, isScopeKind]

/-- An attempt agrees with its three parts. -/
theorem agrees_try (isTry : t.isA "TryStatement") : t.Agrees := by
  refine agrees_of_fields below placed isTry rfl rfl ?_ fun scope name => ?_
  · simp [isDeclaration, isA, beq_iff_eq.mp isTry]
  · -- A handler is a clause, or there is none.
    have caught : (if (t.get "handler").isNode then
          (Task.handler ⟨scope, 0⟩ (t.get "handler")).binds else []) =
        (Task.visit ⟨scope, 0⟩ (t.get "handler")).binds := by
      rcases placed.handled isTry with isClause | none
      · rw [if_pos (Task.isNode_of_isA isClause), Task.binds_handler isClause]
      · cases handler : t.get "handler" with
        | null => rw [Task.binds_value rfl rfl]; rfl
        | _ => simp [handler, isNull] at none
    rw [Task.binds_try isTry, caught]
    simp [isScopeKind, isFunctionKind]

/-- The names of an import are those of its scope. -/
theorem agrees_import (isImport : t.isA "ImportDeclaration") : t.Agrees := by
  have same : t.kind? = some "ImportDeclaration" := beq_iff_eq.mp isImport
  refine agrees_of_rule below placed isImport rfl rfl fun scope name => ?_
  -- An import has only names that count in the scope it stands in.
  have own : t.ownTop scope = if scope = 0 then t.localNames else [] := by
    simp [ownTop, ownVars, ownFunctions, ownLexicals, isA, same]
  rw [Task.binds_import isImport, own, List.mem_flatMap]
  simp only [Task.mem_binds_name, List.not_mem_nil, false_and, exists_false, or_false]
  split
  · rename_i top
    simp [localNames, top, and_assoc]
  · rename_i inner
    simp [inner]

/-- What a class extends and what its body holds declares nothing outside it. -/
theorem not_top_class (known : openIn? t.kind? = some []) (isNode : t.isNode) (ownName : Bool) :
    (true, name) ∉ (Task.visit ⟨scope, 0⟩ (t.get "superClass")).binds ++
      (Task.classBody ⟨scope, 0⟩ ownName t).binds := by
  have field {key : String} (walked : isNoteKey key = false) (scope : Nat) :
      (true, name) ∉ (Task.visit ⟨scope, 0⟩ (t.get key)).binds :=
    not_top_unheld below placed known List.not_mem_nil walked
  rw [Task.binds_classBody ownName isNode, List.mem_append, List.mem_append]
  -- The name that a class has for itself is bound in the scope of its body.
  rintro (extended | body | own)
  · exact field rfl scope extended
  · exact field rfl 1 body
  · split at own
    · exact absurd (Task.mem_binds_name.mp own).1 Nat.one_ne_zero
    · cases own

/-- A declared class is a name of its scope. -/
theorem agrees_classDeclaration (isClass : t.isA "ClassDeclaration") : t.Agrees := by
  have same : t.kind? = some "ClassDeclaration" := beq_iff_eq.mp isClass
  refine agrees_of_rule below placed isClass rfl rfl fun scope name => ?_
  have own : t.ownTop scope = if scope = 0 then t.idNames else [] := by
    simp [ownTop, ownVars, ownFunctions, ownLexicals, isA, same]
  -- What lies in a class belongs to the class.
  have rest := @not_top_class t scope name below placed (by rw [same]; rfl)
    (Task.isNode_of_isA isClass) false
  rw [Task.binds_classDeclaration isClass, own, List.append_assoc, List.mem_append,
    or_iff_left rest, Task.mem_binds_name, ← mem_idNames]
  split
  · rename_i top
    simp [top]
  · rename_i inner
    simp [inner]

/-- Any other class declares nothing. -/
theorem agrees_classExpression {kind : String} (isA : t.isA kind)
    (isClass : kind = "ClassExpression" ∨ kind = "class") : t.Agrees := by
  have same : t.kind? = some kind := beq_iff_eq.mp isA
  -- Both kinds follow one rule.
  have shape : openIn? (some kind) = some [] ∧ isFunctionKind (some kind) = false ∧
      t.isDeclaration = false ∧ (t.isA "ClassExpression" ∨ t.isA "class") := by
    rcases isClass with rfl | rfl
    · exact ⟨rfl, rfl, by simp [isDeclaration, Tree.isA, same], .inl isA⟩
    · exact ⟨rfl, rfl, by simp [isDeclaration, Tree.isA, same], .inr isA⟩
  obtain ⟨known, entered, plain, either⟩ := shape
  refine agrees_of_fields below placed isA known entered plain fun scope name => ?_
  rw [Task.binds_classExpression either]
  refine iff_of_false (not_top_class below placed (by rw [same]; exact known)
    (Task.isNode_of_isA isA) _) ?_
  simp

/-- A `var` declaration binds outside blocks, any other in its own scope. -/
theorem agrees_variables (isVariables : t.isA "VariableDeclaration") : t.Agrees := by
  have same : t.kind? = some "VariableDeclaration" := beq_iff_eq.mp isVariables
  refine agrees_of_rule below placed isVariables rfl rfl fun scope name => ?_
  -- Neither the patterns nor the initializers hold anything else that is declared here.
  have inside {d : Tree} (held : d ∈ (t.get "declarations").items) {key : String}
      (walked : Task.isNote key = false) (scope : Nat) (name : Text) :
      (true, name) ∉ (Task.visit ⟨scope, 0⟩ (d.get key)).binds := fun bound => by
    have outside := @not_top_unheld t scope name below placed [] (by rw [same]; rfl) "declarations"
      List.not_mem_nil rfl
    exact outside (Task.binds_item_subset held
      (Task.binds_get_subset (placed.declared isVariables d held) (by decide) walked bound))
  have each {d : Tree} (held : d ∈ (t.get "declarations").items) (kind : BindingKind)
      (target : Nat) : (true, name) ∈ List.flatMap Task.binds
        [.pattern kind ⟨target, 0⟩ (d.get "id"), .visit ⟨scope, 0⟩ (d.get "init")] ↔
      target = 0 ∧ name ∈ (d.get "id").patternNames := by
    have init : (true, name) ∉ (Task.visit ⟨scope, 0⟩ (d.get "init")).binds :=
      inside held rfl scope name
    have id := @Task.mem_binds_pattern ⟨target, 0⟩ kind (d.get "id") (inside held rfl target) name
    simp [id, init]
  rw [Task.binds_declaration isVariables, Task.ofDeclaration, List.flatMap_assoc, List.mem_flatMap]
  cases lexical : t.isLexical with
  | true =>
    have own : t.ownTop scope = if scope = 0 then t.declaratorNames else [] := by
      simp [ownTop, ownVars, ownFunctions, ownLexicals, isA, same, lexical]
    have kept : Task.bindingKind (t.get "kind") ≠ .var := by
      rw [isLexical, Bool.or_eq_true] at lexical
      rw [Task.bindingKind]
      rcases lexical with word | word <;> simp [word]
      split <;> simp
    simp only [if_neg kept]
    rw [own, exists_congr fun d => and_congr_right fun held => each held _ scope]
    by_cases top : scope = 0 <;> simp [declaratorNames, top]
  | false =>
    have own : t.ownTop scope = t.declaratorNames := by
      simp [ownTop, ownVars, ownFunctions, ownLexicals, isA, same, lexical]
    have hoisted : Task.bindingKind (t.get "kind") = .var := by
      rw [isLexical, Bool.or_eq_false_iff] at lexical
      simp [Task.bindingKind, lexical]
    simp only [if_pos hoisted, Scope.hoist_journal, Scope.Place.hoisted]
    rw [own, exists_congr fun d => and_congr_right fun held => each held _ 0]
    simp [declaratorNames]

/-- A node agrees if what its fields hold does, whatever its kind. -/
theorem agrees_node (isNode : t.isNode) : t.Agrees := by
  by_cases rule : ∃ kind ∈ Task.ruled, t.kind? = some kind
  · -- Each kind with a rule has a case of its own.
    obtain ⟨kind, row, same⟩ := rule
    have isA : t.isA kind := beq_iff_eq.mpr same
    simp only [Task.ruled, List.mem_cons, List.not_mem_nil, or_false] at row
    rcases row with
      rfl | rfl | rfl | rfl | rfl | rfl | rfl | rfl | rfl | rfl | rfl | rfl | rfl | rfl
    · exact agrees_program below placed isA
    · exact agrees_block below placed isA
    · exact agrees_variables below placed isA
    · exact agrees_import below placed isA
    · exact agrees_functionDeclaration isA
    · exact agrees_function isA (by decide)
    · exact agrees_function isA (by decide)
    · exact agrees_function isA (by decide)
    · exact agrees_classDeclaration below placed isA
    · exact agrees_classExpression below placed isA (.inl rfl)
    · exact agrees_classExpression below placed isA (.inr rfl)
    · exact agrees_call below placed isA
    · exact agrees_try below placed isA
    · exact agrees_clause below placed isA
  · exact agrees_unruled below placed isNode fun kind row same => rule ⟨kind, row, same⟩

end Nodes

/-- The analysis binds at the top level what the rules of the language declare there, and besides it
what they declare in statements that are no blocks. -/
theorem agrees_of_wellPlaced (placed : ∀ part ∈ t.parts, part.WellPlaced) : t.Agrees := by
  -- Induction over the tree: the parts of what it holds are parts of it.
  induction t using Tree.induction with
  | list items ih =>
    exact agrees_list fun item held => ih item held fun part member =>
      placed part ((parts_sublist_of_item held).subset member)
  | node kind mark fields ih =>
    refine agrees_node (fun field held walked => ih field held fun part member => ?_)
      (placed _ (mem_parts_self rfl)) rfl
    exact placed part (parts_subset_of_field held walked member)
  | _ => exact agrees_value rfl rfl

end Names

end Tree

end ModuleLift
