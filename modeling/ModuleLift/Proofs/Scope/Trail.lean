import Mathlib.Data.List.Nodup
import ModuleLift.Proofs.Scope.Extent
import ModuleLift.Proofs.Scope.Names

/-! Which nodes of a program open scopes, and which names are declared in which of them, told by the
way that leads from a node up to the program. -/

namespace ModuleLift

open scoped List

namespace Scope

/-- One step up from a value: to the node that holds it in a field, or to the list it is in. -/
inductive Link where
  | field (node : Tree) (key : String)
  | element (index : Nat)

/-- The way from a value up to the program, the nearest step first. It tells apart all values of a
program, so a node is known by its trail. -/
abbrev Trail := List Link

/-- Whether what stands at a trail is the body of a function. -/
def isFunctionBody : Trail → Bool
  | .field t key :: _ => Tree.isFunctionKind t.kind? && key == "body"
  | _ => false

/-- The kind of scope a node opens. The scope of the program itself is there from the start. -/
def scopeKind? (trail : Trail) (t : Tree) : Option ScopeKind :=
  match t.kind? with
  | some "BlockStatement" => if isFunctionBody trail then none else some .block
  | some "CatchClause" => some .catch
  | some "ClassDeclaration" => some .classBody
  | some "ClassExpression" => some .classBody
  | some "class" => some .classBody
  | kind => if Tree.isFunctionKind kind then some .function else none

/-- The nearest node above that opens a scope; if there is none, the program. -/
def scopeOf : Trail → Trail
  | [] => []
  | .element _ :: trail => scopeOf trail
  | .field t _ :: trail => if (scopeKind? trail t).isSome then trail else scopeOf trail

/-- The nearest function above; if there is none, the program. -/
def hoistOf : Trail → Trail
  | [] => []
  | .element _ :: trail => hoistOf trail
  | .field t _ :: trail => if Tree.isFunctionKind t.kind? then trail else hoistOf trail

/-- The fields that lead on, from what a node declares, to the names that are declared: those of
declarators and import specifiers, and those of patterns. -/
def leading : List (String × String) :=
  [("VariableDeclarator", "id"), ("ImportSpecifier", "local"), ("ImportDefaultSpecifier", "local"),
    ("ImportNamespaceSpecifier", "local"), ("ObjectPattern", "properties"), ("Property", "value"),
    ("ArrayPattern", "elements"), ("RestElement", "argument"), ("AssignmentPattern", "left")]

/-- Whether a step leads on to names that are declared further up. -/
def Link.leads : Link → Bool
  | .field t key => leading.any fun lead => t.isA lead.1 && key == lead.2
  | .element _ => true

/-- The kind of binding that the word of a declaration stands for. -/
def wordKind? (word : Tree) : Option BindingKind :=
  if word.isText "var" then some .var
  else if word.isText "let" then some .let
  else if word.isText "const" then some .const
  else none

/-- What a node at a trail declares in a field: the kind of binding, and the node that opened the
scope it goes to. -/
def declares? (t : Tree) (key : String) (trail : Trail) : Option (BindingKind × Trail) :=
  match t.kind?, key with
  | some "VariableDeclaration", "declarations" =>
    (wordKind? (t.get "kind")).map fun kind =>
      (kind, if kind = .var then hoistOf trail else scopeOf trail)
  | some "ImportDeclaration", "specifiers" => some (.imported, scopeOf trail)
  | some "FunctionDeclaration", "id" => some (.function, hoistOf trail)
  | some "ClassDeclaration", "id" => some (.className, scopeOf trail)
  -- What these declare is known only inside them.
  | some "FunctionExpression", "id" => some (.function, trail)
  | some "ClassExpression", "id" => some (.className, trail)
  | some "CatchClause", "param" => some (.catchParameter, trail)
  | kind, "params" => if Tree.isFunctionKind kind then some (.parameter, trail) else none
  | _, _ => none

/-- What an identifier at a trail is declared as, and in the scope of which node. -/
def binding? (trail : Trail) : Option (BindingKind × Trail) :=
  match trail.dropWhile Link.leads with
  | .field t key :: rest => declares? t key rest
  | _ => none

/-- Whether a field of a node at a trail holds a pattern whose names a `var` declares. -/
def bindsVar (t : Tree) (key : String) : Trail → Bool
  | .element _ :: .field declaration "declarations" :: _ =>
    t.isA "VariableDeclarator" && key == "id" && declaration.isA "VariableDeclaration" &&
      wordKind? (declaration.get "kind") == some .var
  | _ => false

/-- The node in whose scope another one lies: the nearest above that opens a scope. What a class
extends lies outside the class, and what a pattern of a `var` holds lies where its names go. -/
def enclosing : Trail → Trail
  | [] => []
  | .element _ :: trail => enclosing trail
  | .field t key :: trail =>
    if bindsVar t key trail then hoistOf trail
    else if (scopeKind? trail t).isSome && key != "superClass" then trail
    else enclosing trail

/-- A scope: where the node stands that opens it, its kind, the node itself, and the node in whose
scope it lies. -/
structure Opening where
  trail : Trail
  kind : ScopeKind
  node : Tree
  parent : Option Trail

/-- The scope that a node at a trail opens. -/
def opening? (trail : Trail) (t : Tree) : Option Opening :=
  (scopeKind? trail t).map fun kind => ⟨trail, kind, t, some (enclosing trail)⟩

/-- The scopes that some nodes open. -/
def openings (found : List (Trail × Tree)) : List Opening :=
  found.filterMap fun entry => opening? entry.1 entry.2

/-- The names declared among some nodes, each with the node in whose scope it is declared. -/
def declarations (found : List (Trail × Tree)) : List (Trail × Binding) :=
  found.filterMap fun entry =>
    if entry.2.isIdentifier then
      (binding? entry.1).map fun bound =>
        (bound.2, {
          name := entry.2.name, kind := bound.1, spot := entry.2.mark.spot, node := entry.2 })
    else none

end Scope

namespace Tree

open Scope

mutual

/-- The nodes of a value at a trail, each with its own trail, outer ones first. -/
def traced (trail : Trail) : Tree → List (Trail × Tree)
  | .list items => tracedAll trail 0 items
  | .node kind mark fields =>
    (trail, .node kind mark fields) :: tracedFields trail (.node kind mark fields) fields
  | _ => []

/-- The nodes of the elements of a list, from some index on. -/
def tracedAll (trail : Trail) (index : Nat) : List Tree → List (Trail × Tree)
  | [] => []
  | t :: rest => traced (.element index :: trail) t ++ tracedAll trail (index + 1) rest

/-- The nodes that the fields of a node hold, notes apart. -/
def tracedFields (trail : Trail) (parent : Tree) : List (String × Tree) → List (Trail × Tree)
  | [] => []
  | (key, value) :: rest =>
    (if isNoteKey key then [] else traced (.field parent key :: trail) value) ++
      tracedFields trail parent rest

end

/-- The scopes of a program. -/
def scopes (program : Tree) : List Opening :=
  ⟨[], .global, program, none⟩ :: openings (program.traced [])

/-- The names a program declares, each with the node in whose scope it is declared. -/
def declared (program : Tree) : List (Trail × Binding) := declarations (program.traced [])

section Traced

variable {t : Tree} {trail : Trail} {entry : Trail × Tree}

/-- The nodes that one field of a node holds. -/
def tracedField (trail : Trail) (parent : Tree) (key : String) (value : Tree) :
    List (Trail × Tree) :=
  if isNoteKey key then [] else value.traced (.field parent key :: trail)

/-- The nodes of some fields are those of each. -/
theorem tracedFields_eq (trail : Trail) (parent : Tree) (fields : List (String × Tree)) :
    tracedFields trail parent fields =
      fields.flatMap fun field => tracedField trail parent field.1 field.2 := by
  -- Induction over the fields.
  induction fields with
  | nil => rfl
  | cons field rest ih =>
    obtain ⟨key, value⟩ := field
    rw [tracedFields, List.flatMap_cons, ih, tracedField]

/-- Nothing holds no nodes. -/
@[simp] theorem traced_null (trail : Trail) : null.traced trail = [] := rfl

/-- The nodes of a node are the node itself and those of its fields. -/
theorem traced_node (isNode : t.isNode) : t.traced trail =
    (trail, t) :: t.fields.flatMap fun field => tracedField trail t field.1 field.2 := by
  -- The branch of the definition for nodes.
  cases t with
  | node kind mark fields =>
    rw [traced, tracedFields_eq]
    rfl
  | _ => cases isNode

/-- A node of a list belongs to one element. -/
theorem mem_tracedAll {items : List Tree} {index : Nat} :
    entry ∈ tracedAll trail index items ↔
      ∃ i, ∃ item : Tree, items[i]? = some item ∧
        entry ∈ item.traced (.element (index + i) :: trail) := by
  -- The index that elements are counted from is generalized.
  induction items generalizing index with
  | nil => simp [tracedAll]
  | cons first rest ih =>
    rw [tracedAll, List.mem_append, ih]
    constructor
    · rintro (here | ⟨i, item, held, inside⟩)
      · exact ⟨0, first, rfl, here⟩
      · refine ⟨i + 1, item, by simpa using held, ?_⟩
        rwa [show index + (i + 1) = index + 1 + i by omega]
    · rintro ⟨i, item, held, inside⟩
      cases i with
      | zero =>
        rw [List.getElem?_cons_zero, Option.some.injEq] at held
        subst held
        exact .inl inside
      | succ i =>
        refine .inr ⟨i, item, by simpa using held, ?_⟩
        rwa [show index + 1 + i = index + (i + 1) by omega]

/-- A node of a list belongs to one element, and its trail says to which. -/
theorem mem_traced_list {items : List Tree} : entry ∈ (list items).traced trail ↔
    ∃ i, ∃ item : Tree, items[i]? = some item ∧ entry ∈ item.traced (.element i :: trail) := by
  -- The indices start at zero.
  rw [traced, mem_tracedAll]
  simp only [Nat.zero_add]

/-- A node of a node is that node itself or belongs to one field, and its trail says to which. -/
theorem mem_traced_node (isNode : t.isNode) : entry ∈ t.traced trail ↔
    entry = (trail, t) ∨ ∃ field ∈ t.fields, isNoteKey field.1 = false ∧
      entry ∈ field.2.traced (.field t field.1 :: trail) := by
  -- A field that is a note holds no nodes that are looked at.
  rw [traced_node isNode, List.mem_cons, List.mem_flatMap]
  refine or_congr_right (exists_congr fun field => and_congr_right fun _ => ?_)
  rw [tracedField]
  cases isNoteKey field.1 <;> simp

/-- The nodes found with their trails are the parts. -/
theorem mem_parts_of_traced (found : entry ∈ t.traced trail) : entry.2 ∈ t.parts := by
  -- Induction over the tree, for any trail that leads to it.
  induction t using Tree.induction generalizing trail with
  | list items ih =>
    obtain ⟨i, item, held, inside⟩ := mem_traced_list.mp found
    have member := List.mem_of_getElem? held
    rw [parts_list]
    exact List.mem_flatMap.mpr ⟨item, member, ih item member inside⟩
  | node kind mark fields ih =>
    rcases (mem_traced_node rfl).mp found with rfl | ⟨field, held, entered, inside⟩
    · exact mem_parts_self rfl
    · exact (parts_sublist_of_field held entered).subset (ih field held inside)
  | _ => cases found

/-- The trail of a part of a value leads through the value. -/
theorem suffix_of_traced (found : entry ∈ t.traced trail) : trail <:+ entry.1 := by
  -- Induction over the tree: each step puts a link before the trail.
  induction t using Tree.induction generalizing trail with
  | list items ih =>
    obtain ⟨i, item, held, inside⟩ := mem_traced_list.mp found
    exact (List.suffix_cons _ _).trans (ih item (List.mem_of_getElem? held) inside)
  | node kind mark fields ih =>
    rcases (mem_traced_node rfl).mp found with rfl | ⟨field, held, _, inside⟩
    · exact List.suffix_refl _
    · exact (List.suffix_cons _ _).trans (ih field held inside)
  | _ => cases found

/-- The nodes that a trail leads through are found as well. -/
theorem traced_above (found : entry ∈ t.traced trail) {node : Tree} {key : String}
    {above : Trail} (through : .field node key :: above <:+ entry.1) :
    (above, node) ∈ t.traced trail ∨ .field node key :: above <:+ trail := by
  -- Going down, the trail passes the node in one of its own fields, or it did so before.
  induction t using Tree.induction generalizing trail with
  | list items ih =>
    obtain ⟨i, item, held, inside⟩ := mem_traced_list.mp found
    rcases ih item (List.mem_of_getElem? held) inside with below | earlier
    · exact .inl (mem_traced_list.mpr ⟨i, item, held, below⟩)
    · rcases List.suffix_cons_iff.mp earlier with same | earlier
      · cases same
      · exact .inr earlier
  | node kind mark fields ih =>
    rcases (mem_traced_node rfl).mp found with rfl | ⟨field, held, entered, inside⟩
    · exact .inr through
    · rcases ih field held inside with below | earlier
      · exact .inl ((mem_traced_node rfl).mpr (.inr ⟨field, held, entered, below⟩))
      · rcases List.suffix_cons_iff.mp earlier with same | earlier
        · cases same
          exact .inl ((mem_traced_node rfl).mpr (.inl rfl))
        · exact .inr earlier
  | _ => cases found

/-- Two different steps lead to different nodes. -/
theorem disjoint_traced {u : Tree} {link other : Link} (differ : link ≠ other) :
    ((t.traced (link :: trail)).map (·.1)).Disjoint ((u.traced (other :: trail)).map (·.1)) := by
  -- Both trails would end in the same links, the first step included.
  intro path here there
  obtain ⟨entry, found, rfl⟩ := List.mem_map.mp here
  obtain ⟨second, met, again⟩ := List.mem_map.mp there
  have elsewhere : other :: trail <:+ entry.1 := again ▸ suffix_of_traced met
  have same : link :: trail = other :: trail :=
    (List.suffix_of_suffix_length_le (suffix_of_traced found) elsewhere (by simp)).eq_of_length rfl
  exact differ (List.cons.inj same).1

/-- Elements have different indices, whatever the index of the first. -/
theorem nodup_tracedAll {items : List Tree}
    (each : ∀ item ∈ items, ∀ trail, ((item.traced trail).map (·.1)).Nodup) (index : Nat) :
    ((tracedAll trail index items).map (·.1)).Nodup := by
  -- Induction over the elements: the index of the first is not used again.
  induction items generalizing index with
  | nil => exact List.nodup_nil
  | cons first rest ih =>
    rw [tracedAll, List.map_append, List.nodup_append']
    refine ⟨each first List.mem_cons_self _,
      ih (fun item held => each item (List.mem_cons_of_mem _ held)) _, ?_⟩
    intro path here there
    obtain ⟨entry, met, rfl⟩ := List.mem_map.mp there
    obtain ⟨i, item, _, inside⟩ := mem_tracedAll.mp met
    have differ : Link.element index ≠ .element (index + 1 + i) := by
      rw [Ne, Link.element.injEq]
      omega
    exact disjoint_traced differ here (List.mem_map_of_mem inside)

/-- Fields have different names. -/
theorem nodup_tracedFields {fields : List (String × Tree)} (distinct : (fields.map (·.1)).Nodup)
    (each : ∀ field ∈ fields, isNoteKey field.1 = false →
      ((field.2.traced (.field t field.1 :: trail)).map (·.1)).Nodup) :
    ((fields.flatMap fun field => tracedField trail t field.1 field.2).map (·.1)).Nodup := by
  -- Within a field by assumption, and between two fields by their names.
  rw [List.map_flatMap, List.nodup_flatMap]
  constructor
  · intro field held
    rw [tracedField]
    split
    · exact List.nodup_nil
    · rename_i entered
      exact each field held (by simpa using entered)
  · refine (List.pairwise_map.mp distinct).imp ?_
    intro field other differ
    simp only [Function.onFun, tracedField]
    split
    · exact List.disjoint_nil_left _
    · split
      · exact List.disjoint_nil_right _
      · exact disjoint_traced (by simpa using differ)

/-- No two nodes have the same trail, if the fields of each node have different names. -/
theorem nodup_trails (names : ∀ part ∈ t.parts, (part.fields.map (·.1)).Nodup) :
    ((t.traced trail).map (·.1)).Nodup := by
  induction t using Tree.induction generalizing trail with
  | list items ih =>
    refine nodup_tracedAll (fun item held _ => ih item held fun part inside => ?_) 0
    exact names part ((parts_sublist_of_item held).subset inside)
  | node kind mark fields ih =>
    rw [traced_node rfl, List.map_cons, List.nodup_cons]
    constructor
    · -- Trails only get longer.
      intro back
      obtain ⟨entry, found, same⟩ := List.mem_map.mp back
      obtain ⟨field, _, inside⟩ := List.mem_flatMap.mp found
      rw [tracedField] at inside
      split at inside
      · cases inside
      · have longer := (suffix_of_traced inside).length_le
        rw [same, List.length_cons] at longer
        exact Nat.not_succ_le_self _ longer
    · refine nodup_tracedFields (names _ (mem_parts_self rfl)) fun field held entered => ?_
      exact ih field held fun part inside =>
        names part ((parts_sublist_of_field held entered).subset inside)
  | _ => exact List.nodup_nil

end Traced

end Tree

namespace Scope

section Reach

variable {trail target : Trail}

/-- Whether a trail passes a node that stands at the target and opens a scope there. -/
def Passes (trail target : Trail) : Prop :=
  ∃ t key, .field t key :: target <:+ trail ∧ (scopeKind? target t).isSome

/-- A longer trail passes what a shorter one does. -/
theorem Passes.mono {longer : Trail} (passes : Passes trail target) (leads : trail <:+ longer) :
    Passes longer target := by
  -- The node passed is on the longer trail too.
  obtain ⟨t, key, through, opens⟩ := passes
  exact ⟨t, key, through.trans leads, opens⟩

/-- A function opens a scope wherever it stands. -/
theorem scopeKind?_function {t : Tree} (isFunction : Tree.isFunctionKind t.kind?) :
    scopeKind? trail t = some .function := by
  -- The rules before the one for functions are for other kinds.
  unfold scopeKind?
  split
  any_goals rename_i kind; rw [kind] at isFunction; cases isFunction
  exact if_pos isFunction

/-- Only functions open the scopes of functions. -/
theorem isFunctionKind_iff_of_opens {t : Tree} {kind : ScopeKind}
    (opens : scopeKind? trail t = some kind) :
    Tree.isFunctionKind t.kind? ↔ kind = .function := by
  constructor
  · intro isFunction
    rw [scopeKind?_function isFunction] at opens
    exact (Option.some.inj opens).symm
  · -- Every other rule opens a scope of another kind.
    rintro rfl
    unfold scopeKind? at opens
    split at opens
    · split at opens <;> cases opens
    any_goals cases opens
    split at opens
    · assumption
    · cases opens

/-- The scope around a trail is that of the program, or of a node that the trail passes. -/
theorem scopeOf_passes (trail : Trail) : scopeOf trail = [] ∨ Passes trail (scopeOf trail) := by
  -- Induction over the trail: the nearest node that opens a scope, or one further up.
  induction trail with
  | nil => exact .inl rfl
  | cons link trail ih =>
    have further : scopeOf trail = [] ∨ Passes (link :: trail) (scopeOf trail) :=
      ih.imp_right fun passes => passes.mono (List.suffix_cons _ _)
    cases link with
    | element index => exact further
    | field t key =>
      rw [scopeOf]
      split
      · rename_i opens
        exact .inr ⟨t, key, List.suffix_refl _, opens⟩
      · exact further

/-- The same of the scope that a `var` goes to. -/
theorem hoistOf_passes (trail : Trail) : hoistOf trail = [] ∨ Passes trail (hoistOf trail) := by
  -- Induction over the trail: the nearest function, or one further up.
  induction trail with
  | nil => exact .inl rfl
  | cons link trail ih =>
    have further : hoistOf trail = [] ∨ Passes (link :: trail) (hoistOf trail) :=
      ih.imp_right fun passes => passes.mono (List.suffix_cons _ _)
    cases link with
    | element index => exact further
    | field t key =>
      rw [hoistOf]
      split
      · rename_i isFunction
        exact .inr ⟨t, key, List.suffix_refl _, by rw [scopeKind?_function isFunction]; rfl⟩
      · exact further

/-- What a node declares goes to its own scope or to one around it. -/
theorem declares?_passes {t : Tree} {key : String} {kind : BindingKind}
    (declares : declares? t key trail = some (kind, target)) :
    target = [] ∨ Passes (.field t key :: trail) target := by
  have around {outer : Trail} (passes : outer = [] ∨ Passes trail outer) :
      outer = [] ∨ Passes (.field t key :: trail) outer :=
    passes.imp_right fun passes => passes.mono (List.suffix_cons _ _)
  have own (opens : (scopeKind? trail t).isSome) : Passes (.field t key :: trail) trail :=
    ⟨t, key, List.suffix_refl _, opens⟩
  -- One case for each row of the table: names go around the node, or into the scope that it opens.
  unfold declares? at declares
  split at declares
  · obtain ⟨_, _, same⟩ := Option.map_eq_some_iff.mp declares
    rw [Prod.mk.injEq] at same
    rw [← same.2]
    split
    · exact around (hoistOf_passes trail)
    · exact around (scopeOf_passes trail)
  · cases declares
    exact around (scopeOf_passes trail)
  · cases declares
    exact around (hoistOf_passes trail)
  · cases declares
    exact around (scopeOf_passes trail)
  · cases declares
    rename_i isKind
    exact .inr (own (by rw [scopeKind?, isKind]; rfl))
  · cases declares
    rename_i isKind
    exact .inr (own (by rw [scopeKind?, isKind]; rfl))
  · cases declares
    rename_i isKind
    exact .inr (own (by rw [scopeKind?, isKind]; rfl))
  · split at declares
    · cases declares
      rename_i isFunction
      exact .inr (own (by rw [scopeKind?_function isFunction]; rfl))
    · cases declares
  · cases declares

/-- A name goes to the scope of the program, or of a node that its trail passes. -/
theorem binding?_passes {kind : BindingKind} (bound : binding? trail = some (kind, target)) :
    target = [] ∨ Passes trail target := by
  -- The rule is applied where the links that lead on end.
  have suffix := List.dropWhile_suffix (l := trail) Link.leads
  unfold binding? at bound
  split at bound
  · rename_i t key rest passed
    rw [passed] at suffix
    exact (declares?_passes bound).imp_right fun passes => passes.mono suffix
  · cases bound

end Reach

/-- A name is declared in one of the scopes of the program. -/
theorem mem_scopes_of_declared {program : Tree} {entry : Trail × Binding}
    (declared : entry ∈ program.declared) : entry.1 ∈ program.scopes.map (·.trail) := by
  obtain ⟨found, traced, bound⟩ := List.mem_filterMap.mp declared
  split at bound
  · obtain ⟨⟨kind, target⟩, known, rfl⟩ := Option.map_eq_some_iff.mp bound
    rw [Tree.scopes, List.map_cons, List.mem_cons]
    rcases binding?_passes known with top | ⟨t, key, through, opens⟩
    · exact .inl top
    · -- The node that the trail passes is a node of the program, so its scope is there.
      rcases Tree.traced_above traced through with met | beyond
      · obtain ⟨kind, opened⟩ := Option.isSome_iff_exists.mp opens
        refine .inr (List.mem_map.mpr ⟨⟨target, kind, t, some (enclosing target)⟩, ?_, rfl⟩)
        refine List.mem_filterMap.mpr ⟨(target, t), met, ?_⟩
        simp [opening?, opened]
      · cases List.suffix_nil.mp beyond
  · cases bound

/-- Scopes are told apart by the trails of the nodes that open them. -/
theorem openings_sublist (found : List (Trail × Tree)) :
    (openings found).map (·.trail) <+ found.map (·.1) := by
  -- Induction over the nodes: one opens a scope under its trail, or none.
  induction found with
  | nil => exact List.Sublist.refl []
  | cons entry found ih =>
    rw [openings, List.filterMap_cons]
    split
    · exact ih.cons _
    · rename_i opening opened
      obtain ⟨kind, _, rfl⟩ := Option.map_eq_some_iff.mp opened
      exact ih.cons_cons _

/-- No two scopes of a program are opened by the same node. -/
theorem nodup_scopes {program : Tree} (isProgram : program.isA "Program")
    (names : ∀ part ∈ program.parts, (part.fields.map (·.1)).Nodup) :
    (program.scopes.map (·.trail)).Nodup := by
  have distinct := @Tree.nodup_trails program [] names
  have isNode := Task.isNode_of_isA isProgram
  have start : openings [([], program)] = [] := by
    simp [openings, opening?, scopeKind?, beq_iff_eq.mp isProgram, Tree.isFunctionKind]
  rw [Tree.traced_node isNode, List.map_cons, List.nodup_cons] at distinct
  rw [Tree.scopes, Tree.traced_node isNode, List.map_cons, List.nodup_cons, openings,
    List.filterMap_cons_none (by simpa [openings] using start)]
  -- The scopes other than the first are opened by nodes below the program.
  have below := openings_sublist
    (program.fields.flatMap fun field => Tree.tracedField [] program field.1 field.2)
  exact ⟨fun again => distinct.1 (below.subset again), distinct.2.sublist below⟩

end Scope

end ModuleLift
