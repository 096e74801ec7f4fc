import ModuleLift.Proofs.Scope.Declared
import ModuleLift.Proofs.Scope.Trail

/-! Programs as the grammar of the language builds them, as far as the scopes of names depend on it,
and what their nodes contribute to the scopes and the declared names. -/

namespace ModuleLift

open scoped List

namespace Tree

open Scope (Task wordKind?)

/-- Whether a value is made of names and literals only, so that nothing is declared inside it. -/
def isInert (t : Tree) : Bool :=
  t.parts.all fun part => [none, some "Identifier", some "Literal"].contains part.kind?

/-- The fields in which nodes of a kind hold more than names and literals, for the kinds that
declare names, open scopes or stand between a declaration and its names, and for those with a rule
of their own. -/
def boundIn? (kind : Option String) : Option (List String) :=
  match kind with
  | some "Program" => some ["body"]
  | some "BlockStatement" => some ["body"]
  | some "VariableDeclaration" => some ["declarations"]
  | some "VariableDeclarator" => some ["id", "init"]
  | some "ImportDeclaration" => some ["specifiers"]
  | some "ImportSpecifier" => some ["local"]
  | some "ImportDefaultSpecifier" => some ["local"]
  | some "ImportNamespaceSpecifier" => some ["local"]
  | some "FunctionDeclaration" => some ["id", "params", "body"]
  | some "FunctionExpression" => some ["params", "body", "id"]
  | some "ArrowFunctionExpression" => some ["params", "body"]
  | some "function" => some ["params", "body"]
  | some "ClassDeclaration" => some ["id", "superClass", "body"]
  | some "ClassExpression" => some ["superClass", "body", "id"]
  | some "class" => some ["superClass", "body"]
  | some "CallExpression" => some ["callee", "arguments"]
  | some "TryStatement" => some ["block", "handler", "finalizer"]
  | some "CatchClause" => some ["param", "body"]
  | some "Identifier" => some []
  | some "ObjectPattern" => some ["properties"]
  | some "Property" => some ["key", "value"]
  | some "ArrayPattern" => some ["elements"]
  | some "RestElement" => some ["argument"]
  | some "AssignmentPattern" => some ["left", "right"]
  | _ => none

/-- A node as the grammar builds it. Its fields have different names, notes are what the analysis
takes for notes, and a node of a kind in the table holds nothing but names and literals in other
fields. Where there can be several parts there is a list, what is declared or imported are
declarators and specifiers, what handles an exception is a catch clause, what names a function, a
class or an import is a name. Keys, defaults and superclasses are expressions, which declare nothing
outside functions, and a key that is not computed is a name or a literal. -/
structure Grammatical (t : Tree) : Prop where
  names : (t.fields.map (·.1)).Nodup
  notes : ∀ field ∈ t.fields, isNoteKey field.1 → Task.isNote field.1
  held : ∀ keys ∈ boundIn? t.kind?, ∀ field ∈ t.fields,
    field.1 ∈ keys ∨ isNoteKey field.1 ∨ field.2.isInert
  series : ∀ key ∈ ["declarations", "specifiers", "params", "properties", "elements"],
    (t.get key).isSeries
  word : t.isA "VariableDeclaration" → (wordKind? (t.get "kind")).isSome
  declared : t.isA "VariableDeclaration" →
    ∀ d ∈ (t.get "declarations").items, d.isA "VariableDeclarator"
  imported : t.isA "ImportDeclaration" → ∀ s ∈ (t.get "specifiers").items,
    s.isA "ImportSpecifier" ∨ s.isA "ImportDefaultSpecifier" ∨ s.isA "ImportNamespaceSpecifier"
  handled : t.isA "TryStatement" → (t.get "handler").isA "CatchClause" ∨ (t.get "handler").isNull
  -- Only declarators have a pattern in place of a name.
  named : t.isA "VariableDeclarator" ∨ (t.get "id").isIdentifier ∨ (t.get "id").isNull
  local_ : (t.get "local").isIdentifier ∨ (t.get "local").isNull
  quiet : ∀ key ∈ ["key", "right", "superClass"], (t.get key).isQuiet
  plain : t.isA "Property" → (t.get "computed").isSet = false → (t.get "key").isInert

instance (t : Tree) : Decidable t.Grammatical :=
  decidable_of_iff
    ((t.fields.map (·.1)).Nodup ∧
      (∀ field ∈ t.fields, isNoteKey field.1 → Task.isNote field.1) ∧
      (∀ keys ∈ boundIn? t.kind?, ∀ field ∈ t.fields,
        field.1 ∈ keys ∨ isNoteKey field.1 ∨ field.2.isInert) ∧
      (∀ key ∈ ["declarations", "specifiers", "params", "properties", "elements"],
        (t.get key).isSeries) ∧
      (t.isA "VariableDeclaration" → (wordKind? (t.get "kind")).isSome) ∧
      (t.isA "VariableDeclaration" →
        ∀ d ∈ (t.get "declarations").items, d.isA "VariableDeclarator") ∧
      (t.isA "ImportDeclaration" → ∀ s ∈ (t.get "specifiers").items, s.isA "ImportSpecifier" ∨
        s.isA "ImportDefaultSpecifier" ∨ s.isA "ImportNamespaceSpecifier") ∧
      (t.isA "TryStatement" →
        (t.get "handler").isA "CatchClause" ∨ (t.get "handler").isNull) ∧
      (t.isA "VariableDeclarator" ∨ (t.get "id").isIdentifier ∨ (t.get "id").isNull) ∧
      ((t.get "local").isIdentifier ∨ (t.get "local").isNull) ∧
      (∀ key ∈ ["key", "right", "superClass"], (t.get key).isQuiet) ∧
      (t.isA "Property" → (t.get "computed").isSet = false → (t.get "key").isInert))
    ⟨fun ⟨names, notes, held, series, word, declared, imported, handled, named, local_, quiet,
        plain⟩ => ⟨names, notes, held, series, word, declared, imported, handled, named, local_,
        quiet, plain⟩,
      fun ⟨names, notes, held, series, word, declared, imported, handled, named, local_, quiet,
        plain⟩ => ⟨names, notes, held, series, word, declared, imported, handled, named, local_,
        quiet, plain⟩⟩

/-- Whether a value is a pattern that binds names, at every depth. A gap in an array binds none. -/
def isBindingPattern (t : Tree) : Bool :=
  match _isKind : t.kind? with
  | some "Identifier" => true
  | some "ObjectPattern" =>
    (t.get "properties").items.attach.all fun ⟨property, _⟩ =>
      if property.isA "Property" then isBindingPattern (property.get "value")
      else isBindingPattern property
  | some "ArrayPattern" =>
    (t.get "elements").items.attach.all fun ⟨element, _⟩ => isBindingPattern element
  | some "RestElement" => isBindingPattern (t.get "argument")
  | some "AssignmentPattern" => isBindingPattern (t.get "left")
  | _ => t.isNull
termination_by sizeOf t
decreasing_by
  · rename_i member _
    have property := sizeOf_lt_of_kind_of_mem _isKind member
    have value := sizeOf_get_le ‹Tree› "value"
    omega
  · exact sizeOf_lt_of_kind_of_mem _isKind ‹_›
  · exact sizeOf_lt_of_kind_of_mem _isKind ‹_›
  · exact sizeOf_get_lt_of_kind _isKind _
  · exact sizeOf_get_lt_of_kind _isKind _

/-- A pattern is one if the patterns in it are. -/
theorem isBindingPattern_eq (t : Tree) : t.isBindingPattern =
    match t.kind? with
    | some "Identifier" => true
    | some "ObjectPattern" => (t.get "properties").items.all fun property =>
      if property.isA "Property" then (property.get "value").isBindingPattern
      else property.isBindingPattern
    | some "ArrayPattern" => (t.get "elements").items.all isBindingPattern
    | some "RestElement" => (t.get "argument").isBindingPattern
    | some "AssignmentPattern" => (t.get "left").isBindingPattern
    | _ => t.isNull := by
  -- The definition carries membership proofs along, which are dropped here.
  rw [isBindingPattern]
  split <;> simp [*]

/-- What a node binds names by: the parameters of a function, the parameter of a catch clause, or
what a declarator declares. -/
def targets (t : Tree) : List Tree :=
  match t.kind? with
  | some "VariableDeclarator" => [t.get "id"]
  | some "CatchClause" => [t.get "param"]
  | kind => if isFunctionKind kind then (t.get "params").items else []

/-- The targets of a function are its parameters. -/
theorem targets_function {t : Tree} (isFunction : isFunctionKind t.kind?) :
    t.targets = (t.get "params").items := by
  -- The rules before the one for functions are for other kinds.
  unfold targets
  split
  any_goals rename_i kind; rw [kind] at isFunction; cases isFunction
  exact if_pos isFunction

/-- A node that binds names by patterns only. -/
def BindsPatterns (t : Tree) : Prop := ∀ target ∈ t.targets, target.isBindingPattern

instance (t : Tree) : Decidable t.BindsPatterns :=
  inferInstanceAs (Decidable (∀ target ∈ t.targets, target.isBindingPattern))

/-- A value whose nodes are as the grammar builds them and bind names by patterns. -/
def Sound (t : Tree) : Prop := ∀ part ∈ t.parts, part.Grammatical ∧ part.BindsPatterns

section Sound

variable {t : Tree}

/-- The fields of a sound tree are sound. -/
theorem Sound.get (sound : t.Sound) {key : String} (entered : isNoteKey key = false) :
    (t.get key).Sound :=
  fun part inside => sound part ((parts_get_sublist t entered).subset inside)

/-- The elements of a sound list are sound. -/
theorem Sound.item (sound : t.Sound) {item : Tree} (held : item ∈ t.items) : item.Sound :=
  fun part inside => sound part ((parts_sublist_of_mem_items held).subset inside)

/-- What a sound tree satisfies as a node. -/
theorem Sound.self (sound : t.Sound) (isNode : t.isNode) : t.Grammatical ∧ t.BindsPatterns :=
  sound t (mem_parts_self isNode)

/-- The elements of a quiet list are quiet. -/
theorem isQuiet_item (quiet : t.isQuiet) {item : Tree} (held : item ∈ t.items) :
    item.isQuiet := by
  -- The nodes outside of functions are those of the elements.
  cases t with
  | list items =>
    rw [isQuiet, outer, outerAll_eq, List.all_flatMap, List.all_eq_true] at quiet
    exact quiet item held
  | _ => cases held

/-- What a quiet node holds is quiet, unless the node is a function. -/
theorem isQuiet_field (quiet : t.isQuiet) (entered : isFunctionKind t.kind? = false)
    {field : String × Tree} (held : field ∈ t.fields) (walked : isNoteKey field.1 = false) :
    field.2.isQuiet := by
  -- The search for declarations goes on in the fields of such a node.
  cases t with
  | node kind mark fields =>
    have stops : isFunctionKind kind = false := entered
    rw [isQuiet, outer, stops, List.all_cons, Bool.and_eq_true, if_neg Bool.false_ne_true,
      outerFields_eq, List.all_flatMap, List.all_eq_true] at quiet
    have inside := quiet.2 field held
    rwa [walked] at inside
  | _ => cases held

/-- A declaration is not quiet. -/
theorem isDeclaration_eq_false (quiet : t.isQuiet) : t.isDeclaration = false := by
  -- The node itself is the first that is looked at.
  cases t with
  | node kind mark fields =>
    rw [isQuiet, outer, List.all_cons, Bool.and_eq_true] at quiet
    simpa using quiet.1
  | _ => rfl

/-- A field of a quiet node is quiet. -/
theorem isQuiet_get (quiet : t.isQuiet) (entered : isFunctionKind t.kind? = false) {key : String}
    (walked : isNoteKey key = false) : (t.get key).isQuiet := by
  -- It is one of the fields, or absent.
  rcases t.get_eq_null_or_mem key with absent | held
  · rw [absent]
    rfl
  · exact isQuiet_field quiet entered held walked

end Sound

end Tree

namespace Scope

section Links

variable {t : Tree} {key : String} {trail : Trail}

/-- An element of a list declares what the list does. -/
@[simp] theorem binding?_element (index : Nat) :
    binding? (.element index :: trail) = binding? trail := rfl

/-- A step that leads on to names does not change what they are declared as. -/
theorem binding?_leads (leads : (Link.field t key).leads) :
    binding? (.field t key :: trail) = binding? trail := by
  rw [binding?, List.dropWhile_cons_of_pos leads, binding?]

/-- Any other step goes up to what declares, or to nothing that does. -/
theorem binding?_stays (stays : (Link.field t key).leads = false) :
    binding? (.field t key :: trail) = declares? t key trail := by
  rw [binding?, List.dropWhile_cons_of_neg (by simp [stays])]

/-- Which fields lead on is told by the kind of the node. -/
theorem leads_of_kind {kind : String} (isKind : t.kind? = some kind)
    (listed : (kind, key) ∈ leading) : (Link.field t key).leads := by
  -- The entry of the list is the one for this kind and this field.
  rw [Link.leads, List.any_eq_true]
  exact ⟨_, listed, by simp [Tree.isA, isKind]⟩

/-- A field that does not lead on declares by the rule of its node. -/
theorem binding?_of_kind {kind : String} (isKind : t.kind? = some kind)
    (other : (kind, key) ∉ leading) : binding? (.field t key :: trail) = declares? t key trail := by
  -- An entry of the list that fits would have this kind and this field.
  apply binding?_stays
  rw [Link.leads, List.any_eq_false]
  intro lead listed same
  simp only [Tree.isA, isKind, Bool.and_eq_true, beq_iff_eq, Option.some.injEq] at same
  exact other (by rw [same.1, same.2]; exact listed)

/-- Nodes without a rule declare nothing. -/
theorem declares?_unruled (unruled : ∀ kind ∈ Task.ruled, t.kind? ≠ some kind) :
    declares? t key trail = none := by
  -- Every branch but the last is for a kind with a rule.
  unfold declares?
  split
  any_goals exact absurd ‹_› (unruled _ (by simp [Task.ruled]))
  · refine if_neg fun isFunction => ?_
    unfold Tree.isFunctionKind at isFunction
    split at isFunction
    any_goals exact absurd ‹_› (unruled _ (by simp [Task.ruled]))
    cases isFunction
  · rfl

/-- Nodes without a rule open no scope. -/
theorem scopeKind?_unruled (unruled : ∀ kind ∈ Task.ruled, t.kind? ≠ some kind) :
    scopeKind? trail t = none := by
  -- Every branch but the last is for a kind with a rule, and so are the functions.
  unfold scopeKind?
  split
  any_goals exact absurd ‹_› (unruled _ (by simp [Task.ruled]))
  refine if_neg fun isFunction => ?_
  unfold Tree.isFunctionKind at isFunction
  split at isFunction
  any_goals exact absurd ‹_› (unruled _ (by simp [Task.ruled]))
  cases isFunction

/-- Where nothing is declared, nothing is declared in the fields of a node without a rule. -/
theorem clear_unruled (unruled : ∀ kind ∈ Task.ruled, t.kind? ≠ some kind)
    (clear : binding? trail = none) : binding? (.field t key :: trail) = none := by
  -- A field leads on to what is declared above, or its node has to declare.
  cases leads : (Link.field t key).leads with
  | true => rw [binding?_leads leads, clear]
  | false => rw [binding?_stays leads, declares?_unruled unruled]

/-- What a node holds in fields that are not in the table is not declared. -/
theorem clear_other {keys : List String} (known : Tree.boundIn? t.kind? = some keys)
    (other : key ∉ keys) : binding? (.field t key :: trail) = none := by
  have stays : (Link.field t key).leads = false := by
    unfold Tree.boundIn? at known
    split at known
    all_goals cases known
    all_goals simp_all [Link.leads, leading, Tree.isA]
  rw [binding?_stays stays]
  -- All that a node declares it declares in fields of the table.
  have listed {kind : String} {row : List String} (isKind : t.kind? = some kind)
      (found : Tree.boundIn? (some kind) = some row) : key ∉ row := by
    rw [isKind, found, Option.some.injEq] at known
    rwa [known]
  unfold declares?
  split
  any_goals rename_i isKind; exact absurd (by decide) (listed isKind rfl)
  · refine if_neg fun isFunction => ?_
    unfold Tree.isFunctionKind at isFunction
    split at isFunction
    any_goals rename_i isKind; exact absurd (by decide) (listed isKind rfl)
    cases isFunction
  · rfl

end Links

/-- Two lists of nodes that open the same scopes and declare the same names, up to order. -/
structure Alike (first second : List (Trail × Tree)) : Prop where
  openings : openings first ~ openings second
  declarations : declarations first ~ declarations second

section Alike

variable {t : Tree} {trail : Trail} {first second third fourth : List (Trail × Tree)}

/-- Scopes are opened by one list after the other. -/
theorem openings_append (first second : List (Trail × Tree)) :
    openings (first ++ second) = openings first ++ openings second := List.filterMap_append

/-- Names are declared by one list after the other. -/
theorem declarations_append (first second : List (Trail × Tree)) :
    declarations (first ++ second) = declarations first ++ declarations second :=
  List.filterMap_append

/-- Nodes count like themselves. -/
theorem Alike.refl (found : List (Trail × Tree)) : Alike found found := ⟨.refl _, .refl _⟩

/-- Counting alike goes both ways. -/
theorem Alike.symm (alike : Alike first second) : Alike second first :=
  ⟨alike.openings.symm, alike.declarations.symm⟩

/-- Counting alike is passed on. -/
theorem Alike.trans (here : Alike first second) (later : Alike second third) :
    Alike first third :=
  ⟨here.openings.trans later.openings, here.declarations.trans later.declarations⟩

/-- The order of the nodes does not matter. -/
theorem Alike.of_perm (same : first ~ second) : Alike first second :=
  ⟨same.filterMap _, same.filterMap _⟩

/-- Lists that count alike may be put together. -/
theorem Alike.append (here : Alike first second) (there : Alike third fourth) :
    Alike (first ++ third) (second ++ fourth) := by
  -- Both counts split along the lists.
  constructor
  · rw [openings_append, openings_append]
    exact here.openings.append there.openings
  · rw [declarations_append, declarations_append]
    exact here.declarations.append there.declarations

/-- Nodes that open no scope and are not declared do not count. -/
theorem alike_nil {found : List (Trail × Tree)}
    (closed : ∀ entry ∈ found, scopeKind? entry.1 entry.2 = none)
    (clear : ∀ entry ∈ found, entry.2.isIdentifier → binding? entry.1 = none) :
    Alike found [] := by
  -- Each of the two counts skips all of the nodes.
  constructor
  · refine .of_eq (List.filterMap_eq_nil_iff.mpr fun entry held => ?_)
    rw [opening?, closed entry held]
    rfl
  · refine .of_eq (List.filterMap_eq_nil_iff.mpr fun entry held => ?_)
    split
    · rename_i isName
      rw [clear entry held isName]
      rfl
    · rfl

/-- A node that opens no scope and is not declared does not count. -/
theorem alike_cons (closed : scopeKind? trail t = none)
    (clear : t.isIdentifier → binding? trail = none) (rest : List (Trail × Tree)) :
    Alike ((trail, t) :: rest) rest := by
  -- The node alone counts like nothing.
  have single : Alike [(trail, t)] [] := by
    apply alike_nil
    · rintro entry (_ | ⟨_, ⟨⟩⟩)
      exact closed
    · rintro entry (_ | ⟨_, ⟨⟩⟩)
      exact clear
  exact single.append (.refl rest)

/-- Names and literals have no rule. -/
theorem unruled_of_inert (inert : t.isInert) {part : Tree} (inside : part ∈ t.parts) :
    ∀ kind ∈ Task.ruled, part.kind? ≠ some kind := by
  -- No kind with a rule is among the three that such trees are made of.
  have apart : ∀ kind ∈ Task.ruled,
      [none, some "Identifier", some "Literal"].contains (some kind) = false := by decide
  intro kind rule same
  have plain := List.all_eq_true.mp inert part inside
  rw [same, apart kind rule] at plain
  cases plain

/-- Where nothing is declared, nothing is declared in names and literals. -/
theorem clear_of_inert (inert : t.isInert) (clear : binding? trail = none)
    {entry : Trail × Tree} (found : entry ∈ t.traced trail) : binding? entry.1 = none := by
  induction t using Tree.induction generalizing trail with
  | list items ih =>
    obtain ⟨i, item, held, inside⟩ := Tree.mem_traced_list.mp found
    have member := List.mem_of_getElem? held
    refine ih item member ?_ (by rwa [binding?_element]) inside
    rw [Tree.isInert, Tree.parts_list, List.all_flatMap, List.all_eq_true] at inert
    exact inert item member
  | node kind mark fields ih =>
    rcases (Tree.mem_traced_node rfl).mp found with rfl | ⟨field, held, entered, inside⟩
    · exact clear
    · -- Names and literals have no rule, so no trail through them declares anything.
      have unruled := unruled_of_inert inert (Tree.mem_parts_self rfl)
      refine ih field held ?_ (clear_unruled unruled clear) inside
      rw [Tree.isInert, List.all_eq_true] at inert ⊢
      exact fun part below =>
        inert part ((Tree.parts_sublist_of_field held entered).subset below)
  | _ => cases found

/-- Where nothing is declared, names and literals do not count. -/
theorem alike_inert (inert : t.isInert) (clear : binding? trail = none) :
    Alike (t.traced trail) [] := by
  -- No part of such a tree has a rule, and nothing is declared where it stands.
  apply alike_nil
  · intro entry found
    exact scopeKind?_unruled (unruled_of_inert inert (Tree.mem_parts_of_traced found))
  · intro entry found _
    exact clear_of_inert inert clear found

/-- The fields of the table have different names and are no notes. -/
theorem nodup_of_boundIn {kind : Option String} {keys : List String}
    (known : Tree.boundIn? kind = some keys) :
    keys.Nodup ∧ ∀ key ∈ keys, Tree.isNoteKey key = false := by
  -- Each row of the table is checked.
  unfold Tree.boundIn? at known
  split at known
  all_goals cases known
  all_goals decide

/-- What has a kind in the table is a node. -/
theorem isNode_of_boundIn {keys : List String} (known : Tree.boundIn? t.kind? = some keys) :
    t.isNode := by
  -- Only nodes have a kind.
  cases t with
  | node => rfl
  | _ => cases known

/-- What stands in a field that is neither listed in the table nor a note is made of names and
literals. -/
theorem inert_of_unlisted (regular : t.Grammatical) {keys : List String}
    (known : Tree.boundIn? t.kind? = some keys) {field : String × Tree} (held : field ∈ t.fields)
    (other : field.1 ∉ keys) (walked : ¬Tree.isNoteKey field.1) : field.2.isInert := by
  -- The grammar leaves no other way.
  rcases regular.held keys known field held with listed | note | inert
  · exact absurd listed other
  · exact absurd note walked
  · exact inert

/-- A node of a kind in the table counts by itself and by what it holds in the fields listed. -/
theorem alike_held (regular : t.Grammatical) {keys : List String}
    (known : Tree.boundIn? t.kind? = some keys) (trail : Trail) :
    Alike ((trail, t) :: keys.flatMap fun key => (t.get key).traced (.field t key :: trail))
      (t.traced trail) := by
  obtain ⟨distinct, noted⟩ := nodup_of_boundIn known
  -- What is in other fields is a note, or made of names and literals.
  have others (field : String × Tree) (held : field ∈ t.fields) (other : field.1 ∉ keys) :
      Alike (Tree.tracedField trail t field.1 field.2) [] := by
    rw [Tree.tracedField]
    split
    · exact .refl []
    · rename_i walked
      exact alike_inert (inert_of_unlisted regular known held other walked)
        (clear_other known other)
  have listed {β : Type} (view : Trail × Tree → Option β)
      (silent : ∀ field ∈ t.fields, field.1 ∉ keys →
        (Tree.tracedField trail t field.1 field.2).filterMap view = []) :
      (t.fields.flatMap fun field => Tree.tracedField trail t field.1 field.2).filterMap view ~
        (keys.flatMap fun key => (t.get key).traced (.field t key :: trail)).filterMap view := by
    have absent (key : String) :
        (Tree.tracedField trail t key .null).filterMap view = [] := by
      rw [Tree.tracedField, Tree.traced_null, ite_self]
      rfl
    have fields := @Tree.flatMap_fields_perm β t.fields keys
      (fun key value => (Tree.tracedField trail t key value).filterMap view)
      regular.names distinct silent absent
    rw [List.filterMap_flatMap, List.filterMap_flatMap]
    refine fields.trans (.of_eq (List.flatMap_congr fun key held => ?_))
    rw [Tree.tracedField, noted key held]
    rfl
  have rest : Alike (t.fields.flatMap fun field => Tree.tracedField trail t field.1 field.2)
      (keys.flatMap fun key => (t.get key).traced (.field t key :: trail)) :=
    ⟨listed _ fun field held other => (others field held other).openings.eq_nil,
      listed _ fun field held other => (others field held other).declarations.eq_nil⟩
  rw [Tree.traced_node (isNode_of_boundIn known)]
  exact (Alike.refl [(trail, t)]).append rest.symm

/-- If it opens no scope and is no name, it counts only by what it holds. -/
theorem alike_kept (regular : t.Grammatical) {kind : String} {keys : List String}
    (isKind : t.kind? = some kind) (row : Tree.boundIn? (some kind) = some keys)
    (closed : scopeKind? trail t = none) (other : kind ≠ "Identifier") :
    Alike (keys.flatMap fun key => (t.get key).traced (.field t key :: trail))
      (t.traced trail) := by
  -- The node itself does not count, and what it holds is in the fields of the table.
  have noName (isName : t.isIdentifier) : binding? trail = none := by
    rw [Tree.isIdentifier, Tree.isA, isKind, beq_iff_eq, Option.some.injEq] at isName
    exact absurd isName other
  exact (alike_cons closed noName _).symm.trans (alike_held regular (by rwa [isKind]) trail)

end Alike

end Scope

end ModuleLift
