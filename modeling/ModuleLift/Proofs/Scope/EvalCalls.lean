import ModuleLift.Proofs.Scope.Complete
import ModuleLift.Proofs.Scope.Stray

/-! Which direct calls of `eval` an analysis notes: all of them, each once, apart from those in what
stands in the place of a pattern and is none. -/

namespace ModuleLift

open scoped List

namespace Tree

open Scope.Task (isNode_of_isA)

/-- The call of `eval` that a node is, known by the spot of its callee. -/
def ownEvalCalls (t : Tree) : List EvalCall :=
  if t.isA "CallExpression" && (t.get "callee").isNamed "eval" then
    [{ spot := (t.get "callee").mark.spot }]
  else []

/-- The direct calls of `eval` anywhere in a value. -/
def evalCalls (t : Tree) : List EvalCall := t.parts.flatMap ownEvalCalls

/-- The direct calls of `eval` in what stands in the place of a pattern and is none. -/
def hiddenEvalCalls (t : Tree) : List EvalCall := t.strays.flatMap evalCalls

/-- The direct calls of `eval` in a value with a role, apart from hidden ones. -/
def openEvalCalls (t : Tree) (role : Role) : List EvalCall :=
  (t.posts role).flatMap fun post =>
    if post.1.admits post.2.kind? then post.2.ownEvalCalls else []

/-- Every call is hidden or not. -/
theorem openEvalCalls_append_hidden (t : Tree) :
    t.openEvalCalls .free ++ t.hiddenEvalCalls ~ t.evalCalls := by
  rw [openEvalCalls, hiddenEvalCalls, strays, List.flatMap_assoc]
  -- Post by post, one of the two sides is empty and the other has all the calls.
  refine (List.flatMap_append_perm _ _ _).trans (.of_eq ?_)
  rw [evalCalls, parts_eq .free t, List.flatMap_assoc]
  refine List.flatMap_congr fun post _ => ?_
  cases post.1.admits post.2.kind? with
  | true => simp
  | false => simp [evalCalls]

section Open

variable {t : Tree} {role each : Role}

/-- A list that may be missing has the calls of its elements. -/
theorem openEvalCalls_series (series : t.isSeries) (expected : role.each? = some each) :
    t.openEvalCalls role = t.items.flatMap fun item => item.openEvalCalls each := by
  -- What is missing has no elements.
  cases t with
  | list items =>
    rw [openEvalCalls, posts_list expected, List.flatMap_assoc]
    rfl
  | null => rfl
  | _ => cases series

/-- The calls in a field of a node. -/
def fieldCalls (role : Role) (kind : Option String) (key : String) (value : Tree) :
    List EvalCall :=
  if isNoteKey key then [] else value.openEvalCalls (role.within kind key)

/-- A node as expected has its own call and those of its fields. -/
theorem openEvalCalls_node (isNode : t.isNode) (admitted : role.admits t.kind?) :
    t.openEvalCalls role =
      t.ownEvalCalls ++ t.fields.flatMap fun field => fieldCalls role t.kind? field.1 field.2 := by
  -- The posts of a node are the node itself and those of its fields.
  rw [openEvalCalls, posts_node isNode admitted, List.flatMap_cons, List.flatMap_assoc]
  refine congrArg₂ _ (if_pos admitted) (List.flatMap_congr fun field _ => ?_)
  rw [fieldPosts, fieldCalls]
  split <;> rfl

/-- There are none but hidden calls in what is not as expected. -/
theorem openEvalCalls_stray (isNode : t.isNode) (unexpected : role.admits t.kind? = false) :
    t.openEvalCalls role = [] := by
  -- Such a node is one post, which is not admitted.
  rw [openEvalCalls, posts_stray isNode unexpected, List.flatMap_singleton]
  exact if_neg (by simp [unexpected])

/-- Only a call is a call of `eval`. -/
theorem ownEvalCalls_eq_nil (other : t.isA "CallExpression" = false) : t.ownEvalCalls = [] := by
  -- The definition tests the kind first.
  rw [ownEvalCalls, other]
  rfl

/-- Names and literals are no calls. -/
theorem openEvalCalls_inert (inert : t.isInert) (role : Role) : t.openEvalCalls role = [] := by
  -- A call has a rule, and no part of a name or a literal does.
  refine List.flatMap_eq_nil_iff.mpr fun post among => ?_
  split
  · rename_i admitted
    have inside : post.2 ∈ t.parts := by
      rw [parts_eq role t]
      exact List.mem_flatMap.mpr ⟨post, among, by simp [admitted]⟩
    refine ownEvalCalls_eq_nil (Bool.eq_false_iff.mpr fun isCall => ?_)
    exact Scope.unruled_of_inert inert inside "CallExpression" (by decide) (beq_iff_eq.mp isCall)
  · rfl

/-- A node of a kind in the table adds to the calls in the fields listed. -/
theorem openEvalCalls_held (role : Role) (regular : t.Grammatical) {keys : List String}
    (known : boundIn? t.kind? = some keys) (admitted : role.admits t.kind?) :
    t.openEvalCalls role ~
      t.ownEvalCalls ++ keys.flatMap fun key =>
        (t.get key).openEvalCalls (role.within t.kind? key) := by
  obtain ⟨distinct, noted⟩ := Scope.nodup_of_boundIn known
  -- What is in other fields is a note, or made of names and literals.
  have others (field : String × Tree) (held : field ∈ t.fields) (other : field.1 ∉ keys) :
      fieldCalls role t.kind? field.1 field.2 = [] := by
    rw [fieldCalls]
    split
    · rfl
    · rename_i walked
      exact openEvalCalls_inert (Scope.inert_of_unlisted regular known held other walked) _
  have absent (key : String) : fieldCalls role t.kind? key null = [] := ite_self _
  rw [openEvalCalls_node (Scope.isNode_of_boundIn known) admitted]
  refine .append_left _ ((flatMap_fields_perm regular.names distinct others absent).trans ?_)
  refine .of_eq (List.flatMap_congr fun key held => ?_)
  rw [fieldCalls, noted key held]
  rfl

/-- If it is no call, it has the calls in these fields. -/
theorem openEvalCalls_kept (role : Role) (regular : t.Grammatical) {kind : String}
    {keys : List String} (isKind : t.kind? = some kind) (row : boundIn? (some kind) = some keys)
    (admitted : role.admits (some kind)) (other : kind ≠ "CallExpression") :
    t.openEvalCalls role ~
      keys.flatMap fun key => (t.get key).openEvalCalls (role.within (some kind) key) := by
  -- The own share of the node is none.
  have held := openEvalCalls_held role regular (by rwa [isKind]) (by rwa [isKind])
  rwa [ownEvalCalls_eq_nil (isA_eq_false (beq_iff_eq.mpr isKind) other), isKind] at held

/-- A pattern has the same calls where a property could stand. -/
theorem openEvalCalls_property (other : t.isA "Property" = false) :
    t.openEvalCalls .property = t.openEvalCalls .pattern := by
  cases t with
  | node kind mark fields =>
    have differs : (kind == some "Property") = false := other
    have same : Role.admits .property kind = Role.admits .pattern kind := by
      show (kind == some "Property" || Role.patterns.contains kind) = Role.patterns.contains kind
      rw [differs, Bool.false_or]
    cases admitted : Role.admits .pattern kind with
    | true =>
      -- The two roles differ only in what they expect of a property.
      have within (key : String) :
          Role.within .property kind key = Role.within .pattern kind key := by
        unfold Role.within
        split
        any_goals rfl
        · simp
        · cases differs
      rw [openEvalCalls_node rfl (same.trans admitted), openEvalCalls_node rfl admitted]
      refine congrArg _ (List.flatMap_congr fun field _ => ?_)
      rw [fieldCalls, kind?, within]
      rfl
    | false =>
      rw [openEvalCalls_stray rfl (same.trans admitted), openEvalCalls_stray rfl admitted]
  | _ => rfl

end Open

section Kinds

variable {t : Tree}

/-- A value whose nodes are as the grammar builds them. -/
def Built (t : Tree) : Prop := ∀ part ∈ t.parts, part.Grammatical

/-- The fields of a tree as the grammar builds it are built so. -/
theorem Built.get (built : t.Built) {key : String} (entered : isNoteKey key = false) :
    (t.get key).Built :=
  fun part inside => built part ((parts_get_sublist t entered).subset inside)

/-- The elements of a list as the grammar builds it are built so. -/
theorem Built.item (built : t.Built) {item : Tree} (held : item ∈ t.items) : item.Built :=
  fun part inside => built part ((parts_sublist_of_mem_items held).subset inside)

/-- A node as the grammar builds it. -/
theorem Built.self (built : t.Built) (isNode : t.isNode) : t.Grammatical :=
  built t (mem_parts_self isNode)

/-- There are no calls in a name, or where it is missing. -/
theorem openEvalCalls_name (isName : t.isIdentifier ∨ t.isNull) (built : t.Built) {role : Role}
    (admitted : role.admits (some "Identifier")) : t.openEvalCalls role = [] := by
  -- The table has no fields for names.
  rcases isName with isName | absent
  · have regular := built.self (isNode_of_isA isName)
    exact (openEvalCalls_kept role regular (beq_iff_eq.mp isName) rfl admitted (by decide)).eq_nil
  · cases t with
    | null => rfl
    | _ => cases absent

/-- There are none in the name of a function or a class. -/
theorem openEvalCalls_id (built : t.Built) (other : t.isA "VariableDeclarator" = false) :
    (t.get "id").openEvalCalls .free = [] := by
  -- Only a declarator has anything but a name there.
  cases t with
  | node kind mark fields =>
    refine openEvalCalls_name ?_ (built.get rfl) rfl
    rcases (built.self rfl).named with declarator | named
    · rw [other] at declarator
      cases declarator
    · exact named
  | _ => rfl

end Kinds

end Tree

namespace Scope

namespace Task

/-- The calls of `eval` in what a task is to walk, apart from hidden ones. -/
def evalCalls : Task Place → List EvalCall
  | .visit _ t => t.openEvalCalls .free
  | .pattern _ _ t => t.openEvalCalls .pattern
  | .name _ _ _ => []
  | .handler _ t => t.openEvalCalls .free
  | .classBody _ _ t => (t.get "body").openEvalCalls .free

/-- A task on nodes as the grammar builds them. What handles an exception is a catch clause. -/
def Built : Task Place → Prop
  | .visit _ t => t.Built
  | .pattern _ _ t => t.Built
  | .name _ _ _ => True
  | .handler _ t => t.isA "CatchClause" ∧ t.Built
  | .classBody _ _ t => t.Built

/-- Tasks that come to some calls, up to order. -/
structure Leaves (tasks : List (Task Place)) (calls : List EvalCall) : Prop where
  built : ∀ task ∈ tasks, task.Built
  same : tasks.flatMap Task.evalCalls ~ calls

section Leaves

variable {tasks others : List (Task Place)} {calls more : List EvalCall} {t : Tree}

/-- No tasks leave no calls. -/
theorem Leaves.nil : Leaves [] [] := ⟨fun _ held => (List.not_mem_nil held).elim, .refl _⟩

/-- One task leaves its own calls. -/
theorem Leaves.single {task : Task Place} (built : task.Built) : Leaves [task] task.evalCalls :=
  ⟨fun _ held => List.mem_singleton.mp held ▸ built, .of_eq (by simp)⟩

/-- Tasks one after the other leave the calls of both. -/
theorem Leaves.append (here : Leaves tasks calls) (there : Leaves others more) :
    Leaves (tasks ++ others) (calls ++ more) := by
  -- Both conditions split along the two lists.
  refine ⟨fun task held => ?_, ?_⟩
  · rcases List.mem_append.mp held with held | held
    · exact here.built task held
    · exact there.built task held
  · rw [List.flatMap_append]
    exact here.same.append there.same

/-- The order of the calls does not matter. -/
theorem Leaves.perm (left : Leaves tasks calls) (same : calls ~ more) : Leaves tasks more :=
  ⟨left.built, left.same.trans same⟩

/-- Tasks for each of some elements. -/
theorem Leaves.flatMap {items : List Tree} {left : Tree → List (Task Place)}
    {calls : Tree → List EvalCall}
    (each : ∀ item ∈ items, Leaves (left item) (calls item)) :
    Leaves (items.flatMap left) (items.flatMap calls) := by
  -- Both conditions split along the elements.
  refine ⟨fun task held => ?_, ?_⟩
  · obtain ⟨item, among, held⟩ := List.mem_flatMap.mp held
    exact (each item among).built task held
  · rw [List.flatMap_assoc]
    exact .flatMap_left _ fun item among => (each item among).same

/-- A value that is walked has its calls to leave. -/
theorem leaves_visit (built : t.Built) (place : Place) :
    Leaves [.visit place t] (t.openEvalCalls .free) :=
  .single built

/-- A pattern has the calls in its keys and defaults to leave. -/
theorem leaves_pattern (built : t.Built) (kind : BindingKind) (place : Place) :
    Leaves [.pattern kind place t] (t.openEvalCalls .pattern) :=
  .single built

/-- Where a name is bound, no call can stand. -/
theorem leaves_name (kind : BindingKind) (place : Place) (t : Tree) :
    Leaves [.name kind place t] [] :=
  .single trivial

end Leaves

/-- What a step does about the calls of its task: it notes some and leaves the others to tasks. -/
def Meets (j : Journal) (step : Journal × List (Task Place)) (calls : List EvalCall) : Prop :=
  ∃ noted left, step.1.evalCalls = j.evalCalls ++ noted ∧ Leaves step.2 left ∧
    noted ++ left ~ calls

/-- Most steps only leave the calls to tasks. -/
theorem meets_pass {j : Journal} {step : Journal × List (Task Place)} {calls : List EvalCall}
    (same : step.1.evalCalls = j.evalCalls) (left : Leaves step.2 calls) : Meets j step calls :=
  ⟨[], calls, by rw [same, List.append_nil], left, .refl _⟩

section Rules

variable {j : Journal} {place : Place} {t : Tree}

/-- A node without a rule expects nothing of what its fields hold. -/
theorem within_unruled (unruled : ∀ kind ∈ ruled, t.kind? ≠ some kind) (key : String) :
    Role.within .free t.kind? key = .free := by
  unfold Role.within
  -- Some kinds have a rule, and the others expect something only where names are bound.
  split
  · exact absurd ‹_› (unruled "VariableDeclaration" (by simp [ruled]))
  · simp
  · exact absurd ‹_› (unruled "CatchClause" (by simp [ruled]))
  · simp [Role.binds]
  · simp
  · simp [Role.binds]
  · simp [Role.binds]
  · simp [Role.binds]
  · refine if_neg fun expected => ?_
    have isFunction := expected.1
    unfold Tree.isFunctionKind at isFunction
    split at isFunction
    any_goals exact absurd ‹_› (unruled _ (by simp [ruled]))
    cases isFunction

/-- The fields of a node without a rule are walked, notes apart. -/
theorem leaves_fields (built : t.Built) (unruled : ∀ kind ∈ ruled, t.kind? ≠ some kind)
    (isNode : t.isNode) (fields : List (String × Tree))
    (held : ∀ field ∈ fields, field ∈ t.fields) :
    Leaves ((fields.filter fun field => !isNote field.1).map fun field => .visit place field.2)
      (fields.flatMap fun field => Tree.fieldCalls .free t.kind? field.1 field.2) := by
  induction fields with
  | nil => exact .nil
  | cons field fields ih =>
    have rest := ih fun field later => held field (List.mem_cons_of_mem _ later)
    have member := held field List.mem_cons_self
    rw [List.flatMap_cons, List.filter_cons, Tree.fieldCalls, within_unruled unruled]
    cases note : Tree.isNoteKey field.1 with
    | true =>
      -- What is a note to the parts of a tree is one to the walk.
      have passed := (built.self isNode).notes field member note
      simp only [passed, Bool.not_true, Bool.false_eq_true, if_false, if_true]
      exact rest
    | false =>
      have entered := isNote_of_isNoteKey note
      simp only [entered, Bool.not_false, if_true, Bool.false_eq_true, if_false, List.map_cons]
      have inner : field.2.Built := fun part inside =>
        built part (Tree.parts_subset_of_field member note inside)
      exact (leaves_visit inner place).append rest

/-- A node without a rule leaves its fields, with all of its calls. -/
theorem leaves_unruled (built : t.Built) (unruled : ∀ kind ∈ ruled, t.kind? ≠ some kind)
    (isNode : t.isNode) :
    Leaves ((t.fields.filter fun field => !isNote field.1).map fun field => .visit place field.2)
      (t.openEvalCalls .free) := by
  -- A call has a rule, so the node itself is none.
  have noCall : t.isA "CallExpression" = false :=
    Bool.eq_false_iff.mpr fun isCall => unruled _ (by decide) (beq_iff_eq.mp isCall)
  rw [Tree.openEvalCalls_node isNode rfl, Tree.ownEvalCalls_eq_nil noCall]
  exact leaves_fields built unruled isNode t.fields fun _ held => held

/-- The elements of a list in a field are bound by patterns, or are none. -/
theorem leaves_patterns (built : t.Built) {key : String} (entered : Tree.isNoteKey key = false)
    (series : (t.get key).isSeries) (kind : BindingKind) (place : Place) :
    Leaves ((t.get key).items.map (.pattern kind place))
      ((t.get key).openEvalCalls (.series .pattern)) := by
  -- One task for each element, or none where the list is missing.
  rw [List.map_eq_flatMap, Tree.openEvalCalls_series series rfl]
  exact .flatMap fun item held => leaves_pattern ((built.get entered).item held) kind place

/-- The body of a function is walked without its block. -/
theorem leaves_body (built : t.Built) (place : Place) :
    Leaves [.visit place (if (t.get "body").isA "BlockStatement" then
      (t.get "body").get "body" else t.get "body")] ((t.get "body").openEvalCalls .free) := by
  have inner : (t.get "body").Built := built.get rfl
  split
  · rename_i isBlock
    -- The block itself is no call and binds nothing.
    have kept := Tree.openEvalCalls_kept .free (inner.self (isNode_of_isA isBlock))
      (beq_iff_eq.mp isBlock) rfl rfl (by decide)
    rw [List.flatMap_singleton] at kept
    exact (leaves_visit (inner.get rfl) place).perm kept.symm
  · exact leaves_visit inner place

/-- A function is walked by its parameters and its body. -/
theorem leaves_function (built : t.Built) (isFunction : Tree.isFunctionKind t.kind?)
    (ownName : Bool) : Leaves (ofFunction j place t ownName).2 (t.openEvalCalls .free) := by
  have isNode : t.isNode := by
    cases t with
    | node => rfl
    | _ => cases isFunction
  have regular := built.self isNode
  have unnamed : (t.get "id").openEvalCalls .free = [] := by
    refine Tree.openEvalCalls_id built (Bool.eq_false_iff.mpr fun isA => ?_)
    rw [beq_iff_eq.mp isA] at isFunction
    cases isFunction
  have held : t.openEvalCalls .free ~ (t.get "params").openEvalCalls (.series .pattern) ++
      (t.get "body").openEvalCalls .free := by
    -- All kinds of functions hold the same, up to the name.
    have kinds := isFunction
    unfold Tree.isFunctionKind at kinds
    split at kinds
    any_goals
      rename_i isKind
      have kept := Tree.openEvalCalls_kept .free regular isKind rfl rfl (by decide)
      simpa [Role.within, Tree.isFunctionKind, unnamed] using kept
    cases kinds
  have params := leaves_patterns built rfl (regular.series "params" (by decide)) .parameter
    (place.inside .function j.next)
  have own : Leaves (if ownName then
      [.name .function (place.inside .function j.next) (t.get "id")] else []) [] := by
    cases ownName with
    | false => exact .nil
    | true => exact leaves_name _ _ _
  have all := (params.append (leaves_body built (place.inside .function j.next))).append own
  rw [List.append_nil] at all
  exact all.perm held.symm

/-- A catch clause is walked by its parameter and its body. -/
theorem leaves_handler (built : t.Built) (isClause : t.isA "CatchClause") :
    Leaves (ofHandler j place t).2 (t.openEvalCalls .free) := by
  -- These are the two fields of the table for such clauses.
  have kept := Tree.openEvalCalls_kept .free (built.self (isNode_of_isA isClause))
    (beq_iff_eq.mp isClause) rfl rfl (by decide)
  refine ((leaves_pattern (built.get rfl) _ _).append (leaves_visit (built.get rfl) _)).perm
    (.trans (.of_eq ?_) kept.symm)
  simp [Role.within]

/-- A class is walked by what it extends and its body. -/
theorem leaves_class (built : t.Built) (isClass : t.kind? = some "ClassDeclaration" ∨
    t.kind? = some "ClassExpression" ∨ t.kind? = some "class") (ownName : Bool) :
    Leaves [.visit place (t.get "superClass"), .classBody place ownName t]
      (t.openEvalCalls .free) := by
  have isNode : t.isNode := by
    cases t with
    | node => rfl
    | _ => rcases isClass with kind | kind | kind <;> cases kind
  -- The name of a class is an identifier, so no call can stand in it.
  have unnamed : (t.get "id").openEvalCalls .free = [] := by
    refine Tree.openEvalCalls_id built ?_
    rw [Tree.isA]
    rcases isClass with kind | kind | kind <;> rw [kind] <;> rfl
  have held : t.openEvalCalls .free ~
      (t.get "superClass").openEvalCalls .free ++ (t.get "body").openEvalCalls .free := by
    rcases isClass with isKind | isKind | isKind
    all_goals
      have kept := Tree.openEvalCalls_kept .free (built.self isNode) isKind rfl rfl (by decide)
      simpa [Role.within, Tree.isFunctionKind, unnamed] using kept
  have body : Leaves [.classBody place ownName t] ((t.get "body").openEvalCalls .free) :=
    .single built
  exact ((leaves_visit (built.get rfl) place).append body).perm held.symm

/-- A declaration is walked by its patterns and initializers. -/
theorem leaves_declaration (built : t.Built) (isDeclaration : t.isA "VariableDeclaration") :
    Leaves (ofDeclaration j place t) (t.openEvalCalls .free) := by
  have regular := built.self (isNode_of_isA isDeclaration)
  have kept := Tree.openEvalCalls_kept .free regular (beq_iff_eq.mp isDeclaration) rfl rfl
    (by decide)
  rw [List.flatMap_singleton,
    Tree.openEvalCalls_series (regular.series "declarations" (by decide)) rfl] at kept
  refine Leaves.perm (.flatMap fun d held => ?_) kept.symm
  -- Each declarator has the calls of its pattern and of its initializer.
  have isDeclarator := regular.declared isDeclaration d held
  have inner : d.Built := (built.get rfl).item held
  have parts := Tree.openEvalCalls_kept .declarator (inner.self (isNode_of_isA isDeclarator))
    (beq_iff_eq.mp isDeclarator) rfl rfl (by decide)
  refine ((leaves_pattern (inner.get rfl) _ _).append (leaves_visit (inner.get rfl) place)).perm
    (.trans (.of_eq ?_) parts.symm)
  simp [Role.within]

/-- An import is all names. -/
theorem leaves_import (built : t.Built) (isImport : t.isA "ImportDeclaration") :
    Leaves ((t.get "specifiers").items.map fun s =>
      .name .imported place (s.get "local")) (t.openEvalCalls .free) := by
  have regular := built.self (isNode_of_isA isImport)
  have kept := Tree.openEvalCalls_kept .free regular (beq_iff_eq.mp isImport) rfl rfl (by decide)
  rw [List.flatMap_singleton,
    Tree.openEvalCalls_series (regular.series "specifiers" (by decide)) rfl] at kept
  rw [List.map_eq_flatMap]
  refine Leaves.perm (.flatMap fun s held => ?_) kept.symm
  -- All kinds of specifiers hold the name in the same field.
  have inner : s.Built := (built.get rfl).item held
  have named : s.openEvalCalls .free = [] := by
    rcases regular.imported isImport s held with isA | isA | isA
    all_goals
      have tidy := inner.self (isNode_of_isA isA)
      have parts := Tree.openEvalCalls_kept .free tidy (beq_iff_eq.mp isA) rfl rfl (by decide)
      rw [List.flatMap_singleton, Tree.openEvalCalls_name tidy.local_ (inner.get rfl) rfl] at parts
      exact parts.eq_nil
  rw [named]
  exact leaves_name _ _ _

/-- An attempt is walked part by part, its handler as a catch clause. -/
theorem leaves_try (built : t.Built) (isTry : t.isA "TryStatement") :
    Leaves ([.visit place (t.get "block")] ++
      (if (t.get "handler").isNode then [.handler place (t.get "handler")] else []) ++
      [.visit place (t.get "finalizer")]) (t.openEvalCalls .free) := by
  have regular := built.self (isNode_of_isA isTry)
  have kept := Tree.openEvalCalls_kept .free regular (beq_iff_eq.mp isTry) rfl rfl (by decide)
  have handler : Leaves
      (if (t.get "handler").isNode then [.handler place (t.get "handler")] else [])
      ((t.get "handler").openEvalCalls .free) := by
    rcases regular.handled isTry with isClause | absent
    · rw [if_pos (isNode_of_isA isClause)]
      exact .single ⟨isClause, built.get rfl⟩
    · -- Without a handler there is nothing to walk.
      cases value : t.get "handler" with
      | null => exact .nil
      | _ => rw [value] at absent; cases absent
  refine (((leaves_visit (built.get rfl) place).append handler).append
    (leaves_visit (built.get rfl) place)).perm (.trans (.of_eq ?_) kept.symm)
  simp [Role.within, Tree.isFunctionKind]

/-- A call of `eval` is noted, and every call is walked part by part. -/
theorem meets_call (built : t.Built) (isCall : t.isA "CallExpression") :
    Meets j
      (if (t.get "callee").isNamed "eval" then
        j.noteEval { spot := (t.get "callee").mark.spot } else j,
        [.visit place (t.get "callee"), .visit place (t.get "arguments")])
      (t.openEvalCalls .free) := by
  have isKind : t.kind? = some "CallExpression" := beq_iff_eq.mp isCall
  have held := Tree.openEvalCalls_held .free (built.self (isNode_of_isA isCall))
    (by rw [isKind]; rfl) rfl
  rw [isKind] at held
  have parts := (leaves_visit (built.get rfl : (t.get "callee").Built) place).append
    (leaves_visit (built.get rfl : (t.get "arguments").Built) place)
  -- The call itself is noted at once, what lies in it later.
  refine ⟨t.ownEvalCalls, _, ?_, parts, .trans (.of_eq ?_) held.symm⟩
  · rw [Tree.ownEvalCalls, isCall, Bool.true_and]
    split
    · rfl
    · exact (List.append_nil _).symm
  · simp [Role.within, Tree.isFunctionKind]

/-- Each rule for nodes meets the calls in the node. -/
theorem meets_node (built : t.Built) (isNode : t.isNode) :
    Meets j (ofNode j place t) (t.openEvalCalls .free) := by
  have isA {kind : String} (isKind : t.kind? = some kind) : t.isA kind := beq_iff_eq.mpr isKind
  -- Programs and blocks are their bodies.
  have body {kind : String} (isKind : t.kind? = some kind)
      (row : Tree.boundIn? (some kind) = some ["body"]) (other : kind ≠ "CallExpression")
      (expected : Role.within .free (some kind) "body" = .free) (place : Place) :
      Leaves [.visit place (t.get "body")] (t.openEvalCalls .free) := by
    have kept := Tree.openEvalCalls_kept .free (built.self isNode) isKind row rfl other
    rw [List.flatMap_singleton, expected] at kept
    exact (leaves_visit (built.get rfl) place).perm kept.symm
  unfold ofNode
  split
  · exact meets_pass rfl (body ‹_› rfl (by decide) rfl place)
  · exact meets_pass rfl (body ‹_› rfl (by decide) rfl _)
  · exact meets_pass rfl (leaves_declaration built (isA ‹_›))
  · exact meets_pass rfl (leaves_import built (isA ‹_›))
  · rename_i isKind
    exact meets_pass rfl ((leaves_name _ _ _).append
      (leaves_function built (by rw [isKind]; rfl) false))
  · rename_i isKind
    exact meets_pass rfl (leaves_function built (by rw [isKind]; rfl) true)
  · rename_i isKind
    exact meets_pass rfl (leaves_function built (by rw [isKind]; rfl) false)
  · rename_i isKind
    exact meets_pass rfl (leaves_function built (by rw [isKind]; rfl) false)
  · exact meets_pass rfl ((leaves_name _ _ _).append (leaves_class built (.inl ‹_›) false))
  · exact meets_pass rfl (leaves_class built (.inr (.inl ‹_›)) true)
  · exact meets_pass rfl (leaves_class built (.inr (.inr ‹_›)) false)
  · exact meets_call built (isA ‹_›)
  · exact meets_pass rfl (leaves_try built (isA ‹_›))
  · exact meets_pass rfl (leaves_handler built (isA ‹_›))
  · refine meets_pass rfl (leaves_unruled built (fun rule listed same => ?_) isNode)
    simp only [ruled, List.mem_cons, List.not_mem_nil, or_false] at listed
    rcases listed with rfl | rfl | rfl | rfl | rfl | rfl | rfl | rfl | rfl | rfl | rfl | rfl |
      rfl | rfl <;> contradiction

/-- A property of a pattern is walked by its value, and by its key if that is computed. -/
theorem leaves_property (kind : BindingKind) (built : t.Built) :
    Leaves (if t.isA "Property" then
        (if (t.get "computed").isSet then [.visit place (t.get "key")] else []) ++
          [.pattern kind place (t.get "value")]
      else [.pattern kind place t]) (t.openEvalCalls .property) := by
  split
  · rename_i isProperty
    have regular := built.self (isNode_of_isA isProperty)
    have kept := Tree.openEvalCalls_kept .property regular (beq_iff_eq.mp isProperty) rfl rfl
      (by decide)
    have key : Leaves (if (t.get "computed").isSet then [.visit place (t.get "key")] else [])
        ((t.get "key").openEvalCalls .free) := by
      cases computed : (t.get "computed").isSet with
      | true => exact leaves_visit (built.get rfl) place
      | false =>
        -- A key that is not computed is a name or a literal.
        rw [Tree.openEvalCalls_inert (regular.plain isProperty computed)]
        exact .nil
    refine (key.append (leaves_pattern (built.get rfl) kind place)).perm
      (.trans (.of_eq ?_) kept.symm)
    simp [Role.within]
  · rename_i other
    rw [Tree.openEvalCalls_property (by simpa using other)]
    exact leaves_pattern built kind place

/-- A pattern is walked by the patterns in it, by computed keys and by defaults. What is no pattern
has only hidden calls. -/
theorem leaves_ofPattern (kind : BindingKind) (built : t.Built) (isNode : t.isNode) :
    Leaves (ofPattern kind place t) (t.openEvalCalls .pattern) := by
  have regular := built.self isNode
  unfold ofPattern
  split
  · rename_i isKind
    rw [Tree.openEvalCalls_name (.inl (beq_iff_eq.mpr isKind)) built rfl]
    exact leaves_name kind place t
  · rename_i isKind
    have kept := Tree.openEvalCalls_kept .pattern regular isKind rfl rfl (by decide)
    rw [List.flatMap_singleton,
      Tree.openEvalCalls_series (regular.series "properties" (by decide)) rfl] at kept
    exact Leaves.perm (.flatMap fun property held =>
      leaves_property kind ((built.get rfl).item held)) kept.symm
  · rename_i isKind
    have kept := Tree.openEvalCalls_kept .pattern regular isKind rfl rfl (by decide)
    rw [List.flatMap_singleton] at kept
    exact (leaves_patterns built rfl (regular.series "elements" (by decide)) kind place).perm
      kept.symm
  · rename_i isKind
    have kept := Tree.openEvalCalls_kept .pattern regular isKind rfl rfl (by decide)
    rw [List.flatMap_singleton] at kept
    exact (leaves_pattern (built.get rfl) kind place).perm kept.symm
  · rename_i isKind
    have kept := Tree.openEvalCalls_kept .pattern regular isKind rfl rfl (by decide)
    refine ((leaves_pattern (built.get rfl) kind place).append
      (leaves_visit (built.get rfl) place)).perm (.trans (.of_eq ?_) kept.symm)
    simp [Role.within, Role.binds]
  · -- Nothing else is a pattern.
    rw [Tree.openEvalCalls_stray isNode ?_]
    · exact .nil
    · simp_all [Role.admits, Role.patterns]

end Rules

/-- One step of the walk: a task notes some of its calls and leaves tasks for the others. -/
theorem meets_expand (j : Journal) {task : Task Place} (built : task.Built) :
    Meets j (expand j task) task.evalCalls := by
  -- One case for each kind of task, and in it one for each shape of tree.
  cases task with
  | visit place t =>
    cases t with
    | list items =>
      refine meets_pass rfl ?_
      rw [evalCalls, Tree.openEvalCalls_series rfl rfl]
      show Leaves (items.map (.visit place)) _
      rw [List.map_eq_flatMap]
      exact .flatMap fun item held => leaves_visit (Tree.Built.item built held) place
    | node kind mark fields => exact meets_node built rfl
    | _ => exact meets_pass rfl .nil
  | pattern kind place t =>
    cases t with
    | node node mark fields =>
      exact meets_pass rfl (leaves_ofPattern kind built rfl)
    | _ => exact meets_pass rfl .nil
  | name kind place t =>
    refine meets_pass ?_ .nil
    show (if t.isIdentifier then _ else j).evalCalls = _
    split <;> rfl
  | handler place t =>
    cases t with
    | node kind mark fields => exact meets_pass rfl (leaves_handler built.2 built.1)
    | _ => cases built.1
  | classBody place ownName t =>
    cases t with
    | node kind mark fields =>
      have own : Leaves (if ownName then
          [.name .className (place.inside .classBody j.next)
            ((Tree.node kind mark fields).get "id")] else []) [] := by
        split
        · exact leaves_name _ _ _
        · exact .nil
      have body : ((Tree.node kind mark fields).get "body").Built := Tree.Built.get built rfl
      have all := (leaves_visit body (place.inside .classBody j.next)).append own
      rw [List.append_nil] at all
      exact meets_pass rfl all
    | _ => exact meets_pass rfl .nil

/-- The whole walk: a task notes all its calls, each once. -/
theorem evalCalls_run {task : Task Place} (built : task.Built) (j : Journal) :
    ∃ noted, (task.run j).evalCalls = j.evalCalls ++ noted ∧ noted ~ task.evalCalls := by
  induction task using Task.induction generalizing j with
  | step task ih =>
    obtain ⟨noted, left, grows, leaves, same⟩ := meets_expand j built
    -- The tasks that are left note their calls one after the other, each on the record before it.
    have rest (tasks : List (Task Place)) (left : tasks ⊆ (expand j task).2) (j' : Journal) :
        ∃ noted, (tasks.foldl (fun j task => task.run j) j').evalCalls = j'.evalCalls ++ noted ∧
          noted ~ tasks.flatMap evalCalls := by
      induction tasks generalizing j' with
      | nil => exact ⟨[], (List.append_nil _).symm, .refl _⟩
      | cons first tasks later =>
        obtain ⟨member, others⟩ := List.cons_subset.mp left
        obtain ⟨here, grows, same⟩ := ih j first member (leaves.built first member) j'
        obtain ⟨more, grown, alike⟩ := later others (first.run j')
        refine ⟨here ++ more, ?_, same.append alike⟩
        rw [List.foldl_cons, grown, grows, List.append_assoc]
    obtain ⟨more, grown, alike⟩ := rest _ (fun _ member => member) (expand j task).1
    refine ⟨noted ++ more, ?_, (alike.trans leaves.same).append_left noted |>.trans same⟩
    rw [run_eq, grown, grows, List.append_assoc]

end Task

/-- An analysis notes the direct calls of `eval`, each once and with the spot of its callee, apart
from those that lie in something that stands where names are bound and is no pattern. There are no
such calls if names are bound by patterns everywhere. -/
theorem evalCalls_analyze {t : Tree} (grammatical : ∀ part ∈ t.parts, part.Grammatical) :
    (analyze t).evalCalls ++ t.hiddenEvalCalls ~ t.evalCalls ∧
      ((∀ part ∈ t.parts, part.BindsPatterns) → t.hiddenEvalCalls = []) := by
  -- The calls noted are those of the one task that the analysis sets out with.
  have built : (Task.visit { scope := 0, hoist := 0 } t).Built := grammatical
  obtain ⟨noted, grows, same⟩ := Task.evalCalls_run built
    { scopes := [{ kind := .global, node := t, parent := none }] }
  have found : (analyze t).evalCalls = noted := by
    rw [analyze_eq]
    exact grows
  refine ⟨?_, fun patterns => ?_⟩
  · rw [found]
    exact (same.append_right _).trans t.openEvalCalls_append_hidden
  · rw [Tree.hiddenEvalCalls, Tree.strays_eq_nil grammatical patterns]
    rfl

/-- Calls in initializers, defaults, computed keys, class heritage, bodies and arguments are all
noted. -/
theorem evalCalls_analyze_everywhere :
    let source : Text := "var a = eval('1');" ++
      "function f(b = eval('2'), \x7b [eval('3')]: c = eval('4') \x7d) \x7b\x7d" ++
      "class K extends eval('5') \x7b m() \x7b eval(eval('6')); \x7d \x7d" ++
      "try \x7b\x7d catch (e) \x7b eval('7'); \x7d"
    ∃ program, Reader.strict .module source = .ok program ∧
      (∀ part ∈ program.parts, part.Grammatical) ∧
      (∀ part ∈ program.parts, part.BindsPatterns) ∧
      program.evalCalls.length = 8 ∧ (analyze program).evalCalls ~ program.evalCalls := by
  intro source
  -- The text is read once, for all that has to be known of the program.
  have read := @exists_of_read source (fun program =>
    (∀ part ∈ program.parts, part.Grammatical) ∧ (∀ part ∈ program.parts, part.BindsPatterns) ∧
    program.evalCalls.length = 8) inferInstance (by decide +kernel)
  obtain ⟨program, known, grammatical, patterns, calls⟩ := read
  obtain ⟨noted, none⟩ := evalCalls_analyze grammatical
  rw [none patterns, List.append_nil] at noted
  exact ⟨program, known, grammatical, patterns, calls, noted⟩

/-- A call in place of a parameter is passed over. -/
theorem evalCall_missed_in_parameter :
    ∃ program, Reader.strict .module "async (eval('x')) => 0;" = .ok program ∧
      (∀ part ∈ program.parts, part.Grammatical) ∧ program.evalCalls.length = 1 ∧
      (analyze program).evalCalls = [] := by
  exact exists_of_read (by decide +kernel)

end Scope

end ModuleLift
