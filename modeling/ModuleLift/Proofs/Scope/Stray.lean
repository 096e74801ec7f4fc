import ModuleLift.Proofs.Scope.Grammatical

/-! What stands in the place of a pattern and is none: an analysis neither binds names in it nor
walks it. The nodes of a program are laid out here with what is expected of each where it stands, as
far as the binding of names goes. -/

namespace ModuleLift

open scoped List

/-- What is expected of a value where it stands. -/
inductive Role where
  /-- Anything. -/
  | free
  /-- A pattern that binds names. -/
  | pattern
  /-- A property of an object pattern, or a pattern for what is left over. -/
  | property
  /-- A declarator of a declaration. -/
  | declarator
  /-- Several values with a role. -/
  | series (each : Role)
deriving DecidableEq, Repr

namespace Role

/-- The role of the elements of a list, where a list can stand. -/
def each? : Role → Option Role
  | .free => some .free
  | .series each => some each
  | _ => none

/-- Whether patterns are expected. -/
def binds (role : Role) : Bool := role = .pattern || role = .property

/-- The kinds of patterns. -/
def patterns : List (Option String) :=
  [some "Identifier", some "ObjectPattern", some "ArrayPattern", some "RestElement",
    some "AssignmentPattern"]

/-- Whether a node of a kind is what is expected. -/
def admits (role : Role) (kind : Option String) : Bool :=
  match role with
  | .free => true
  | .pattern => patterns.contains kind
  | .property => kind == some "Property" || patterns.contains kind
  | .declarator => kind == some "VariableDeclarator"
  | .series _ => false

/-- What a node of a kind, itself in a role, expects in its fields. -/
def within (role : Role) (kind : Option String) (key : String) : Role :=
  match kind with
  | some "VariableDeclaration" => if key = "declarations" then .series .declarator else .free
  -- A declarator that stands elsewhere declares nothing.
  | some "VariableDeclarator" => if key = "id" ∧ role = .declarator then .pattern else .free
  | some "CatchClause" => if key = "param" then .pattern else .free
  -- Patterns also stand in assignments, where they bind no names.
  | some "ObjectPattern" => if key = "properties" ∧ role.binds then .series .property else .free
  | some "Property" => if key = "value" ∧ role = .property then .pattern else .free
  | some "ArrayPattern" => if key = "elements" ∧ role.binds then .series .pattern else .free
  | some "RestElement" => if key = "argument" ∧ role.binds then .pattern else .free
  | some "AssignmentPattern" => if key = "left" ∧ role.binds then .pattern else .free
  | kind => if Tree.isFunctionKind kind ∧ key = "params" then .series .pattern else .free

end Role

namespace Tree

mutual

/-- The nodes of a value with their roles, outer ones first. What is not as expected is not
entered. -/
def posts (role : Role) : Tree → List (Role × Tree)
  | .list items =>
    match role.each? with
    | some each => postsAll each items
    | none => [(role, .list items)]
  | .node kind mark fields =>
    (role, .node kind mark fields) ::
      if role.admits kind then postsFields role kind fields else []
  | _ => []

/-- The nodes of the elements of a list. -/
def postsAll (role : Role) : List Tree → List (Role × Tree)
  | [] => []
  | t :: rest => posts role t ++ postsAll role rest

/-- The nodes that the fields of a node hold, notes apart. -/
def postsFields (role : Role) (kind : Option String) : List (String × Tree) → List (Role × Tree)
  | [] => []
  | (key, value) :: rest =>
    (if isNoteKey key then [] else posts (role.within kind key) value) ++
      postsFields role kind rest

end

section Posts

variable {t : Tree} {role each : Role}

/-- The posts of some elements are those of each. -/
theorem postsAll_eq (role : Role) (items : List Tree) :
    postsAll role items = items.flatMap (posts role) := by
  -- Induction over the elements.
  induction items with
  | nil => rfl
  | cons t rest ih => rw [postsAll, List.flatMap_cons, ih]

/-- The nodes that come from one field. -/
def fieldPosts (role : Role) (kind : Option String) (key : String) (value : Tree) :
    List (Role × Tree) :=
  if isNoteKey key then [] else value.posts (role.within kind key)

/-- The posts of some fields are those of each. -/
theorem postsFields_eq (role : Role) (kind : Option String) (fields : List (String × Tree)) :
    postsFields role kind fields =
      fields.flatMap fun field => fieldPosts role kind field.1 field.2 := by
  -- Induction over the fields.
  induction fields with
  | nil => rfl
  | cons field rest ih =>
    obtain ⟨key, value⟩ := field
    rw [postsFields, List.flatMap_cons, ih, fieldPosts]

/-- The posts of a list are those of its elements. -/
theorem posts_list (expected : role.each? = some each) (items : List Tree) :
    (list items).posts role = items.flatMap (posts each) := by
  -- The role of the list says which one the elements have.
  rw [posts, expected]
  exact postsAll_eq each items

/-- A node as expected is a post, and so is what its fields hold. -/
theorem posts_node (isNode : t.isNode) (admitted : role.admits t.kind?) :
    t.posts role =
      (role, t) :: t.fields.flatMap fun field => fieldPosts role t.kind? field.1 field.2 := by
  -- The branch of the definition for a node that is admitted.
  cases t with
  | node kind mark fields =>
    have entered : role.admits kind := admitted
    rw [posts, if_pos entered, postsFields_eq]
    rfl
  | _ => cases isNode

/-- What is not as expected stands for itself. -/
theorem posts_stray (isNode : t.isNode) (unexpected : role.admits t.kind? = false) :
    t.posts role = [(role, t)] := by
  -- The branch of the definition for a node that is not admitted.
  cases t with
  | node kind mark fields =>
    have passed : role.admits kind = false := unexpected
    rw [posts, passed]
    rfl
  | _ => cases isNode

/-- Every part of a value is laid out, or lies in something that is not as expected. -/
theorem parts_eq (role : Role) (t : Tree) : t.parts =
    (t.posts role).flatMap fun post =>
      if post.1.admits post.2.kind? then [post.2] else post.2.parts := by
  -- The roles change on the way down, so the induction is for all of them at once.
  induction t using Tree.induction generalizing role with
  | list items ih =>
    cases expected : role.each? with
    | some each =>
      rw [posts_list expected, parts_list, List.flatMap_assoc]
      exact List.flatMap_congr fun item held => ih item held each
    | none =>
      -- A list in the place of a pattern is passed over as a whole.
      have unexpected : role.admits (list items).kind? = false := by
        cases role with
        | free => cases expected
        | _ => rfl
      rw [posts, expected, List.flatMap_singleton, if_neg (by simp [unexpected])]
  | node kind mark fields ih =>
    cases admitted : role.admits kind with
    | true =>
      rw [posts_node rfl admitted, List.flatMap_cons, if_pos (by simpa [kind?] using admitted),
        parts_node, List.flatMap_assoc]
      refine congrArg _ (List.flatMap_congr fun field held => ?_)
      rw [fieldParts, fieldPosts]
      split
      · rfl
      · exact ih field held _
    | false =>
      rw [posts_stray rfl admitted, List.flatMap_singleton, if_neg (by simp [kind?, admitted])]
  | _ => rfl

/-- What stands in the place of a pattern anywhere in a value and is none, outermost. -/
def strays (t : Tree) : List Tree :=
  (t.posts .free).flatMap fun post => if post.1.admits post.2.kind? then [] else [post.2]

end Posts

section Patterns

variable {t : Tree} {role : Role}

/-- Whether a value is what is expected, as far as the binding of names goes. -/
def Fills (t : Tree) : Role → Prop
  | .free => True
  | .pattern => t.isBindingPattern
  | .property =>
    if t.isA "Property" then (t.get "value").isBindingPattern else t.isBindingPattern
  | .declarator => t.isA "VariableDeclarator"
  | .series each => t.isSeries ∧ ∀ item ∈ t.items, item.Fills each

/-- A pattern that is a node is of one of the kinds of patterns. -/
theorem mem_patterns (isPattern : t.isBindingPattern) (isNode : t.isNode) :
    Role.patterns.contains t.kind? := by
  -- One case for each kind; without a kind it would have to be missing.
  rw [isBindingPattern_eq] at isPattern
  split at isPattern
  any_goals rename_i isKind; rw [isKind]; rfl
  cases t with
  | node => cases isPattern
  | _ => cases isNode

/-- A node that fills a role is admitted to it. -/
theorem admits_of_fills (fills : t.Fills role) (isNode : t.isNode) : role.admits t.kind? := by
  -- One case for each role.
  cases role with
  | free => rfl
  | pattern => exact mem_patterns fills isNode
  | property =>
    rw [Role.admits, Bool.or_eq_true]
    rw [Fills] at fills
    split at fills
    · exact .inl ‹_›
    · exact .inr (mem_patterns fills isNode)
  | declarator => exact fills
  | series each =>
    cases t with
    | node => cases fills.1
    | _ => cases isNode

/-- Where patterns are expected and no property is found, there is a pattern. -/
theorem isBindingPattern_of_fills (fills : t.Fills role) (binds : role.binds)
    (other : t.isA "Property" = false) : t.isBindingPattern := by
  -- Two roles expect patterns, and one of them lets properties in.
  cases role with
  | pattern => exact fills
  | property =>
    rw [Fills, if_neg (by simp [other])] at fills
    exact fills
  | _ => cases binds

/-- A node that is what is expected and binds names by patterns holds what it expects. -/
theorem fills_get (regular : t.Grammatical) (patterns : t.BindsPatterns) (fills : t.Fills role)
    (key : String) : (t.get key).Fills (role.within t.kind? key) := by
  have inner {kind : String} (isKind : t.kind? = some kind) (other : kind ≠ "Property")
      (binds : role.binds) : t.isBindingPattern :=
    isBindingPattern_of_fills fills binds (isA_eq_false (beq_iff_eq.mpr isKind) other)
  have series {key : String} {each : Role}
      (listed : key ∈ ["declarations", "specifiers", "params", "properties", "elements"])
      (all : ∀ item ∈ (t.get key).items, item.Fills each) : (t.get key).Fills (.series each) :=
    ⟨regular.series key listed, all⟩
  unfold Role.within
  -- One case for each field in which something is expected; in all others anything can stand.
  split
  all_goals split
  any_goals exact trivial
  · rename_i isKind isKey
    subst isKey
    exact series (by decide) (regular.declared (beq_iff_eq.mpr isKind))
  · rename_i isKind expected
    rw [expected.1]
    exact patterns _ (by rw [targets, isKind]; exact List.mem_singleton_self _)
  · rename_i isKind isKey
    subst isKey
    exact patterns _ (by rw [targets, isKind]; exact List.mem_singleton_self _)
  · rename_i isKind expected
    have isPattern := inner isKind (by decide) expected.2
    rw [isBindingPattern_eq, isKind] at isPattern
    rw [expected.1]
    refine series (by decide) fun property held => ?_
    have part := List.all_eq_true.mp isPattern property held
    rw [Fills]
    split at part <;> rename_i isProperty
    · rwa [if_pos isProperty]
    · rwa [if_neg isProperty]
  · rename_i isKind expected
    obtain ⟨rfl, rfl⟩ := expected
    have isProperty : t.isA "Property" := beq_iff_eq.mpr isKind
    rwa [Fills, if_pos isProperty] at fills
  · rename_i isKind expected
    have isPattern := inner isKind (by decide) expected.2
    rw [isBindingPattern_eq, isKind] at isPattern
    rw [expected.1]
    exact series (by decide) fun element held => List.all_eq_true.mp isPattern element held
  · rename_i isKind expected
    have isPattern := inner isKind (by decide) expected.2
    rw [isBindingPattern_eq, isKind] at isPattern
    rw [expected.1]
    exact isPattern
  · rename_i isKind expected
    have isPattern := inner isKind (by decide) expected.2
    rw [isBindingPattern_eq, isKind] at isPattern
    rw [expected.1]
    exact isPattern
  · rename_i expected
    obtain ⟨isFunction, rfl⟩ := expected
    rw [BindsPatterns, targets_function isFunction] at patterns
    exact series (by decide) patterns

/-- Where names are bound by patterns, all is as expected. -/
theorem admits_of_patterns (regular : ∀ part ∈ t.parts, part.Grammatical)
    (patterns : ∀ part ∈ t.parts, part.BindsPatterns) (fills : t.Fills role) :
    ∀ post ∈ t.posts role, post.1.admits post.2.kind? := by
  -- What fills its role is entered, and what it holds fills the roles within.
  induction t using Tree.induction generalizing role with
  | list items ih =>
    have elements {each : Role} (expected : role.each? = some each)
        (all : ∀ item ∈ items, item.Fills each) :
        ∀ post ∈ (list items).posts role, post.1.admits post.2.kind? := by
      intro post among
      rw [posts_list expected] at among
      obtain ⟨item, held, among⟩ := List.mem_flatMap.mp among
      have inside := (parts_sublist_of_item held).subset
      exact ih item held (fun part below => regular part (inside below))
        (fun part below => patterns part (inside below)) (all item held) post among
    cases role with
    | free => exact elements rfl fun _ _ => trivial
    | series each => exact elements rfl fills.2
    -- A list is no pattern, no property and no declarator.
    | pattern =>
      rw [Fills, isBindingPattern_eq] at fills
      cases fills
    | property =>
      have isPattern := isBindingPattern_of_fills fills rfl rfl
      rw [isBindingPattern_eq] at isPattern
      cases isPattern
    | declarator => cases fills
  | node kind mark fields ih =>
    have here := @mem_parts_self (.node kind mark fields) rfl
    intro post among
    have admitted := admits_of_fills fills rfl
    rw [posts_node rfl admitted] at among
    rcases List.mem_cons.mp among with rfl | below
    · exact admitted
    · obtain ⟨field, held, among⟩ := List.mem_flatMap.mp below
      rw [fieldPosts] at among
      split at among
      · cases among
      · rename_i walked
        have inside := (@parts_sublist_of_field kind mark _ _ held (by simpa using walked)).subset
        -- The names of the fields differ, so each field is the one found by its name.
        have value : (Tree.node kind mark fields).get field.1 = field.2 := by
          rw [get, lookup_of_mem (regular _ here).names held]
          rfl
        have filled := fills_get (regular _ here) (patterns _ here) fills field.1
        rw [value] at filled
        exact ih field held (fun part below => regular part (inside below))
          (fun part below => patterns part (inside below)) filled post among
  | _ => exact fun post among => (List.not_mem_nil among).elim

/-- Where names are bound by patterns, nothing stands astray. -/
theorem strays_eq_nil (regular : ∀ part ∈ t.parts, part.Grammatical)
    (patterns : ∀ part ∈ t.parts, part.BindsPatterns) : t.strays = [] := by
  -- Every post is admitted.
  refine List.flatMap_eq_nil_iff.mpr fun post among => if_pos ?_
  exact @admits_of_patterns t .free regular patterns trivial post among

end Patterns

end Tree

end ModuleLift
