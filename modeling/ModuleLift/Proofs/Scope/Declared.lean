import ModuleLift.Proofs.Lift.Binding
import ModuleLift.Proofs.Lift.Recognition
import ModuleLift.Proofs.Scope.Reach

/-! What a top-level statement declares at the module level, each name as often as it is
declared. -/

namespace ModuleLift.Tree

open scoped List

section Patterns

variable {t : Tree}

/-- A pattern in braces binds what its properties bind. -/
theorem patternNames_object (isPattern : t.isA "ObjectPattern") :
    t.patternNames = (t.get "properties").items.flatMap fun property =>
      if property.isA "Property" then (property.get "value").patternNames
      else property.patternNames := by
  -- The branch of the definition for this kind.
  rw [patternNames]
  split <;> simp_all [isA]

/-- A pattern in brackets binds what its elements bind. -/
theorem patternNames_array (isPattern : t.isA "ArrayPattern") :
    t.patternNames = (t.get "elements").items.flatMap patternNames := by
  -- The branch of the definition for this kind.
  rw [patternNames]
  split <;> simp_all [isA]

/-- A flat pattern binds its local names. -/
theorem patternNames_flat {pairs : List (Text × Text)} (isPattern : t.isA "ObjectPattern")
    (found : patternPairs? t = some pairs) : t.patternNames = pairs.map (·.2) := by
  -- Each property of a flat pattern holds a name, which is the local one of its pair.
  rw [patternNames_object isPattern]
  refine flatMap_of_mapM (fun property pair here => ?_) found
  obtain ⟨isProperty, _, name, bound⟩ := of_patternPair? here
  rw [if_pos isProperty, patternNames_name name, bound]

/-- The names a pattern binds are told by its skeleton. -/
@[simp] theorem patternNames_skeleton (t : Tree) : t.skeleton.patternNames = t.patternNames := by
  -- One case for each kind of pattern. What is left out of a skeleton holds no names.
  fun_induction patternNames t with
  | case1 t isKind => rw [patternNames_name (by simp [isIdentifier, isA, isKind]), name_skeleton]
  | case2 t isKind value whole =>
    rw [patternNames_object (by simp [isA, isKind]), get_skeleton, items_skeleton,
      List.flatMap_map]
    simp only [List.flatMap_subtype, List.unattach_attach]
    refine List.flatMap_congr fun property held => ?_
    rw [isA_skeleton]
    split
    · rw [get_skeleton, value property held]
    · exact whole property held
  | case3 t isKind each =>
    rw [patternNames_array (by simp [isA, isKind]), get_skeleton, items_skeleton,
      List.flatMap_map]
    simp only [List.flatMap_subtype, List.unattach_attach]
    exact List.flatMap_congr each
  | case4 t isKind argument =>
    rw [patternNames]
    split <;> simp_all
  | case5 t isKind target =>
    rw [patternNames]
    split <;> simp_all
  | case6 t noName noObject noArray noRest noAssignment =>
    rw [patternNames]
    split <;> simp_all

end Patterns

section Skeleton

variable (t : Tree)

/-- The names of the declarators are told by the skeleton. -/
@[simp] theorem declaratorNames_skeleton : t.skeleton.declaratorNames = t.declaratorNames := by
  simp [declaratorNames, List.flatMap_map]

/-- The word of a declaration is told by the skeleton. -/
@[simp] theorem isLexical_skeleton : t.skeleton.isLexical = t.isLexical := by
  simp [isLexical]

/-- The name of a function or a class is told by the skeleton. -/
@[simp] theorem idNames_skeleton : t.skeleton.idNames = t.idNames := by
  simp [idNames]

/-- The local names of an import are told by the skeleton. -/
@[simp] theorem localNames_skeleton : t.skeleton.localNames = t.localNames := by
  simp [localNames, List.filter_map, Function.comp_def]

/-- The names of a `var` are told by the skeleton. -/
@[simp] theorem ownVars_skeleton : t.skeleton.ownVars = t.ownVars := by
  simp [ownVars]

/-- The names of functions are told by the skeleton. -/
@[simp] theorem ownFunctions_skeleton : t.skeleton.ownFunctions = t.ownFunctions := by
  simp [ownFunctions]

/-- The names of lexical declarations are told by the skeleton. -/
@[simp] theorem ownLexicals_skeleton : t.skeleton.ownLexicals = t.ownLexicals := by
  simp [ownLexicals]

/-- The outer nodes of a skeleton are the skeletons of the outer nodes. -/
theorem outer_skeleton (stops : Option String → Bool) :
    t.skeleton.outer stops = (t.outer stops).map skeleton := by
  induction t using Tree.induction with
  | list items ih =>
    rw [skeleton_list, outer, outer, outerAll_eq, outerAll_eq, List.flatMap_map, List.map_flatMap]
    exact List.flatMap_congr ih
  | node kind mark fields ih =>
    rw [skeleton_node, outer, outer, List.map_cons, skeleton_node]
    refine congrArg _ ?_
    -- Whether a node is entered is told by its kind, which the skeleton keeps.
    cases stops kind with
    | true => rfl
    | false =>
      simp only [Bool.false_eq_true, if_false, outerFields_eq, List.flatMap_map, List.map_flatMap]
      refine List.flatMap_congr fun field held => ?_
      rw [skeletonField]
      split
      · rfl
      · exact ih field held
  | _ => rfl

/-- The names of every `var` inside are told by the skeleton. -/
@[simp] theorem varNames_skeleton : t.skeleton.varNames = t.varNames := by
  simp [varNames, outer_skeleton, List.flatMap_map]

/-- The declaration in an export is told by the skeleton. -/
theorem unexported_skeleton : t.skeleton.unexported = t.unexported.skeleton := by
  -- The kind tells which field it is in.
  simp only [unexported, isA_skeleton, get_skeleton]
  split <;> rfl

end Skeleton

section Declared

/-- The names that a top-level statement declares in its module. -/
def declaredNames (t : Tree) : List Text :=
  t.varNames ++ (t.unexported.ownLexicals ++ t.unexported.ownFunctions)

/-- What a body declares is what its statements declare. -/
theorem bodyNames_perm (statements : List Tree) :
    bodyNames statements ~ statements.flatMap declaredNames :=
  List.flatMap_append_perm ..

/-- What a statement declares is told by its skeleton. -/
theorem declaredNames_skeleton (t : Tree) : t.skeleton.declaredNames = t.declaredNames := by
  simp [declaredNames, unexported_skeleton]

/-- Comments do not change what a statement declares. -/
theorem declaredNames_annotate (marker : Text) (nested : Bool) (t : Tree) :
    (t.annotate marker nested).1.declaredNames = t.declaredNames := by
  rw [← declaredNames_skeleton, skeleton_annotate, declaredNames_skeleton]

/-- Marks do not change what a statement declares. -/
@[simp] theorem declaredNames_mapMark (t : Tree) (change : Mark → Mark) :
    (t.mapMark change).declaredNames = t.declaredNames := by
  -- A node with a kind keeps its skeleton; one without declares nothing.
  cases t with
  | node kind mark fields =>
    cases kind with
    | some name => rw [← declaredNames_skeleton, skeleton_mapMark rfl, declaredNames_skeleton]
    | none => rfl
  | _ => rfl

end Declared

section Variables

variable {t : Tree}

/-- A single value holds no declarations. -/
theorem varNames_value (value : t.isNode = false) (single : t.items = []) : t.varNames = [] := by
  -- Only nodes and lists hold anything.
  cases t with
  | node kind mark fields => cases value
  | list items => rw [varNames, outer, show items = [] from single]; rfl
  | _ => rfl

/-- Nothing holds no declarations. -/
@[simp] theorem varNames_null : null.varNames = [] := rfl

/-- A text holds no declarations. -/
@[simp] theorem varNames_text (value : Text) : (text value).varNames = [] := rfl

/-- A list holds the declarations of its elements. -/
theorem varNames_list (items : List Tree) : (list items).varNames = items.flatMap varNames := by
  -- The nodes outside of functions are those of the elements.
  rw [varNames, outer, outerAll_eq, List.flatMap_assoc]
  rfl

/-- A list that may be missing holds the declarations of its elements. -/
theorem varNames_series (series : t.isSeries) : t.varNames = t.items.flatMap varNames := by
  -- What is missing holds nothing and has no elements.
  cases t with
  | list items => exact varNames_list items
  | null => rfl
  | _ => cases series

/-- What a field of a node holds of declarations. -/
def fieldVars (key : String) (value : Tree) : List Text :=
  if isNoteKey key then [] else value.varNames

/-- A node that is no function holds its own declarations and those of its fields. -/
theorem varNames_node (isNode : t.isNode) (entered : isFunctionKind t.kind? = false) :
    t.varNames = t.ownVars ++ t.fields.flatMap fun field => fieldVars field.1 field.2 := by
  -- The search for declarations goes on below the node, for it is no function.
  cases t with
  | node kind mark fields =>
    rw [varNames, outer, List.flatMap_cons, show isFunctionKind kind = false from entered,
      if_neg Bool.false_ne_true, outerFields_eq, List.flatMap_assoc]
    refine congrArg _ (List.flatMap_congr fun field _ => ?_)
    rw [fieldVars]
    split <;> rfl
  | _ => cases isNode

/-- Only a variable declaration declares variables by itself. -/
theorem ownVars_of_isA {kind : String} (isA : t.isA kind) (other : kind ≠ "VariableDeclaration") :
    t.ownVars = [] := by
  -- The definition tests the kind first.
  rw [ownVars, isA_eq_false isA other]
  rfl

/-- A node that is put in, and is no declaration, holds the declarations of its fields. -/
theorem varNames_synthetic {kind : String} (entered : isFunctionKind (some kind) = false)
    (other : kind ≠ "VariableDeclaration") (fields : List (String × Tree)) :
    (synthetic kind fields).varNames = fields.flatMap fun field => fieldVars field.1 field.2 := by
  -- The case of a node whose own share is empty.
  rw [@varNames_node (synthetic kind fields) rfl entered, ownVars_of_isA (beq_self_eq_true _) other]
  rfl

/-- A new name holds no declarations. -/
@[simp] theorem varNames_identifier (name : Text) : (identifier name).varNames = [] := rfl

/-- Data hold no declarations. -/
theorem varNames_datum (datum : t.isDatum) : t.varNames = [] := by
  cases t with
  | list items => cases datum
  | node kind mark fields =>
    rw [isDatum, Bool.and_eq_true, List.all_eq_true] at datum
    -- A datum is a node without a kind that holds values only.
    obtain ⟨kindless, single⟩ := datum
    have none : kind = none := by simpa using kindless
    subst none
    rw [varNames_node rfl rfl]
    refine List.flatMap_eq_nil_iff.mpr fun field held => ?_
    have value := single field held
    rw [Bool.and_eq_true] at value
    rw [fieldVars, varNames_value (by simpa using value.1) (by simpa using value.2), ite_self]
  | _ => rfl

/-- What the fields of a node give, name by name, if only those with some names give anything. -/
theorem flatMap_fields_perm {β : Type} {fields : List (String × Tree)} {keys : List String}
    {give : String → Tree → List β} (names : (fields.map (·.1)).Nodup) (distinct : keys.Nodup)
    (others : ∀ field ∈ fields, field.1 ∉ keys → give field.1 field.2 = [])
    (absent : ∀ key, give key null = []) :
    fields.flatMap (fun field => give field.1 field.2) ~
      keys.flatMap fun key => give key ((fields.lookup key).getD null) := by
  induction fields generalizing keys with
  | nil => simp [absent]
  | cons field rest ih =>
    obtain ⟨name, value⟩ := field
    rw [List.map_cons, List.nodup_cons] at names
    -- Other names are looked up among the other fields.
    have elsewhere {keys : List String} (missing : name ∉ keys) :
        (keys.flatMap fun key => give key (((⟨name, value⟩ :: rest).lookup key).getD null)) =
          keys.flatMap fun key => give key ((rest.lookup key).getD null) :=
      List.flatMap_congr fun key held => by
        have other : (key == name) = false :=
          beq_false_of_ne fun same : key = name => missing (same ▸ held)
        rw [List.lookup_cons, other]
    rw [List.flatMap_cons]
    by_cases known : name ∈ keys
    · have missing : name ∉ keys.erase name := distinct.not_mem_erase
      have later := ih names.2 (distinct.erase name) fun field held unknown =>
        others field (List.mem_cons_of_mem _ held) fun listed => by
          have other : field.1 ≠ name := fun same =>
            names.1 (List.mem_map.mpr ⟨field, held, same⟩)
          exact unknown ((List.mem_erase_of_ne other).mpr listed)
      refine .trans ?_ ((List.perm_cons_erase known).symm.flatMap_right _)
      rw [List.flatMap_cons, elsewhere missing, List.lookup_cons_self]
      exact later.append_left _
    · rw [others _ List.mem_cons_self known, List.nil_append, elsewhere known]
      exact ih names.2 distinct fun field held => others field (List.mem_cons_of_mem _ held)

/-- A node of a kind that lifting takes apart holds the declarations of its parts. -/
theorem varNames_held (regular : t.Regular) {kind : String} (isA : t.isA kind)
    {keys : List String} (known : heldIn? (some kind) = some keys) :
    t.varNames ~ t.ownVars ++ keys.flatMap fun key => (t.get key).varNames := by
  have same : t.kind? = some kind := beq_iff_eq.mp isA
  have entered : isFunctionKind t.kind? = false := by
    rw [same]
    unfold heldIn? at known
    split at known
    all_goals first | rename_i row; cases row; rfl | cases known
  have noted (key : String) (held : key ∈ keys) : isNoteKey key = false :=
    (nodup_of_heldIn known).2 key held
  rw [varNames_node (Scope.Task.isNode_of_isA isA) entered]
  refine .append_left _ ((flatMap_fields_perm regular.names (nodup_of_heldIn known).1
    (fun field held unknown => ?_) fun key => ?_).trans (.of_eq ?_))
  · -- Neither a note nor a datum holds any.
    rw [fieldVars]
    rcases regular.held keys (by rw [same]; exact known) field held with row | note | datum
    · exact absurd row unknown
    · split
      · rfl
      · rename_i walked
        simp [Scope.Task.isNote_of_isNoteKey (by simpa using walked)] at note
    · rw [varNames_datum datum, ite_self]
  · rw [fieldVars, varNames_null, ite_self]
  · refine List.flatMap_congr fun key held => ?_
    rw [fieldVars, noted key held]
    rfl

/-- A name or a literal holds none. -/
theorem varNames_atom (regular : t.Regular) {kind : String} (isA : t.isA kind)
    (known : heldIn? (some kind) = some []) (other : kind ≠ "VariableDeclaration") :
    t.varNames = [] := by
  -- The table says that nothing is held in the fields of such a node.
  have held := varNames_held regular isA known
  rw [ownVars_of_isA isA other] at held
  exact held.eq_nil

/-- A string literal holds none. -/
theorem varNames_stringLiteral (orderly : t.Orderly) (literal : t.stringValue?.isSome) :
    t.varNames = [] := by
  -- Only nodes of the kind of literals have a string value.
  have isLiteral : t.isA "Literal" := by
    rw [stringValue?] at literal
    split at literal
    · exact (Bool.and_eq_true_iff.mp ‹_›).1
    · cases literal
  exact varNames_atom (orderly.self isLiteral) isLiteral rfl (by decide)

/-- A name holds no declarations. -/
theorem varNames_name (orderly : t.Orderly) (isName : t.isIdentifier) : t.varNames = [] :=
  varNames_atom (orderly.self isName) isName rfl (by decide)

/-- A call holds the declarations of what is called and of what it is given. -/
theorem varNames_call (orderly : t.Orderly) (isCall : t.isA "CallExpression") :
    t.varNames ~ (t.get "callee").varNames ++ (t.get "arguments").items.flatMap varNames := by
  -- These are the two fields of the table for calls.
  have held := varNames_held (orderly.self isCall) isCall rfl
  rw [ownVars_of_isA isCall (by decide)] at held
  simpa [varNames_series (orderly.self isCall).given] using held

/-- A call of `require` with a string literal holds none. -/
theorem varNames_requires (orderly : t.Orderly) {target : Tree} (call : Loader.Requires t target)
    (literal : target.stringValue?.isSome) : t.varNames = [] := by
  -- The callee is a name, and the only argument is a literal.
  have name := (Bool.and_eq_true_iff.mp call.callee).1
  have held : target ∈ (t.get "arguments").items := by simp [call.single]
  have parts := varNames_call orderly call.isCall
  rw [varNames_name (orderly.get rfl) name, call.single, List.flatMap_singleton,
    varNames_stringLiteral (orderly.item rfl held) literal] at parts
  exact parts.eq_nil

end Variables

section Statements

variable {t : Tree}

/-- What lies in a field of a node without declarations has none. -/
theorem varNames_get_eq_nil {kind key : String} (none : t.varNames = []) (isA : t.isA kind)
    (entered : isFunctionKind (some kind) = false) (walked : isNoteKey key = false) :
    (t.get key).varNames = [] := by
  -- The field is absent, or it is one of those that add up to nothing.
  rw [varNames_node (Scope.Task.isNode_of_isA isA) (by rwa [beq_iff_eq.mp isA]),
    List.append_eq_nil_iff] at none
  rcases t.get_eq_null_or_mem key with absent | held
  · rw [absent, varNames_null]
  · have value := List.flatMap_eq_nil_iff.mp none.2 _ held
    rwa [fieldVars, walked] at value

/-- The elements of a list without declarations have none. -/
theorem varNames_item_eq_nil {item : Tree} (none : t.varNames = []) (held : item ∈ t.items) :
    item.varNames = [] := by
  -- Only a list has elements, and they add up to nothing.
  cases t with
  | list items =>
    rw [varNames_list] at none
    exact List.flatMap_eq_nil_iff.mp none item held
  | _ => cases held

/-- Only an export stands for the declaration in it. -/
theorem unexported_of_isA {kind : String} (isA : t.isA kind)
    (other : kind ∉ ["ExportNamedDeclaration", "ExportDefaultDeclaration"]) :
    t.unexported = t := by
  -- Both tests are for kinds of exports.
  simp only [List.mem_cons, List.not_mem_nil, or_false, not_or] at other
  rw [unexported, isA_eq_false isA other.1, isA_eq_false isA other.2]
  rfl

/-- A declaration whose declarators hold no others declares what its declarators name. -/
theorem declaredNames_declaration (isDeclaration : t.isA "VariableDeclaration")
    (quiet : ∀ field ∈ t.fields, fieldVars field.1 field.2 = []) :
    t.declaredNames = t.declaratorNames := by
  have kind : t.kind? = some "VariableDeclaration" := beq_iff_eq.mp isDeclaration
  have plain : t.unexported = t := unexported_of_isA isDeclaration (by decide)
  have noFunction : t.isA "FunctionDeclaration" = false := isA_eq_false isDeclaration (by decide)
  rw [declaredNames, plain,
    varNames_node (Scope.Task.isNode_of_isA isDeclaration) (by rw [kind]; rfl),
    List.flatMap_eq_nil_iff.mpr quiet, ownVars, isDeclaration, ownLexicals, kind, ownFunctions,
    noFunction]
  -- The names are counted once, as those of `var` or as the others.
  cases t.isLexical <;> simp

/-- In a well-placed declaration only the declarators declare. -/
theorem WellPlaced.quiet_declaration (placed : t.WellPlaced)
    (isDeclaration : t.isA "VariableDeclaration") :
    ∀ field ∈ t.fields, fieldVars field.1 field.2 = [] := by
  -- The table has no fields for this kind, so each field is a note or quiet.
  intro field held
  have kind : t.kind? = some "VariableDeclaration" := beq_iff_eq.mp isDeclaration
  rw [fieldVars]
  rcases placed.quiet [] (by rw [kind]; rfl) field held with row | note | quiet
  · cases row
  · rw [if_pos note]
  · split
    · rfl
    · rw [isQuiet, List.all_eq_true] at quiet
      exact List.flatMap_eq_nil_iff.mpr fun node inside =>
        (own_of_not_declaration (by simpa using quiet node inside)).1

/-- Whether only the declarators of a declaration declare is told by its skeleton. -/
theorem quiet_of_skeleton {u : Tree} (same : u.skeleton = t.skeleton)
    (quiet : ∀ field ∈ t.fields, fieldVars field.1 field.2 = []) :
    ∀ field ∈ u.fields, fieldVars field.1 field.2 = [] := by
  -- Every field has its skeleton among those of the other declaration.
  intro field held
  have member : skeletonField field ∈ t.fields.map skeletonField := by
    rw [← fields_skeleton, ← same, fields_skeleton]
    exact List.mem_map.mpr ⟨field, held, rfl⟩
  obtain ⟨other, found, equal⟩ := List.mem_map.mp member
  obtain ⟨key, value⟩ := Prod.ext_iff.mp equal
  have value : other.2.skeleton = field.2.skeleton := value
  rw [fieldVars, ← varNames_skeleton, ← value, varNames_skeleton, ← show other.1 = field.1 from key]
  exact quiet other found

/-- Nodes of other kinds are no declarations. -/
theorem isDeclaration_of_isA {kind : String} (isA : t.isA kind)
    (other : kind ∉ ["VariableDeclaration", "FunctionDeclaration", "ClassDeclaration",
      "ImportDeclaration"]) : t.isDeclaration = false := by
  -- The four tests are for these four kinds.
  simp only [List.mem_cons, List.not_mem_nil, or_false, not_or] at other
  obtain ⟨noVariable, noFunction, noClass, noImport⟩ := other
  simp [isDeclaration, isA_eq_false isA noVariable, isA_eq_false isA noFunction,
    isA_eq_false isA noClass, isA_eq_false isA noImport]

/-- A statement that is neither a declaration nor an export declares what lies in it. -/
theorem declaredNames_other (other : t.isDeclaration = false) (plain : t.unexported = t) :
    t.declaredNames = t.varNames := by
  -- The functions and the lexical names of the statement itself are none.
  obtain ⟨_, functions, lexicals⟩ := own_of_not_declaration other
  rw [declaredNames, plain, functions, lexicals, List.append_nil, List.append_nil]

/-- What a statement or the declaration it exports gives is among what its outer nodes give. -/
theorem unexported_subset {stops : Option String → Bool} {give : Tree → List Text}
    (bare : ∀ u : Tree, u.isNode = false → give u = [])
    (named : stops (some "ExportNamedDeclaration") = false)
    (default : stops (some "ExportDefaultDeclaration") = false) :
    give t.unexported ⊆ (t.outer stops).flatMap give := by
  intro name held
  have self (u : Tree) (held : name ∈ give u) : name ∈ (u.outer stops).flatMap give := by
    cases isNode : u.isNode with
    | true => exact (mem_outer_node isNode).mpr (.inl held)
    | false =>
      rw [bare u isNode] at held
      cases held
  rw [unexported] at held
  split at held
  · rename_i exported
    -- The declaration lies right below the export, which is no scope.
    have entered : t.isNode ∧ stops t.kind? = false := by
      rcases Bool.or_eq_true_iff.mp exported with isA | isA
      · exact ⟨Scope.Task.isNode_of_isA isA, by rw [beq_iff_eq.mp isA]; exact named⟩
      · exact ⟨Scope.Task.isNode_of_isA isA, by rw [beq_iff_eq.mp isA]; exact default⟩
    rcases t.get_eq_null_or_mem "declaration" with absent | member
    · rw [absent, bare null rfl] at held
      cases held
    · exact (mem_outer_node entered.1).mpr (.inr ⟨entered.2, _, member, rfl, self _ held⟩)
  · exact self t held

/-- What a statement declares counts as bound at the top level. -/
theorem declaredNames_subset (t : Tree) : t.declaredNames ⊆ t.topNames 0 := by
  have bare (u : Tree) (value : u.isNode = false) : u.ownLexicals = [] ∧ u.ownFunctions = [] := by
    have other : u.isDeclaration = false := by
      cases u <;> first | rfl | cases value
    obtain ⟨_, functions, lexicals⟩ := own_of_not_declaration other
    exact ⟨lexicals, functions⟩
  -- What is exported is declared one level down, where the names of the statement count too.
  have lexicals : t.unexported.ownLexicals ⊆ t.lexicalNames :=
    unexported_subset (fun u value => (bare u value).1) rfl rfl
  have functions : t.unexported.ownFunctions ⊆ t.functionNames :=
    unexported_subset (fun u value => (bare u value).2) rfl rfl
  intro name held
  rw [declaredNames, List.mem_append, List.mem_append] at held
  rw [topNames, if_pos rfl, List.mem_append, List.mem_append]
  rcases held with var | lexical | function
  · exact .inl (.inl var)
  · exact .inr (lexicals lexical)
  · exact .inl (.inr (functions function))

end Statements

end ModuleLift.Tree
