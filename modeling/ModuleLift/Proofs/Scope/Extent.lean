import ModuleLift.Proofs.Tree.Parts
import ModuleLift.Tree.Size

/-! Which names a module declares, and where they can be referred to, by the scoping rules of the
language: `var` reaches to the function around it, other declarations to the block, the loop or the
switch they stand in. -/

namespace ModuleLift.Tree

section Declarations

/-- The names a pattern binds. -/
def patternNames (t : Tree) : List Text :=
  match _isKind : t.kind? with
  | some "Identifier" => [t.name]
  | some "ObjectPattern" =>
    (t.get "properties").items.attach.flatMap fun ⟨property, _⟩ =>
      -- A property binds by its value, and what is left over by itself.
      if property.isA "Property" then patternNames (property.get "value")
      else patternNames property
  | some "ArrayPattern" =>
    (t.get "elements").items.attach.flatMap fun ⟨element, _⟩ => patternNames element
  | some "RestElement" => patternNames (t.get "argument")
  | some "AssignmentPattern" => patternNames (t.get "left")
  | _ => []
termination_by sizeOf t
decreasing_by
  · rename_i member _
    have property := sizeOf_lt_of_kind_of_mem _isKind member
    have value := sizeOf_get_le ‹Tree› "value"
    omega
  · exact sizeOf_lt_of_kind_of_mem _isKind ‹_›
  · exact sizeOf_lt_of_kind_of_mem _isKind ‹_›
  · exact sizeOf_get_lt_of_kind _isKind _
  · exact sizeOf_get_lt_of_kind _isKind _

/-- A name binds itself. -/
theorem patternNames_name {t : Tree} (isName : t.isIdentifier) : t.patternNames = [t.name] := by
  -- The branch of the definition for this kind.
  rw [patternNames]
  split <;> simp_all [isIdentifier, isA]

variable (t : Tree)

/-- The names of the declarators of a declaration. -/
def declaratorNames : List Text :=
  (t.get "declarations").items.flatMap fun d => patternNames (d.get "id")

/-- Whether a declaration is one of `let` or `const`. -/
def isLexical : Bool := (t.get "kind").isText "let" || (t.get "kind").isText "const"

/-- The name of a function or a class, if it has one. -/
def idNames : List Text := if (t.get "id").isIdentifier then [(t.get "id").name] else []

/-- The name in the field `id` is the only one. -/
theorem mem_idNames {t : Tree} {name : Text} :
    name ∈ t.idNames ↔ (t.get "id").isIdentifier ∧ (t.get "id").name = name := by
  -- The field holds a name, or it does not count.
  rw [idNames]
  split
  · rename_i isName
    rw [List.mem_singleton, eq_comm]
    simp [isName]
  · rename_i noName
    simp [noName]

/-- The local names of an import. -/
def localNames : List Text :=
  (((t.get "specifiers").items.map (·.get "local")).filter isIdentifier).map name

/-- The names a `var` declaration binds. -/
def ownVars : List Text :=
  if t.isA "VariableDeclaration" && !t.isLexical then t.declaratorNames else []

/-- The name a function declaration binds. -/
def ownFunctions : List Text := if t.isA "FunctionDeclaration" then t.idNames else []

/-- The names that a declaration of another kind binds. -/
def ownLexicals : List Text :=
  match t.kind? with
  | some "VariableDeclaration" => if t.isLexical then t.declaratorNames else []
  | some "ClassDeclaration" => t.idNames
  | some "ImportDeclaration" => t.localNames
  | _ => []

end Declarations

section Walks

/-- Whether nodes of a kind are functions. -/
def isFunctionKind (kind : Option String) : Bool :=
  match kind with
  | some "FunctionDeclaration" => true
  | some "FunctionExpression" => true
  | some "ArrowFunctionExpression" => true
  | some "function" => true
  | _ => false

/-- Whether nodes of a kind are functions, blocks or catch clauses. -/
def isScopeKind (kind : Option String) : Bool :=
  isFunctionKind kind || kind == some "BlockStatement" || kind == some "CatchClause"

mutual

/-- The nodes of a value that do not lie below a node of the given kinds. -/
def outer (stops : Option String → Bool) : Tree → List Tree
  | .list items => outerAll stops items
  | .node kind mark fields =>
    .node kind mark fields :: if stops kind then [] else outerFields stops fields
  | _ => []

/-- The nodes of the elements of a list. -/
def outerAll (stops : Option String → Bool) : List Tree → List Tree
  | [] => []
  | t :: rest => outer stops t ++ outerAll stops rest

/-- The nodes that the fields of a node hold, notes apart. -/
def outerFields (stops : Option String → Bool) : List (String × Tree) → List Tree
  | [] => []
  | (key, value) :: rest =>
    (if isNoteKey key then [] else outer stops value) ++ outerFields stops rest

end

/-- The nodes outside of a list are those of its elements. -/
theorem outerAll_eq (stops : Option String → Bool) (items : List Tree) :
    outerAll stops items = items.flatMap (outer stops) := by
  -- Induction over the elements.
  induction items with
  | nil => rfl
  | cons t rest ih => rw [outerAll, List.flatMap_cons, ih]

/-- The nodes outside of some fields are those of their values, notes left out. -/
theorem outerFields_eq (stops : Option String → Bool) (fields : List (String × Tree)) :
    outerFields stops fields =
      fields.flatMap fun field => if isNoteKey field.1 then [] else outer stops field.2 := by
  -- Induction over the fields.
  induction fields with
  | nil => rfl
  | cons field rest ih =>
    obtain ⟨key, value⟩ := field
    rw [outerFields, List.flatMap_cons, ih]

/-- What the outer nodes of a list give is what those of its elements give. -/
theorem mem_outer_list {stops : Option String → Bool} {give : Tree → List Text} {items : List Tree}
    {name : Text} :
    name ∈ ((list items).outer stops).flatMap give ↔
      ∃ t ∈ items, name ∈ (t.outer stops).flatMap give := by
  rw [outer, outerAll_eq, List.flatMap_assoc, List.mem_flatMap]

/-- What the outer nodes of a node give comes from the node itself or, if it is entered, from what
its fields hold. -/
theorem mem_outer_node {stops : Option String → Bool} {give : Tree → List Text} {t : Tree}
    (isNode : t.isNode) {name : Text} :
    name ∈ (t.outer stops).flatMap give ↔ name ∈ give t ∨ stops t.kind? = false ∧
      ∃ field ∈ t.fields, isNoteKey field.1 = false ∧
        name ∈ (field.2.outer stops).flatMap give := by
  cases t with
  | node kind mark fields =>
    rw [outer, List.flatMap_cons, List.mem_append]
    refine or_congr Iff.rfl ?_
    rw [kind?, Tree.fields]
    -- A node that stops the walk gives what it has itself, and no more.
    cases stopped : stops kind with
    | true => simp
    | false =>
      rw [if_neg Bool.false_ne_true, outerFields_eq, List.flatMap_assoc, List.mem_flatMap]
      simp only [true_and]
      refine exists_congr fun field => and_congr_right fun _ => ?_
      cases isNoteKey field.1 <;> simp
  | _ => cases isNode

variable (t : Tree)

/-- The names that `var` declarations bind outside the functions in a value. -/
def varNames : List Text := (t.outer isFunctionKind).flatMap ownVars

/-- The names of the functions declared outside the functions in a value. -/
def functionNames : List Text := (t.outer isFunctionKind).flatMap ownFunctions

/-- The names that other declarations bind outside the functions, blocks and catch clauses in a
value. -/
def lexicalNames : List Text := (t.outer isScopeKind).flatMap ownLexicals

end Walks

section Scopes

/-- The declaration that a statement exports, or else the statement. -/
def unexported (t : Tree) : Tree :=
  if t.isA "ExportNamedDeclaration" || t.isA "ExportDefaultDeclaration" then t.get "declaration"
  else t

/-- The names that the statements of a block declare in it. -/
def blockNames (statements : List Tree) : List Text :=
  statements.flatMap fun t => t.unexported.ownLexicals ++ t.unexported.ownFunctions

/-- The names that the statements of a function or a module declare in it. -/
def bodyNames (statements : List Tree) : List Text :=
  statements.flatMap varNames ++ blockNames statements

/-- The names that a node declares for what a field of it holds. -/
def scopeNames (t : Tree) (key : String) : List Text :=
  let params := (t.get "params").items.flatMap patternNames
  -- Parameters do not see what the body declares.
  let body := if key = "body" then bodyNames ((t.get "body").get "body").items else []
  match t.kind? with
  | some "FunctionDeclaration" => params ++ body
  | some "FunctionExpression" => t.idNames ++ params ++ body
  | some "ArrowFunctionExpression" => params ++ body
  | some "ClassDeclaration" => t.idNames
  | some "ClassExpression" => t.idNames
  | some "BlockStatement" => blockNames (t.get "body").items
  | some "SwitchStatement" =>
    if key = "cases" then
      (t.get "cases").items.flatMap fun case => blockNames (case.get "consequent").items
    else []
  -- The head of a loop can be seen in all of it.
  | some "ForStatement" => (t.get "init").ownLexicals
  | some "ForInStatement" => (t.get "left").ownLexicals
  | some "ForOfStatement" => (t.get "left").ownLexicals
  | some "CatchClause" => patternNames (t.get "param")
  | _ => []

/-- Whether the names in a field of a node can be references. -/
def isReferring (t : Tree) (key : String) : Bool :=
  let computed := (t.get "computed").isSet
  !isNoteKey key && key != "label" &&
    match t.kind? with
    | some "MemberExpression" => key != "property" || computed
    | some "Property" => key != "key" || computed
    | some "MethodDefinition" => key != "key" || computed
    | some "MetaProperty" => false
    | some "ImportDeclaration" => false
    | some "ExportSpecifier" => key != "exported"
    -- What another module exports is not looked up here.
    | some "ExportNamedDeclaration" => key != "specifiers" || (t.get "source").isNull
    | some "FunctionDeclaration" => key != "id"
    | some "FunctionExpression" => key != "id"
    | some "ClassDeclaration" => key != "id"
    | some "ClassExpression" => key != "id"
    | _ => true

mutual

/-- Whether a value refers to a name that no scope inside the value declares. -/
def refersTo (name : Text) : Tree → Bool
  | .list items => refersToAny name items
  | .node kind mark fields =>
    let t := Tree.node kind mark fields
    if kind == some "Identifier" then t.name == name
    else refersToIn name (fun key => t.isReferring key && !(t.scopeNames key).contains name) fields
  | _ => false

/-- Whether an element of a list does. -/
def refersToAny (name : Text) : List Tree → Bool
  | [] => false
  | t :: rest => refersTo name t || refersToAny name rest

/-- Whether one of the fields that are looked at does. -/
def refersToIn (name : Text) (looks : String → Bool) : List (String × Tree) → Bool
  | [] => false
  | (key, value) :: rest => (looks key && refersTo name value) || refersToIn name looks rest

end

/-- Whether a program refers to a name outside the scope of every declaration of it. -/
def RefersFreely (program : Tree) (name : Text) : Prop :=
  name ∉ bodyNames (program.get "body").items ∧
    ∃ t ∈ (program.get "body").items, t.refersTo name

instance (program : Tree) (name : Text) : Decidable (program.RefersFreely name) :=
  inferInstanceAs (Decidable (_ ∧ _))

/-- The names of functions that are declared anywhere outside functions, and of what is declared by
`let`, `const`, `class` or an import anywhere outside functions, blocks and catch clauses. -/
def looseNames (program : Tree) : List Text :=
  (program.get "body").items.flatMap fun t => t.functionNames ++ t.lexicalNames

end Scopes

end ModuleLift.Tree
