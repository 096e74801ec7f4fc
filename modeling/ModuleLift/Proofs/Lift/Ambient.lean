import ModuleLift.Proofs.Lift.Mention
import ModuleLift.Proofs.Scope.Reach

/-! When a name that a program refers to freely is defined before its body. -/

namespace ModuleLift

namespace Tree

section References

variable {name : Text}

/-- A list refers to a name if an item does. -/
theorem refersToAny_iff {items : List Tree} :
    refersToAny name items ↔ ∃ t ∈ items, t.refersTo name := by
  -- The recursion is along the list.
  induction items with
  | nil => simp [refersToAny]
  | cons t rest ih => simp [refersToAny, ih]

/-- Fields refer to a name if one that is looked into does. -/
theorem refersToIn_iff {looks : String → Bool} {fields : List (String × Tree)} :
    refersToIn name looks fields ↔ ∃ field ∈ fields, looks field.1 ∧ field.2.refersTo name := by
  -- The recursion is along the fields.
  induction fields with
  | nil => simp [refersToIn]
  | cons field rest ih =>
    obtain ⟨key, value⟩ := field
    simp [refersToIn, ih]

/-- Where references can stand, the walk over references goes. -/
theorem entersField_of_isReferring {kind : Option String} {mark : Mark}
    {fields : List (String × Tree)} {key : String}
    (referring : (node kind mark fields).isReferring key) :
    entersField kind (computedIn fields) key := by
  have computed : ((node kind mark fields).get "computed").isSet = computedIn fields := rfl
  rw [isReferring, computed] at referring
  simp only [Bool.and_eq_true] at referring
  obtain ⟨⟨walked, noLabel⟩, allowed⟩ := referring
  -- The walk leaves out labels, names after a dot and plain keys, and so do references.
  rw [entersField]
  revert allowed
  rw [kind?]
  split <;> simp_all

/-- A name that is referred to is met by the walk over references. -/
theorem exists_visit_of_refersTo {t : Tree} (refers : t.refersTo name) (nested : Bool) :
    ∃ v ∈ visits nested t, v.node.isIdentifier ∧ v.node.name = name := by
  -- Induction on the tree: a scope can only hide references, and the walk knows no scopes.
  induction t using Tree.induction generalizing nested with
  | list items ih =>
    rw [refersTo, refersToAny_iff] at refers
    obtain ⟨item, held, inside⟩ := refers
    obtain ⟨v, met, isName⟩ := ih item held inside nested
    exact ⟨v, mem_visits_list.mpr ⟨item, held, met⟩, isName⟩
  | node kind mark fields ih =>
    rw [refersTo] at refers
    split at refers
    · rename_i isName
      exact ⟨_, mem_visits_node.mpr (.inl rfl), isName, beq_iff_eq.mp refers⟩
    · rename_i noName
      rw [refersToIn_iff] at refers
      obtain ⟨field, held, looks, inside⟩ := refers
      rw [Bool.and_eq_true] at looks
      obtain ⟨v, met, isName⟩ := ih field held inside (kind != some "Program")
      exact ⟨v, mem_visits_node.mpr (.inr ⟨by simpa using noName, field, held,
        entersField_of_isReferring looks.1, met⟩), isName⟩
  | _ => cases refers

/-- A name that is referred to is mentioned. -/
theorem mem_mentions_of_refersTo {t : Tree} (refers : t.refersTo name) : name ∈ t.mentions := by
  -- The scan for mentions meets every place that scoping looks at.
  obtain ⟨v, met, isName, rfl⟩ := exists_visit_of_refersTo refers false
  exact List.mem_map.mpr ⟨v, List.mem_filter.mpr ⟨met, isName⟩, rfl⟩

/-- A name that is referred to freely counts as bound at the top level exactly if it is loose. -/
theorem mem_topLevelNames_of_refersFreely {program : Tree} (isProgram : program.isA "Program")
    (series : (program.get "body").isSeries) (placed : ∀ part ∈ program.parts, part.WellPlaced)
    (free : program.RefersFreely name) :
    name ∈ (Scope.analyze program).topLevelNames ↔ name ∈ program.looseNames := by
  -- A `var` would declare the name in the module, so it is bound by something else if at all.
  have undeclared : ∀ t ∈ (program.get "body").items, name ∉ t.varNames := fun t held declared =>
    free.1 (List.mem_append_left _ (List.mem_flatMap.mpr ⟨t, held, declared⟩))
  rw [Scope.mem_topLevelNames, Lift.entries_program isProgram series, looseNames,
    List.mem_flatMap, List.mem_flatMap]
  refine exists_congr fun t => and_congr_right fun held => ?_
  have agrees := agrees_of_wellPlaced fun part member =>
    placed part ((parts_sublist_of_mem_get rfl held).subset member)
  rw [bindings, agrees 0 name, topNames, if_pos rfl, List.append_assoc, List.mem_append,
    or_iff_right (undeclared t held)]

end References

end Tree

namespace Polyfill

/-- A name that has to be defined is given by one of the constants. -/
theorem exists_constant_of_needs {p : Polyfill} {name : Text} (needed : p.needs name) :
    ∃ init, constant name init ∈ p.statements := by
  -- The constants come after the imports that they need.
  rcases needed with ⟨rfl, needed⟩ | ⟨rfl, needed⟩
  · exact ⟨_, by simp [statements, needed]; exact .inr (.inr (.inl rfl))⟩
  · exact ⟨_, by simp [statements, needed]; exact .inr (.inr rfl)⟩

/-- A constant declares its name in the block it stands in. -/
theorem ownLexicals_constant (name : Text) (init : Tree) (region : Region) :
    ((constant name init).anchor region).unexported.ownLexicals = [name] := by
  -- It is a `const` with one declarator, whose target is the name.
  change [Tree.variableDeclarator (.identifier name) init].flatMap
    (fun d => Tree.patternNames (d.get "id")) = [name]
  rw [List.flatMap_singleton]
  exact Tree.patternNames_name rfl

end Polyfill

namespace Lift

/-- A name that has to be defined is declared by the definitions put before the body. -/
theorem mem_blockNames_opening {names : Polyfill} {name : Text} (needed : names.needs name)
    (body : List Tree) : name ∈ Tree.blockNames (opening names body) := by
  -- The constant that gives the name is put before the body in some place.
  obtain ⟨init, held⟩ := Polyfill.exists_constant_of_needs needed
  refine List.mem_flatMap.mpr ⟨_, List.mem_map.mpr ⟨_, held, rfl⟩, List.mem_append_left _ ?_⟩
  rw [Polyfill.ownLexicals_constant]
  exact List.mem_singleton_self name

end Lift

/-- An ambient name that a program refers to outside the scope of every declaration of it is defined
before the body if and only if it is not loose, and if it is defined, the body declares it. -/
theorem defines_free_iff {program : Tree} (isProgram : program.isA "Program")
    (series : (program.get "body").isSeries)
    (placed : ∀ part ∈ program.parts, part.WellPlaced)
    (s : Surroundings) {name : Text} (ambient : Lift.isAmbient name)
    (free : program.RefersFreely name) :
    let opening := Lift.opening (Lift.finalNames s program) (Lift.newBody s program)
    (program.Ranged → ∃ lifted, lift s program = .ok lifted) ∧
    ∀ lifted, lift s program = .ok lifted →
      (lifted.program.get "body").items = opening ++ Lift.newBody s program ∧
      ((∃ t ∈ opening, t.isA "VariableDeclaration" ∧ t.boundNames = [name]) ↔
        name ∉ program.looseNames) ∧
      (name ∉ program.looseNames →
        name ∈ Tree.bodyNames (lifted.program.get "body").items) := by
  intro opening
  refine ⟨Lift.exists_liftWith _ s isProgram, fun lifted known => ?_⟩
  obtain ⟨_, _, items⟩ := Lift.program_of_lift s known
  obtain ⟨t, held, refers⟩ := free.2
  -- A free reference is a mention, so only a loose name can keep the definition away.
  have needed : (Lift.finalNames s program).needs name ↔ name ∉ program.looseNames := by
    rw [Lift.needs_finalNames s program ambient,
      Tree.mem_topLevelNames_of_refersFreely isProgram series placed free]
    exact and_iff_left ⟨t, held, Tree.mem_mentions_of_refersTo refers⟩
  refine ⟨items, (Lift.exists_opening_iff _ _ _).trans needed, fun tight => ?_⟩
  have defined := Lift.mem_blockNames_opening (needed.mpr tight) (Lift.newBody s program)
  refine List.mem_append_right _ ?_
  rw [items, Tree.blockNames, List.flatMap_append]
  exact List.mem_append_left _ defined

/-- A declaration in a block leaves a reference after the block free, and the name is defined. -/
theorem defines_free_iff_block :
    let block : Tree := .synthetic "BlockStatement"
      [("body", .list [Polyfill.constant dirnameName (.stringLiteral '"' "here")])]
    let exporting : Tree := .exportDefault (.identifier dirnameName)
    let program : Tree := .synthetic "Program"
      [("body", .list [block.readAt ⟨0, 30⟩, exporting.readAt ⟨31, 56⟩])]
    program.Ranged ∧ (∀ part ∈ program.parts, part.WellPlaced) ∧
      program.RefersFreely dirnameName ∧
      ∃ lifted, lift { isFile := fun _ => false } program = .ok lifted ∧
        dirnameName ∈ Tree.bodyNames (lifted.program.get "body").items := by
  intro block exporting program
  -- The scope of the declaration ends with the block, so the reference is free and the name not
  -- loose.
  have ranged : program.Ranged := by decide
  have placed : ∀ part ∈ program.parts, part.WellPlaced := by decide +kernel
  have free : program.RefersFreely dirnameName := by decide +kernel
  obtain ⟨lifts, each⟩ := @defines_free_iff program rfl rfl placed
    { isFile := fun _ => false } dirnameName rfl free
  obtain ⟨lifted, known⟩ := lifts ranged
  exact ⟨ranged, placed, free, lifted, known, (each lifted known).2.2 (by decide +kernel)⟩

/-- The head of a loop keeps a name from being defined that is referred to after the loop. -/
theorem not_defines_loop_head :
    let head : Tree := .variableDeclaration (.text "const")
      [.variableDeclarator (.identifier dirnameName) .null]
    let loop : Tree := .synthetic "ForOfStatement" [("left", head), ("right", .identifier "dirs"),
      ("body", .synthetic "BlockStatement" [("body", .list [])])]
    let use : Tree := .synthetic "ExpressionStatement"
      [("expression", .call (.identifier "print") [.identifier dirnameName])]
    let program : Tree := .synthetic "Program"
      [("body", .list [loop.readAt ⟨0, 33⟩, use.readAt ⟨34, 51⟩])]
    (∀ part ∈ program.parts, part.WellPlaced) ∧ program.RefersFreely dirnameName ∧
      ∃ lifted, lift { isFile := fun _ => false } program = .ok lifted ∧
        dirnameName ∉ Tree.bodyNames (lifted.program.get "body").items := by
  intro head loop use program
  refine ⟨by decide +kernel, by decide +kernel, ?_⟩
  obtain ⟨lifted, known⟩ : ∃ lifted, lift { isFile := fun _ => false } program = .ok lifted :=
    Lift.exists_liftWith _ _ rfl (by decide)
  refine ⟨lifted, known, ?_⟩
  -- The whole body is computed: nothing is put before it, and the head of a loop is no statement of
  -- it.
  have undeclared : ((lift { isFile := fun _ => false } program).toOption.map fun lifted =>
      Tree.bodyNames (lifted.program.get "body").items) = some [] := by decide +kernel
  rw [known] at undeclared
  have none : Tree.bodyNames (lifted.program.get "body").items = [] := Option.some.inj undeclared
  rw [none]
  exact List.not_mem_nil

end ModuleLift
