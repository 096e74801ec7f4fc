import ModuleLift.Proofs.Scope.Account

/-! The walk of an analysis, rule by rule: every step adds some of the nodes that its task is about
to the record and leaves tasks about the others, so a whole walk adds them all. -/

namespace ModuleLift

namespace Scope

namespace Task

section Rules

variable {known : Known} {j : Journal} {place : Place} {trail : Trail} {t : Tree}

/-- The tasks for the fields of a node without a rule are about these fields. -/
theorem findsAll_fields (walked : Walked known place trail t)
    (unruled : ∀ kind ∈ ruled, t.kind? ≠ some kind) (isNode : t.isNode)
    (fields : List (String × Tree)) (held : ∀ field ∈ fields, field ∈ t.fields) :
    FindsAll known
      ((fields.filter fun field => !isNote field.1).map fun field => .visit place field.2)
      (fields.flatMap fun field => Tree.tracedField trail t field.1 field.2) := by
  induction fields with
  | nil => exact .nil
  | cons field fields ih =>
    have rest := ih fun field later => held field (List.mem_cons_of_mem _ later)
    have member := held field List.mem_cons_self
    rw [List.flatMap_cons, List.filter_cons, Tree.tracedField]
    -- More keys are those of notes for trails than for the walk, but no node that is read has them.
    cases note : Tree.isNoteKey field.1 with
    | true =>
      have passed := (walked.sound.self isNode).1.notes field member note
      simp only [passed, Bool.not_true, Bool.false_eq_true, if_false, if_true]
      exact rest
    | false =>
      have entered := isNote_of_isNoteKey note
      simp only [entered, Bool.not_false, if_true, Bool.false_eq_true, if_false, List.map_cons]
      have closed := @scopeKind?_unruled t trail unruled
      have sound : field.2.Sound := fun part inside =>
        walked.sound part (Tree.parts_subset_of_field member note inside)
      refine .cons (.visit (walked.below closed (clear_unruled unruled walked.clear)
        (fun quiet => ?_) sound)) rest
      exact Tree.isQuiet_field quiet (entered_of_closed closed) member note

/-- A node without a rule is walked field by field. -/
theorem expands_unruled (walked : Walked known place trail t)
    (unruled : ∀ kind ∈ ruled, t.kind? ≠ some kind) (isNode : t.isNode) :
    Expands known j
      (j, (t.fields.filter fun field => !isNote field.1).map fun field => .visit place field.2)
      (t.traced trail) := by
  -- The node itself does not count, so what is found in its fields is all.
  have fields := findsAll_fields walked unruled isNode t.fields fun _ held => held
  rw [Tree.traced_node isNode]
  have closed := @scopeKind?_unruled t trail unruled
  exact expands_pass rfl rfl (fields.alike (alike_cons closed (fun _ => walked.clear) _).symm)

/-- The parameters of a function are bound in its scope. -/
theorem findsAll_params (walked : Walked known place trail t)
    (isFunction : Tree.isFunctionKind t.kind?) (isNode : t.isNode) :
    FindsAll (known.opened j trail)
      ((t.get "params").items.map (.pattern .parameter (place.inside .function j.next)))
      ((t.get "params").traced (.field t "params" :: trail)) := by
  obtain ⟨regular, patterns⟩ := walked.sound.self isNode
  -- Any function declares its parameters, whatever its kind.
  have declared : binding? (.field t "params" :: trail) = some (.parameter, trail) := by
    rw [binding?_stays (by simp [Link.leads, leading])]
    unfold declares?
    split
    any_goals contradiction
    exact if_pos isFunction
  rw [List.map_eq_flatMap]
  refine findsAll_series (regular.series "params" (by decide)) fun item held index => ?_
  have bound : Bound (known.opened j trail) .parameter j.next
      (.element index :: .field t "params" :: trail) := ⟨trail, declared, fun _ holds => holds.2⟩
  have placed : Placed (known.opened j trail) (.element index :: .field t "params" :: trail)
      (place.inside .function j.next) :=
    walked.placed.inside (scopeKind?_function isFunction) (bindsVar_of_clear walked.clear)
      (by decide)
  have isPattern := patterns item (Tree.targets_function isFunction ▸ held)
  exact (Finds.pattern bound placed isPattern ((walked.sound.get rfl).item held)).single

/-- The body of a function is walked in its scope, without a scope of its own. -/
theorem findsAll_body (walked : Walked known place trail t)
    (isFunction : Tree.isFunctionKind t.kind?) :
    FindsAll (known.opened j trail)
      [.visit (place.inside .function j.next) (if (t.get "body").isA "BlockStatement" then
        (t.get "body").get "body" else t.get "body")]
      ((t.get "body").traced (.field t "body" :: trail)) := by
  have inner : (t.get "body").Sound := walked.sound.get rfl
  have opens := @scopeKind?_function trail t isFunction
  have plain : bindsVar t "body" trail = false := bindsVar_of_clear walked.clear
  have placed : Placed (known.opened j trail) (.field t "body" :: trail)
      (place.inside .function j.next) := walked.placed.inside opens plain (by decide)
  have lies : enclosing (.field t "body" :: trail) = scopeOf (.field t "body" :: trail) := by
    rw [enclosing, plain, opens, scopeOf, opens]
    rfl
  split
  · rename_i isBlock
    -- The block itself counts for nothing, and what it holds stands in the function.
    have kind : (t.get "body").kind? = some "BlockStatement" := beq_iff_eq.mp isBlock
    have closed : scopeKind? (.field t "body" :: trail) (t.get "body") = none := by
      rw [scopeKind?, kind]
      exact if_pos (by simp [isFunctionBody, isFunction])
    have still : bindsVar (t.get "body") "body" (.field t "body" :: trail) = false :=
      bindsVar_of_clear (clear_key (by decide))
    have held : Walked (known.opened j trail) (place.inside .function j.next)
        (.field (t.get "body") "body" :: .field t "body" :: trail)
        ((t.get "body").get "body") := by
      refine ⟨clear_key (by decide), placed.closed closed still, .inr ?_, fun _ => ?_,
        inner.get rfl⟩
      · rw [enclosing_closed closed still, lies, scopeOf, scopeOf, closed]
        rfl
      · rw [isFunctionBody, kind]
        rfl
    have kept := alike_kept (inner.self (isNode_of_isA isBlock)).1 kind rfl closed (by decide)
    exact FindsAll.alike (.cons (.visit held) .nil) kept
  · rename_i other
    exact (Finds.visit ⟨clear_key (by decide), placed, .inr lies,
      fun isBlock => absurd isBlock other, inner⟩).single

/-- The name of a function or a class is bound as its trail says. -/
theorem finds_id {kind : BindingKind} (sound : t.Sound) (isNode : t.isNode)
    (other : t.isA "VariableDeclarator" = false)
    (bound : Bound known kind place.scope (.field t "id" :: trail)) :
    Finds known (.name kind place (t.get "id")) ((t.get "id").traced (.field t "id" :: trail)) := by
  -- Apart from declarators the grammar has a name there, or nothing.
  refine .name bound ?_ (sound.get rfl)
  rcases (sound.self isNode).1.named with declarator | named
  · rw [other] at declarator
    cases declarator
  · exact named

/-- A function expression names itself inside, other functions do not. -/
theorem findsAll_function (walked : Walked known place trail t)
    (isFunction : Tree.isFunctionKind t.kind?) (isNode : t.isNode) {ownName : Bool}
    (own : ownName = true → t.kind? = some "FunctionExpression") :
    FindsAll (known.opened j trail) (ofFunction j place t ownName).2
      ((t.get "params").traced (.field t "params" :: trail) ++
        (t.get "body").traced (.field t "body" :: trail) ++
        if ownName then (t.get "id").traced (.field t "id" :: trail) else []) := by
  refine ((findsAll_params walked isFunction isNode).append
    (findsAll_body walked isFunction)).append ?_
  cases ownName with
  | false => exact .nil
  | true =>
    -- Only a function expression declares its name in its own scope.
    have kind := own rfl
    refine (finds_id walked.sound isNode (by rw [Tree.isA, kind]; rfl) ⟨trail, ?_, ?_⟩).single
    · rw [binding?_of_kind kind (by decide)]
      unfold declares?
      rw [kind]
      rfl
    · exact fun number holds => holds.2

/-- A function expression opens a scope for its parameters, its body and its own name. -/
theorem expands_functionExpression (walked : Walked known place trail t)
    (isKind : t.kind? = some "FunctionExpression") :
    Expands known j (ofFunction j place t true) (t.traced trail) := by
  -- The own name is bound inside, together with the parameters.
  have isNode : t.isNode := isNode_of_isA (beq_iff_eq.mpr isKind)
  have isFunction : Tree.isFunctionKind t.kind? := by rw [isKind]; rfl
  have parts := @findsAll_function known j place trail t walked isFunction isNode true
    fun _ => isKind
  have held := alike_held (walked.sound.self isNode).1 (by rw [isKind]; rfl) trail
  refine expands_open (scopeKind?_function isFunction) walked.placed parts
    (.trans (.of_perm (.of_eq ?_)) held)
  simp

/-- Any other function that is no declaration opens a scope for its parameters and its body. -/
theorem expands_arrow (walked : Walked known place trail t)
    (isKind : t.kind? = some "ArrowFunctionExpression" ∨ t.kind? = some "function") :
    Expands known j (ofFunction j place t false) (t.traced trail) := by
  have isFunction : Tree.isFunctionKind t.kind? := by
    rcases isKind with isKind | isKind <;> rw [isKind] <;> rfl
  have known' : Tree.boundIn? t.kind? = some ["params", "body"] := by
    rcases isKind with isKind | isKind <;> rw [isKind] <;> rfl
  have isNode : t.isNode := by
    cases t with
    | node => rfl
    | _ => cases isFunction
  -- It has no name of its own to be bound.
  have parts := @findsAll_function known j place trail t walked isFunction isNode false
    fun own => by cases own
  have held := alike_held (walked.sound.self isNode).1 known' trail
  refine expands_open (scopeKind?_function isFunction) walked.placed parts
    (.trans (.of_perm (.of_eq ?_)) held)
  simp

/-- A declared function is bound around it, and opens a scope for the rest. -/
theorem expands_functionDeclaration (walked : Walked known place trail t)
    (isKind : t.kind? = some "FunctionDeclaration") :
    Expands known j ((ofFunction j place t false).1,
      .name .function place.hoisted (t.get "id") :: (ofFunction j place t false).2)
      (t.traced trail) := by
  have isNode : t.isNode := isNode_of_isA (beq_iff_eq.mpr isKind)
  have isFunction : Tree.isFunctionKind t.kind? := by rw [isKind]; rfl
  have parts := @findsAll_function known j place trail t walked isFunction isNode false
    fun own => by cases own
  -- Its name is hoisted out of blocks, to the scope that was known before.
  have bound : Bound (known.opened j trail) .function place.hoisted.scope
      (.field t "id" :: trail) := by
    refine ⟨hoistOf trail, ?_, fun number holds => (walked.placed number holds.1).2⟩
    rw [binding?_of_kind isKind (by decide)]
    unfold declares?
    rw [isKind]
    rfl
  have name := finds_id walked.sound isNode (by rw [Tree.isA, isKind]; rfl) bound
  have held := alike_held (walked.sound.self isNode).1 (by rw [isKind]; rfl) trail
  refine expands_open (scopeKind?_function isFunction) walked.placed (.cons name parts)
    (.trans (.of_perm (.of_eq ?_)) held)
  simp

/-- Keys, defaults and superclasses are quiet, so it does not matter whether the scope they lie in
is the nearest one above. -/
theorem walked_expression (sound : t.Sound) (isNode : t.isNode) {key : String}
    (listed : key ∈ ["key", "right", "superClass"])
    (placed : Placed known (.field t key :: trail) place) :
    Walked known place (.field t key :: trail) (t.get key) := by
  -- One case for each of the three fields.
  refine ⟨?_, placed, .inl ((sound.self isNode).1.quiet key listed), fun _ => ?_, sound.get ?_⟩
  all_goals
    simp only [List.mem_cons, List.not_mem_nil, or_false] at listed
    rcases listed with rfl | rfl | rfl
  all_goals first | exact clear_key (by decide) | rfl | simp [isFunctionBody]

/-- What a class extends is walked where the class is. -/
theorem finds_superClass (walked : Walked known place trail t)
    (isClass : scopeKind? trail t = some .classBody) (isNode : t.isNode) :
    Finds known (.visit place (t.get "superClass"))
      ((t.get "superClass").traced (.field t "superClass" :: trail)) := by
  -- The scope of the class is skipped for this one field.
  refine .visit (walked_expression walked.sound isNode (by decide) fun number holds => ?_)
  have outside : enclosing (.field t "superClass" :: trail) = enclosing trail := by
    rw [enclosing, bindsVar_of_clear walked.clear]
    simp
  have outer : Tree.isFunctionKind t.kind? = false := by
    rw [← Bool.not_eq_true, isFunctionKind_iff_of_opens isClass]
    decide
  rw [outside, hoistOf, outer]
  exact walked.placed number holds

/-- A class opens a scope for its body, and a class expression binds its own name there. -/
theorem expands_classBody (walked : Walked known place trail t)
    (isClass : scopeKind? trail t = some .classBody) (isNode : t.isNode) :
    Expands known j
      (j.open_ { kind := .classBody, node := t, parent := some place.scope },
        [.visit (place.inside .classBody j.next) (t.get "body")] ++
          if t.isA "ClassExpression" then
            [.name .className (place.inside .classBody j.next) (t.get "id")] else [])
      ((trail, t) :: ((t.get "body").traced (.field t "body" :: trail) ++
        if t.isA "ClassExpression" then (t.get "id").traced (.field t "id" :: trail) else [])) := by
  have body := walked.inside (j := j) isClass (by decide)
  refine expands_open isClass walked.placed (body.single.append ?_) (.refl _)
  split
  · -- The name of a class expression is bound in the scope that has just been opened.
    rename_i isA
    have kind : t.kind? = some "ClassExpression" := beq_iff_eq.mp isA
    refine (finds_id walked.sound isNode (Tree.isA_eq_false isA (by decide))
      ⟨trail, ?_, fun number holds => holds.2⟩).single
    rw [binding?_of_kind kind (by decide)]
    unfold declares?
    rw [kind]
    rfl
  · exact .nil

/-- A class that is no declaration is walked after what it extends. -/
theorem expands_class (walked : Walked known place trail t) {ownName : Bool}
    (isKind : (ownName = true ∧ t.kind? = some "ClassExpression") ∨
      (ownName = false ∧ t.kind? = some "class")) :
    Expands known j (j, [.visit place (t.get "superClass"), .classBody place ownName t])
      (t.traced trail) := by
  have isNode : t.isNode := by
    cases t with
    | node => rfl
    | _ => rcases isKind with ⟨_, kind⟩ | ⟨_, kind⟩ <;> cases kind
  have isClass : scopeKind? trail t = some .classBody := by
    rcases isKind with ⟨_, kind⟩ | ⟨_, kind⟩ <;> rw [scopeKind?, kind] <;> rfl
  have own : ownName = t.isA "ClassExpression" := by
    rcases isKind with ⟨rfl, kind⟩ | ⟨rfl, kind⟩ <;> rw [Tree.isA, kind] <;> rfl
  have regular := (walked.sound.self isNode).1
  subst own
  refine expands_pass rfl rfl (.alike (.cons (finds_superClass walked isClass isNode)
    (.cons (.classBody isClass walked) .nil)) ?_)
  -- The class comes first among its nodes, but what it extends is walked before its scope opens.
  rw [List.append_nil]
  refine .trans (.of_perm List.perm_middle) ?_
  rcases isKind with ⟨isA, kind⟩ | ⟨isA, kind⟩
  · have held := alike_held regular (by rw [kind]; rfl) trail
    rw [isA]
    simpa using held
  · have held := alike_held regular (by rw [kind]; rfl) trail
    rw [isA]
    simpa using held

/-- A declared class is bound around it. -/
theorem expands_classDeclaration (walked : Walked known place trail t)
    (isKind : t.kind? = some "ClassDeclaration") :
    Expands known j (j, [.name .className place (t.get "id"),
      .visit place (t.get "superClass"), .classBody place false t]) (t.traced trail) := by
  have isNode : t.isNode := isNode_of_isA (beq_iff_eq.mpr isKind)
  have isClass : scopeKind? trail t = some .classBody := by rw [scopeKind?, isKind]; rfl
  have declares : t.isDeclaration := by simp [Tree.isDeclaration, Tree.isA, isKind]
  have other : t.isA "ClassExpression" = false := by rw [Tree.isA, isKind]; rfl
  -- Its name is bound where it stands, and is not hoisted out of blocks.
  have bound : Bound known .className place.scope (.field t "id" :: trail) := by
    refine ⟨scopeOf trail, ?_, fun number holds => walked.declaration declares holds⟩
    rw [binding?_of_kind isKind (by decide)]
    unfold declares?
    rw [isKind]
    rfl
  have name := finds_id walked.sound isNode (by rw [Tree.isA, isKind]; rfl) bound
  have held := alike_held (walked.sound.self isNode).1 (by rw [isKind]; rfl) trail
  have body := Finds.classBody isClass walked
  rw [other] at body
  refine expands_pass rfl rfl (.alike (.cons name (.cons (finds_superClass walked isClass isNode)
    (.cons body .nil))) ?_)
  -- The walk takes the name first, the trails have the class itself before it.
  rw [List.append_nil, ← List.append_assoc]
  refine .trans (.of_perm List.perm_middle) ?_
  simpa using held

/-- A program is its body. -/
theorem expands_program (walked : Walked known place trail t)
    (isKind : t.kind? = some "Program") :
    Expands known j (j, [.visit place (t.get "body")]) (t.traced trail) := by
  -- A program opens no scope of its own: the one for it is there already.
  have regular := (walked.sound.self (isNode_of_isA (beq_iff_eq.mpr isKind))).1
  have closed : scopeKind? trail t = none := by rw [scopeKind?, isKind]; rfl
  have kept := alike_kept regular isKind rfl closed (by decide)
  exact expands_pass rfl rfl
    (.alike (.cons (walked.get closed (clear_key (by decide)) rfl) .nil) kept)

/-- A block opens a scope for its body. -/
theorem expands_block (walked : Walked known place trail t)
    (isKind : t.kind? = some "BlockStatement") :
    Expands known j (j.open_ { kind := .block, node := t, parent := some place.scope },
      [.visit (place.inside .block j.next) (t.get "body")]) (t.traced trail) := by
  -- It is not the body of a function, which would share the scope of the function.
  have isBlock : t.isA "BlockStatement" := beq_iff_eq.mpr isKind
  have opens : scopeKind? trail t = some .block := by
    rw [scopeKind?, isKind]
    exact if_neg (by simp [walked.block isBlock])
  have held := alike_held (walked.sound.self (isNode_of_isA isBlock)).1 (by rw [isKind]; rfl) trail
  exact expands_open opens walked.placed (.cons (walked.inside opens (by decide)) .nil) held

/-- A catch clause opens a scope for its parameter and its block. -/
theorem expands_handler (walked : Walked known place trail t)
    (isKind : t.kind? = some "CatchClause") :
    Expands known j (ofHandler j place t) (t.traced trail) := by
  have isNode : t.isNode := isNode_of_isA (beq_iff_eq.mpr isKind)
  obtain ⟨regular, patterns⟩ := walked.sound.self isNode
  have opens : scopeKind? trail t = some .catch := by rw [scopeKind?, isKind]; rfl
  -- The parameter belongs to the scope of the clause, and so does what stands in its block.
  have bound : Bound (known.opened j trail) .catchParameter j.next
      (.field t "param" :: trail) := by
    refine ⟨trail, ?_, fun number holds => holds.2⟩
    rw [binding?_of_kind isKind (by decide)]
    unfold declares?
    rw [isKind]
    rfl
  have isPattern : (t.get "param").isBindingPattern :=
    patterns _ (by rw [Tree.targets, isKind]; exact List.mem_singleton_self _)
  have placed : Placed (known.opened j trail) (.field t "param" :: trail)
      (place.inside .catch j.next) :=
    walked.placed.inside opens (bindsVar_of_clear walked.clear) (by decide)
  have param : Finds (known.opened j trail)
      (.pattern .catchParameter (place.inside .catch j.next) (t.get "param"))
      ((t.get "param").traced (.field t "param" :: trail)) :=
    .pattern bound placed isPattern (walked.sound.get rfl)
  have body := walked.inside (j := j) opens (by decide)
  have held := alike_held regular (by rw [isKind]; rfl) trail
  exact expands_open opens walked.placed (.cons param (.cons body .nil)) held

/-- A call is walked part by part. -/
theorem expands_call (walked : Walked known place trail t)
    (isKind : t.kind? = some "CallExpression") :
    Expands known j
      (if (t.get "callee").isNamed "eval" then
        j.noteEval { spot := (t.get "callee").mark.spot } else j,
        [.visit place (t.get "callee"), .visit place (t.get "arguments")]) (t.traced trail) := by
  -- Noting a call of `eval` leaves the scopes and the names.
  have regular := (walked.sound.self (isNode_of_isA (beq_iff_eq.mpr isKind))).1
  have closed : scopeKind? trail t = none := by rw [scopeKind?, isKind]; rfl
  have kept := alike_kept regular isKind rfl closed (by decide)
  refine expands_pass (by split <;> rfl) (by split <;> rfl) (.alike
    (.cons (walked.get closed (clear_key (by decide)) rfl)
      (.cons (walked.get closed (clear_key (by decide)) rfl) .nil)) kept)

/-- An attempt is walked part by part, its handler as a catch clause. -/
theorem expands_try (walked : Walked known place trail t)
    (isKind : t.kind? = some "TryStatement") :
    Expands known j (j, [.visit place (t.get "block")] ++
      (if (t.get "handler").isNode then [.handler place (t.get "handler")] else []) ++
      [.visit place (t.get "finalizer")]) (t.traced trail) := by
  have regular := (walked.sound.self (isNode_of_isA (beq_iff_eq.mpr isKind))).1
  have closed : scopeKind? trail t = none := by rw [scopeKind?, isKind]; rfl
  have kept := alike_kept regular isKind rfl closed (by decide)
  have tried := walked.get closed (clear_key (by decide) : binding?
    (.field t "block" :: trail) = none) rfl
  have finalizer := walked.get closed (clear_key (by decide) : binding?
    (.field t "finalizer" :: trail) = none) rfl
  have handler : FindsAll known
      (if (t.get "handler").isNode then [.handler place (t.get "handler")] else [])
      ((t.get "handler").traced (.field t "handler" :: trail)) := by
    -- A handler is a catch clause, or there is none.
    rcases regular.handled (beq_iff_eq.mpr isKind) with isClause | absent
    · rw [if_pos (isNode_of_isA isClause)]
      refine (Finds.handler isClause (walked.below closed (clear_key (by decide))
        (fun quiet => ?_) (walked.sound.get rfl))).single
      exact Tree.isQuiet_get quiet (entered_of_closed closed) rfl
    · cases value : t.get "handler" with
      | null => exact .nil
      | _ => rw [value] at absent; cases absent
  refine expands_pass rfl rfl (.alike ((tried.single.append handler).append finalizer.single)
    (.trans (.of_perm (.of_eq ?_)) kept))
  simp

/-- The word of a declaration stands for a kind of binding. -/
theorem bindingKind_eq {word : Tree} {kind : BindingKind} (stands : wordKind? word = some kind) :
    bindingKind word = kind := by
  -- The words are tried in another order here, and the last one is not tested.
  rw [wordKind?] at stands
  rw [bindingKind]
  split at stands
  · rename_i isVar
    rw [Tree.isText, beq_iff_eq] at isVar
    cases stands
    simp [Tree.isText, isVar]
    decide
  · split at stands
    · rename_i isLet
      cases stands
      exact if_pos isLet
    · rename_i noLet
      split at stands
      · rename_i isConst
        cases stands
        rw [if_neg noLet, if_pos isConst]
      · cases stands

section Declarator

variable {kind : BindingKind} {d : Tree} {index : Nat} (walked : Walked known place trail t)
  (isA : t.isA "VariableDeclaration") (isDeclarator : d.isA "VariableDeclarator")

include walked isA

/-- The declarators of a declaration lie where it does. -/
theorem placed_declarator :
    Placed known (.element index :: .field t "declarations" :: trail) place := by
  -- A declaration opens no scope.
  have closed : scopeKind? trail t = none := by rw [scopeKind?, beq_iff_eq.mp isA]; rfl
  exact walked.placed.closed closed (bindsVar_of_clear walked.clear)

include isDeclarator

/-- An initializer is walked where its declaration is. -/
theorem walked_init (sound : d.Sound) :
    Walked known place (.field d "init" :: .element index :: .field t "declarations" :: trail)
      (d.get "init") := by
  have closed : scopeKind? trail t = none := by rw [scopeKind?, beq_iff_eq.mp isA]; rfl
  have shut : scopeKind? (.element index :: .field t "declarations" :: trail) d = none := by
    rw [scopeKind?, beq_iff_eq.mp isDeclarator]; rfl
  have later : bindsVar d "init" (.element index :: .field t "declarations" :: trail) = false := by
    simp [bindsVar]
  refine ⟨clear_key (by decide), (placed_declarator walked isA).closed shut later, ?_,
    fun _ => ?_, sound.get rfl⟩
  · -- A declaration is not quiet, so it lies in the nearest scope above, and its parts do.
    refine walked.lies.imp (fun quiet => ?_) fun lies => ?_
    · have declares : t.isDeclaration := by simp [Tree.isDeclaration, isA]
      rw [Tree.isDeclaration_eq_false quiet] at declares
      cases declares
    · rw [enclosing_closed shut later, enclosing, scopeOf, shut, scopeOf, scopeOf, closed,
        enclosing_closed closed (bindsVar_of_clear walked.clear)]
      exact lies
  · rw [isFunctionBody, beq_iff_eq.mp isDeclarator]
    rfl

/-- A pattern lies where its declaration does, or where its names go if they are those of a
`var`. -/
theorem placed_id (stands : wordKind? (t.get "kind") = some kind) :
    Placed known (.field d "id" :: .element index :: .field t "declarations" :: trail)
      (if kind = .var then place.hoisted else place) := by
  have around := @placed_declarator known place trail t index walked isA
  have shut : scopeKind? (.element index :: .field t "declarations" :: trail) d = none := by
    rw [scopeKind?, beq_iff_eq.mp isDeclarator]; rfl
  have binds : bindsVar d "id" (.element index :: .field t "declarations" :: trail) =
      (kind == .var) := by
    simp [bindsVar, isDeclarator, isA, stands]
  split
  · rename_i isVar
    intro number holds
    have above : hoistOf (.field d "id" :: .element index :: .field t "declarations" :: trail) =
        hoistOf (.element index :: .field t "declarations" :: trail) := by
      simp [hoistOf, entered_of_closed shut]
    rw [enclosing, binds, isVar, above]
    exact ⟨(around number holds).2, (around number holds).2⟩
  · rename_i noVar
    exact around.closed shut (by rw [binds]; simpa using noVar)

/-- A declarator counts by its pattern and its initializer. -/
theorem findsAll_declarator (stands : wordKind? (t.get "kind") = some kind) (sound : d.Sound)
    (bound : Bound known kind (if kind = .var then place.hoisted else place).scope
      (.field t "declarations" :: trail)) :
    FindsAll known
      [.pattern kind (if kind = .var then place.hoisted else place) (d.get "id"),
        .visit place (d.get "init")]
      (d.traced (.element index :: .field t "declarations" :: trail)) := by
  have isKind : d.kind? = some "VariableDeclarator" := beq_iff_eq.mp isDeclarator
  obtain ⟨regular, patterns⟩ := sound.self (isNode_of_isA isDeclarator)
  have shut : scopeKind? (.element index :: .field t "declarations" :: trail) d = none := by
    rw [scopeKind?, isKind]; rfl
  have isPattern : (d.get "id").isBindingPattern :=
    patterns _ (by rw [Tree.targets, isKind]; exact List.mem_singleton_self _)
  have target := (bound.element index).leads
    (leads_of_kind isKind (by decide) : (Link.field d "id").leads)
  exact .alike (.cons (.pattern target (placed_id walked isA isDeclarator stands) isPattern
    (sound.get rfl)) (.cons (.visit (walked_init walked isA isDeclarator sound)) .nil))
    (alike_kept regular isKind rfl shut (by decide))

end Declarator

/-- A declaration binds the names of its patterns, and its initializers are walked. -/
theorem expands_declaration (walked : Walked known place trail t)
    (isKind : t.kind? = some "VariableDeclaration") :
    Expands known j (j, ofDeclaration j place t) (t.traced trail) := by
  have isA : t.isA "VariableDeclaration" := beq_iff_eq.mpr isKind
  have regular := (walked.sound.self (isNode_of_isA isA)).1
  have closed : scopeKind? trail t = none := by rw [scopeKind?, isKind]; rfl
  obtain ⟨kind, stands⟩ := Option.isSome_iff_exists.mp (regular.word isA)
  -- The names of a `var` go to the function around, all others to the nearest scope.
  have bound : Bound known kind (if kind = .var then place.hoisted else place).scope
      (.field t "declarations" :: trail) := by
    refine ⟨if kind = .var then hoistOf trail else scopeOf trail, ?_, fun number holds => ?_⟩
    · rw [binding?_of_kind isKind (by decide)]
      unfold declares?
      rw [isKind]
      exact congrArg (Option.map _) stands
    · split
      · exact (walked.placed number holds).2
      · exact walked.declaration (by simp [Tree.isDeclaration, isA]) holds
  rw [ofDeclaration, bindingKind_eq stands, hoist_journal]
  refine expands_pass rfl rfl (.alike ?_ (alike_kept regular isKind rfl closed (by decide)))
  rw [List.flatMap_cons, List.flatMap_nil, List.append_nil]
  refine findsAll_series (regular.series "declarations" (by decide)) fun d held index => ?_
  exact findsAll_declarator walked isA (regular.declared isA d held) stands
    ((walked.sound.get rfl).item held) bound

/-- An import binds its local names. -/
theorem expands_import (walked : Walked known place trail t)
    (isKind : t.kind? = some "ImportDeclaration") :
    Expands known j (j, (t.get "specifiers").items.map fun s =>
      .name .imported place (s.get "local")) (t.traced trail) := by
  have isA : t.isA "ImportDeclaration" := beq_iff_eq.mpr isKind
  have regular := (walked.sound.self (isNode_of_isA isA)).1
  have closed : scopeKind? trail t = none := by rw [scopeKind?, isKind]; rfl
  have declares : t.isDeclaration := by simp [Tree.isDeclaration, isA]
  have bound : Bound known .imported place.scope (.field t "specifiers" :: trail) := by
    refine ⟨scopeOf trail, ?_, fun number holds => walked.declaration declares holds⟩
    rw [binding?_of_kind isKind (by decide)]
    unfold declares?
    rw [isKind]
    rfl
  have kept := alike_kept regular isKind rfl closed (by decide)
  refine expands_pass rfl rfl (.alike ?_ kept)
  rw [List.map_eq_flatMap, List.flatMap_cons, List.flatMap_nil, List.append_nil]
  refine findsAll_series (regular.series "specifiers" (by decide)) fun s held index => ?_
  -- All kinds of specifiers hold the name in the same field.
  have inner : s.Sound := (walked.sound.get rfl).item held
  have specifier {kind : String} (isKind' : s.kind? = some kind)
      (row : Tree.boundIn? (some kind) = some ["local"]) (listed : (kind, "local") ∈ leading)
      (shut : scopeKind? (.element index :: .field t "specifiers" :: trail) s = none)
      (other : kind ≠ "Identifier") :
      FindsAll known [.name .imported place (s.get "local")]
        (s.traced (.element index :: .field t "specifiers" :: trail)) := by
    have tidy := (inner.self (isNode_of_isA (beq_iff_eq.mpr isKind'))).1
    have target := (bound.element index).leads (leads_of_kind isKind' listed)
    have parts := alike_kept tidy isKind' row shut other
    exact .alike (.cons (.name target tidy.local_ (inner.get rfl)) .nil) parts
  have kinds := regular.imported isA s held
  simp only [Tree.isA, beq_iff_eq] at kinds
  rcases kinds with isKind' | isKind' | isKind'
  · exact specifier isKind' rfl (by decide) (by rw [scopeKind?, isKind']; rfl) (by decide)
  · exact specifier isKind' rfl (by decide) (by rw [scopeKind?, isKind']; rfl) (by decide)
  · exact specifier isKind' rfl (by decide) (by rw [scopeKind?, isKind']; rfl) (by decide)

/-- A property of a pattern counts by its value, and by its key if that is computed. -/
theorem findsAll_property {kind : BindingKind} (bound : Bound known kind place.scope trail)
    (placed : Placed known trail place) (isProperty : t.isA "Property")
    (isPattern : (t.get "value").isBindingPattern) (sound : t.Sound) :
    FindsAll known
      ((if (t.get "computed").isSet then [.visit place (t.get "key")] else []) ++
        [.pattern kind place (t.get "value")]) (t.traced trail) := by
  have isKind : t.kind? = some "Property" := beq_iff_eq.mp isProperty
  have regular := (sound.self (isNode_of_isA isProperty)).1
  have closed : scopeKind? trail t = none := by rw [scopeKind?, isKind]; rfl
  have kept := alike_kept regular isKind rfl closed (by decide)
  have plain (key : String) : bindsVar t key trail = false :=
    bindsVar_of_kind isKind (by decide)
  have value : Finds known (.pattern kind place (t.get "value"))
      ((t.get "value").traced (.field t "value" :: trail)) :=
    .pattern (bound.leads (leads_of_kind isKind (by decide))) (placed.closed closed (plain _))
      isPattern (sound.get rfl)
  cases computed : (t.get "computed").isSet with
  | true =>
    have key : Walked known place (.field t "key" :: trail) (t.get "key") :=
      walked_expression sound (isNode_of_isA isProperty) (by decide)
        (placed.closed closed (plain _))
    exact .alike (.cons (.visit key) (.cons value .nil)) kept
  | false =>
    -- A key that is not computed is a name or a literal.
    have silent := alike_inert (regular.plain isProperty computed)
      (clear_key (by decide) : binding? (.field t "key" :: trail) = none)
    exact .alike (.cons value .nil) (.trans (silent.symm.append (.refl _)) kept)

/-- A pattern binds the names in it as its trail says. -/
theorem expands_pattern {kind : BindingKind} (bound : Bound known kind place.scope trail)
    (placed : Placed known trail place) (isPattern : t.isBindingPattern) (sound : t.Sound)
    (isNode : t.isNode) : Expands known j (j, ofPattern kind place t) (t.traced trail) := by
  have regular := (sound.self isNode).1
  -- A pattern that is no name counts only by what it holds, and leads on to the names in it.
  have inside {form : String} (key : String) {keys : List String} (isKind : t.kind? = some form)
      (row : Tree.boundIn? (some form) = some keys) (unruled : form ∉ ruled)
      (listed : (form, key) ∈ leading)
      (other : form ≠ "Identifier" ∧ form ≠ "VariableDeclarator") :
      Bound known kind place.scope (.field t key :: trail) ∧
        (∀ key, Placed known (.field t key :: trail) place) ∧
        Alike (keys.flatMap fun key => (t.get key).traced (.field t key :: trail))
          (t.traced trail) := by
    have closed : scopeKind? trail t = none :=
      scopeKind?_unruled (kind_ne_of_unruled (beq_iff_eq.mpr isKind) unruled)
    exact ⟨bound.leads (leads_of_kind isKind listed),
      fun key => placed.closed closed (bindsVar_of_kind isKind other.2),
      alike_kept regular isKind row closed other.1⟩
  rw [Tree.isBindingPattern_eq] at isPattern
  unfold ofPattern
  split
  · rename_i isKind
    exact expands_pass rfl rfl (Finds.name bound (.inl (beq_iff_eq.mpr isKind)) sound).single
  · rename_i isKind
    rw [isKind] at isPattern
    obtain ⟨inner, lies, kept⟩ := inside "properties" isKind rfl (by decide) (by decide) (by decide)
    refine expands_pass rfl rfl (.alike ?_ kept)
    rw [List.flatMap_cons, List.flatMap_nil, List.append_nil]
    refine findsAll_series (regular.series "properties" (by decide)) fun property held index => ?_
    have part := List.all_eq_true.mp isPattern property held
    have below : property.Sound := (sound.get rfl).item held
    split
    · rename_i isProperty
      rw [if_pos isProperty] at part
      exact findsAll_property (inner.element index) (lies _) isProperty part below
    · rename_i other
      rw [if_neg other] at part
      exact (Finds.pattern (inner.element index) (lies _) part below).single
  · rename_i isKind
    rw [isKind] at isPattern
    obtain ⟨inner, lies, kept⟩ := inside "elements" isKind rfl (by decide) (by decide) (by decide)
    refine expands_pass rfl rfl (.alike ?_ kept)
    rw [List.map_eq_flatMap, List.flatMap_cons, List.flatMap_nil, List.append_nil]
    refine findsAll_series (regular.series "elements" (by decide)) fun element held index => ?_
    exact (Finds.pattern (inner.element index) (lies _)
      (List.all_eq_true.mp isPattern element held) ((sound.get rfl).item held)).single
  · rename_i isKind
    rw [isKind] at isPattern
    obtain ⟨inner, lies, kept⟩ := inside "argument" isKind rfl (by decide) (by decide) (by decide)
    exact expands_pass rfl rfl
      (.alike (.cons (.pattern inner (lies _) isPattern (sound.get rfl)) .nil) kept)
  · rename_i isKind
    rw [isKind] at isPattern
    obtain ⟨inner, lies, kept⟩ := inside "left" isKind rfl (by decide) (by decide) (by decide)
    have initial : Walked known place (.field t "right" :: trail) (t.get "right") :=
      walked_expression sound isNode (by decide) (lies _)
    exact expands_pass rfl rfl (.alike (.cons (.pattern inner (lies _) isPattern (sound.get rfl))
      (.cons (.visit initial) .nil)) kept)
  · -- Nothing else is a pattern.
    split at isPattern
    any_goals contradiction
    cases t with
    | null => cases isNode
    | _ => cases isPattern

/-- A name is bound in the scope of its trail. -/
theorem expands_name {kind : BindingKind} (bound : Bound known kind place.scope trail)
    (isName : t.isIdentifier ∨ t.isNull) (sound : t.Sound) :
    Expands known j (expand j (.name kind place t)) (t.traced trail) := by
  rcases isName with isName | absent
  · have isKind : t.kind? = some "Identifier" := beq_iff_eq.mp isName
    have closed : scopeKind? trail t = none := by rw [scopeKind?, isKind]; rfl
    -- The name is recorded under the number of the scope that its trail declares it in.
    obtain ⟨target, declared, numbered⟩ := bound
    have held := alike_held (sound.self (isNode_of_isA isName)).1 (by rw [isKind]; rfl) trail
    refine ⟨[], [(trail, t)], [], held, ?_, .nil⟩
    constructor
    · simp [openings, opening?, closed]
    · simp [expand, isName, Journal.next, Journal.bind]
    · simp [expand, isName, Journal.bind]
    · intro number holds
      simp [expand, isName, Journal.bind, declarations, declared, numbered number holds.1]
  · cases t with
    | null => exact expands_pass rfl rfl .nil
    | _ => cases absent

end Rules

/-- One step of the walk: a task that is set for some nodes adds some of them to the record and
leaves tasks that are set for the others. -/
theorem Finds.expand {known : Known} {task : Task Place} {found : List (Trail × Tree)}
    (finds : Finds known task found) (j : Journal) : Expands known j (expand j task) found := by
  cases finds with
  | @visit place trail t walked =>
    cases t with
    | list items =>
      refine expands_pass rfl rfl ?_
      rw [List.map_eq_flatMap]
      exact findsAll_items fun item held index => (walked.item held index).single
    | node kind mark fields =>
      show Expands known j (ofNode j place (.node kind mark fields)) _
      -- One case for each rule, in the order in which the walk tries them.
      unfold ofNode
      split
      · exact expands_program walked ‹_›
      · exact expands_block walked ‹_›
      · exact expands_declaration walked ‹_›
      · exact expands_import walked ‹_›
      · exact expands_functionDeclaration walked ‹_›
      · exact expands_functionExpression walked ‹_›
      · exact expands_arrow walked (.inl ‹_›)
      · exact expands_arrow walked (.inr ‹_›)
      · exact expands_classDeclaration walked ‹_›
      · exact expands_class walked (.inl ⟨rfl, ‹_›⟩)
      · exact expands_class walked (.inr ⟨rfl, ‹_›⟩)
      · exact expands_call walked ‹_›
      · exact expands_try walked ‹_›
      · exact expands_handler walked ‹_›
      · -- No rule applied.
        refine expands_unruled walked (fun rule listed same => ?_) rfl
        simp only [ruled, List.mem_cons, List.not_mem_nil, or_false] at listed
        rcases listed with rfl | rfl | rfl | rfl | rfl | rfl | rfl | rfl | rfl | rfl | rfl | rfl |
          rfl | rfl <;> contradiction
    | _ => exact expands_pass rfl rfl .nil
  | @pattern kind place trail t bound placed isPattern sound =>
    cases t with
    | node node mark fields => exact expands_pattern bound placed isPattern sound rfl
    | list items =>
      rw [Tree.isBindingPattern_eq] at isPattern
      cases isPattern
    | _ => exact expands_pass rfl rfl .nil
  | name bound isName sound => exact expands_name bound isName sound
  | @handler place trail t isClause walked =>
    cases t with
    | node kind mark fields => exact expands_handler walked (beq_iff_eq.mp isClause)
    | _ => cases isClause
  | @classBody place trail t isClass walked =>
    cases t with
    | node kind mark fields => exact expands_classBody walked isClass rfl
    | _ => cases isClass

/-- The whole walk: carrying out a task that is set for some nodes adds them all to the record. -/
theorem Finds.run {known : Known} {task : Task Place} {found : List (Trail × Tree)}
    (finds : Finds known task found) (j : Journal) : Records known j found (task.run j) := by
  -- Induction over the walk: one task is expanded, and the tasks it leaves are smaller.
  induction task using Task.induction generalizing known found j with
  | step task ih =>
    obtain ⟨opened, own, rest, alike, adds, left⟩ := finds.expand j
    have later := left.records (fun rest member => ih j rest member) (Task.expand j task).1
    rw [Task.run_eq]
    exact (adds.trans later).alike alike

end Task

end Scope

end ModuleLift
