import ModuleLift.Proofs.Scope.Grammatical

/-! Keeping account of an analysis: which nodes a task of the walk is about, and what it means that
a record takes up the scopes these nodes open and the names declared among them. -/

namespace ModuleLift

open scoped List

namespace Scope

/-- A scope as it is recorded, if scopes have these numbers. -/
def Opening.entry (number : Trail → Nat) (opening : Opening) : ScopeEntry :=
  { kind := opening.kind, node := opening.node, parent := opening.parent.map number }

/-- What is known of the numbers that scopes have. -/
abbrev Known := (Trail → Nat) → Prop

/-- What is known after some scopes were opened in this order. -/
def Known.after (known : Known) (j : Journal) (opened : List Opening) : Known :=
  fun number => known number ∧
    opened.map (fun opening => number opening.trail) = List.range' j.next opened.length

/-- What is known after the node at a trail has opened a scope. -/
def Known.opened (known : Known) (j : Journal) (trail : Trail) : Known :=
  fun number => known number ∧ number trail = j.next

section Records

variable {known : Known} {j j' j'' : Journal} {found other : List (Trail × Tree)}
  {opened : List Opening}

/-- What is added to a record: the scopes that some nodes open, in this order, and the names that
are declared among these nodes, if scopes are numbered in that order. -/
structure RecordsAs (opened : List Opening) (known : Known) (j : Journal)
    (found : List (Trail × Tree)) (j' : Journal) : Prop where
  order : opened ~ openings found
  count : j'.next = j.next + opened.length
  scopes : ∀ number, known.after j opened number →
    j'.scopes = j.scopes ++ opened.map (Opening.entry number)
  bindings : ∀ number, known.after j opened number →
    j'.bindings ~ j.bindings ++ (declarations found).map fun entry => (number entry.1, entry.2)

/-- Adding the scopes that some nodes open, in any order, and the names declared among them. -/
def Records (known : Known) (j : Journal) (found : List (Trail × Tree)) (j' : Journal) : Prop :=
  ∃ opened, RecordsAs opened known j found j'

/-- A step that opens no scope and binds no name. -/
theorem recordsAs_nil (scopes : j'.scopes = j.scopes) (bindings : j'.bindings = j.bindings) :
    RecordsAs [] known j [] j' :=
  ⟨.refl _, congrArg List.length scopes, fun _ _ => by simp [scopes], fun number _ => by
    simp [declarations, bindings]⟩

/-- Nodes that do not count make no difference. -/
theorem Records.alike (records : Records known j found j') (alike : Alike found other) :
    Records known j other j' := by
  -- The scopes opened and the names bound are those that count.
  obtain ⟨opened, order, count, scopes, bindings⟩ := records
  refine ⟨opened, order.trans alike.openings, count, scopes, fun number holds => ?_⟩
  exact (bindings number holds).trans ((alike.declarations.map _).append_left _)

/-- More may be known of the numbers. -/
theorem Records.mono {more : Known} (records : Records known j found j')
    (implies : ∀ number, more number → known number) : Records more j found j' := by
  -- A numbering that satisfies more is one of those spoken of.
  obtain ⟨opened, order, count, scopes, bindings⟩ := records
  exact ⟨opened, order, count, fun number holds => scopes number ⟨implies number holds.1, holds.2⟩,
    fun number holds => bindings number ⟨implies number holds.1, holds.2⟩⟩

/-- What follows can rely on the numbers of the scopes that were opened before. -/
theorem RecordsAs.trans (here : RecordsAs opened known j found j')
    (later : Records (known.after j opened) j' other j'') :
    Records known j (found ++ other) j'' := by
  obtain ⟨more, order, count, scopes, bindings⟩ := later
  -- The scopes opened later are numbered from where the others end.
  have divide {number : Trail → Nat} (holds : known.after j (opened ++ more) number) :
      known.after j opened number ∧ (known.after j opened).after j' more number := by
    obtain ⟨holds, numbered⟩ := holds
    rw [List.length_append, List.map_append, ← List.range'_append_1] at numbered
    obtain ⟨first, second⟩ := List.append_inj numbered (by simp)
    exact ⟨⟨holds, first⟩, ⟨holds, first⟩, by rw [here.count]; exact second⟩
  refine ⟨opened ++ more, ?_, ?_, fun number holds => ?_, fun number holds => ?_⟩
  · rw [openings_append]
    exact here.order.append order
  · rw [count, here.count, List.length_append, Nat.add_assoc]
  · obtain ⟨before, after⟩ := divide holds
    rw [scopes number after, here.scopes number before, List.map_append, List.append_assoc]
  · obtain ⟨before, after⟩ := divide holds
    rw [declarations_append, List.map_append, ← List.append_assoc]
    exact (bindings number after).trans ((here.bindings number before).append_right _)

/-- One walk after the other. -/
theorem Records.trans (here : Records known j found j') (later : Records known j' other j'') :
    Records known j (found ++ other) j'' := by
  -- The later walk starts from what the first one opened.
  obtain ⟨opened, here⟩ := here
  exact here.trans (later.mono fun number holds => holds.1)

end Records

/-- Whether the scopes around a trail have the numbers of a place. -/
def Placed (known : Known) (trail : Trail) (place : Place) : Prop :=
  ∀ number, known number →
    number (enclosing trail) = place.scope ∧ number (hoistOf trail) = place.hoist

/-- A value to be walked: nothing is declared right where it stands, its place is that of its trail,
it lies in the nearest scope above unless it is quiet, and it is not the block of a function. -/
structure Walked (known : Known) (place : Place) (trail : Trail) (t : Tree) : Prop where
  clear : binding? trail = none
  placed : Placed known trail place
  lies : t.isQuiet ∨ enclosing trail = scopeOf trail
  block : t.isA "BlockStatement" → isFunctionBody trail = false
  sound : t.Sound

/-- Whether names at a trail are declared as of this kind, in the scope of this number. -/
def Bound (known : Known) (kind : BindingKind) (scope : Nat) (trail : Trail) : Prop :=
  ∃ target, binding? trail = some (kind, target) ∧ ∀ number, known number → number target = scope

/-- What an element of a list binds is bound as the list says. -/
theorem Bound.element {known : Known} {kind : BindingKind} {scope : Nat} {trail : Trail}
    (bound : Bound known kind scope trail) (index : Nat) :
    Bound known kind scope (.element index :: trail) := bound

/-- What leads on to names leads on to names declared in the same way. -/
theorem Bound.leads {known : Known} {kind : BindingKind} {scope : Nat} {trail : Trail}
    (bound : Bound known kind scope trail) {t : Tree} {key : String}
    (leads : (Link.field t key).leads) : Bound known kind scope (.field t key :: trail) := by
  rwa [Bound, binding?_leads leads]

namespace Task

/-- The nodes that a task is about, if it is set for them. -/
inductive Finds (known : Known) : Task Place → List (Trail × Tree) → Prop where
  | visit {place : Place} {trail : Trail} {t : Tree} (walked : Walked known place trail t) :
    Finds known (.visit place t) (t.traced trail)
  | pattern {kind : BindingKind} {place : Place} {trail : Trail} {t : Tree}
      (bound : Bound known kind place.scope trail) (placed : Placed known trail place)
      (isPattern : t.isBindingPattern) (sound : t.Sound) :
    Finds known (.pattern kind place t) (t.traced trail)
  | name {kind : BindingKind} {place : Place} {trail : Trail} {t : Tree}
      (bound : Bound known kind place.scope trail) (isName : t.isIdentifier ∨ t.isNull)
      (sound : t.Sound) :
    Finds known (.name kind place t) (t.traced trail)
  | handler {place : Place} {trail : Trail} {t : Tree} (isClause : t.isA "CatchClause")
      (walked : Walked known place trail t) :
    Finds known (.handler place t) (t.traced trail)
  -- The superclass is a task of its own.
  | classBody {place : Place} {trail : Trail} {t : Tree}
      (isClass : scopeKind? trail t = some .classBody) (walked : Walked known place trail t) :
    Finds known (.classBody place (t.isA "ClassExpression") t)
      ((trail, t) :: ((t.get "body").traced (.field t "body" :: trail) ++
        if t.isA "ClassExpression" then (t.get "id").traced (.field t "id" :: trail) else []))

/-- The nodes that some tasks are about, up to nodes that do not count. -/
inductive FindsAll (known : Known) : List (Task Place) → List (Trail × Tree) → Prop where
  | nil : FindsAll known [] []
  | cons {task : Task Place} {tasks : List (Task Place)} {here rest : List (Trail × Tree)}
      (first : Finds known task here) (later : FindsAll known tasks rest) :
    FindsAll known (task :: tasks) (here ++ rest)
  | alike {tasks : List (Task Place)} {found other : List (Trail × Tree)}
      (finds : FindsAll known tasks found) (alike : Alike found other) :
    FindsAll known tasks other

/-- What a step does if it is set for some nodes: it adds some of them to the record itself, and
leaves tasks that are about the others. -/
def Expands (known : Known) (j : Journal) (step : Journal × List (Task Place))
    (found : List (Trail × Tree)) : Prop :=
  ∃ opened own rest, Alike (own ++ rest) found ∧ RecordsAs opened known j own step.1 ∧
    FindsAll (known.after j opened) step.2 rest

section Finds

variable {known : Known} {j j' : Journal} {found rest : List (Trail × Tree)}
  {tasks : List (Task Place)}
  {trail : Trail} {t : Tree}

/-- Tasks one after the other find what both find. -/
theorem FindsAll.append {more : List (Task Place)} (here : FindsAll known tasks found)
    (later : FindsAll known more rest) : FindsAll known (tasks ++ more) (found ++ rest) := by
  -- Induction over the derivation, whose lists of tasks grow at the front.
  induction here with
  | nil => exact later
  | cons first _ ih =>
    rw [List.cons_append, List.append_assoc]
    exact .cons first ih
  | alike _ alike ih => exact ih.alike (alike.append (.refl rest))

/-- A task alone finds what it finds. -/
theorem Finds.single {task : Task Place} (finds : Finds known task found) :
    FindsAll known [task] found := by
  -- No other task follows it.
  have single := FindsAll.cons finds .nil
  rwa [List.append_nil] at single

/-- The tasks for the elements of a list are about the list. -/
theorem findsAll_items {items : List Tree} {left : Tree → List (Task Place)}
    (each : ∀ item ∈ items, ∀ index,
      FindsAll known (left item) (item.traced (.element index :: trail))) :
    FindsAll known (items.flatMap left) ((Tree.list items).traced trail) := by
  -- Induction over the elements, from any index on.
  rw [Tree.traced]
  generalize 0 = index
  induction items generalizing index with
  | nil => exact .nil
  | cons item items ih =>
    rw [List.flatMap_cons, Tree.tracedAll]
    have rest := ih (fun item held => each item (List.mem_cons_of_mem _ held)) (index + 1)
    exact (each item List.mem_cons_self index).append rest

/-- The same for what is a list or absent. -/
theorem findsAll_series {left : Tree → List (Task Place)} (series : t.isSeries)
    (each : ∀ item ∈ t.items, ∀ index,
      FindsAll known (left item) (item.traced (.element index :: trail))) :
    FindsAll known (t.items.flatMap left) (t.traced trail) := by
  -- What is absent has no elements and no nodes.
  cases t with
  | list items => exact findsAll_items each
  | null => exact .nil
  | _ => cases series

/-- Carrying out tasks in order adds what each of them adds. -/
theorem FindsAll.records (finds : FindsAll known tasks found)
    (each : ∀ task ∈ tasks, ∀ {found : List (Trail × Tree)}, Finds known task found →
      ∀ j, Records known j found (task.run j)) (j : Journal) :
    Records known j found (tasks.foldl (fun j task => task.run j) j) := by
  -- Induction over the derivation: each task starts from the record that the last one left.
  induction finds generalizing j with
  | nil => exact ⟨[], recordsAs_nil rfl rfl⟩
  | cons first _ ih =>
    have here := each _ List.mem_cons_self first j
    exact here.trans (ih (fun task left => each task (List.mem_cons_of_mem _ left)) _)
  | alike _ alike ih => exact (ih each j).alike alike

/-- A step that leaves the scopes and names recorded as they are. -/
theorem expands_pass (scopes : j'.scopes = j.scopes) (bindings : j'.bindings = j.bindings)
    (finds : FindsAll known tasks found) : Expands known j (j', tasks) found := by
  -- No scope is opened, so no more has to be known of the numbers.
  refine ⟨[], [], found, .refl _, recordsAs_nil scopes bindings, ?_⟩
  have same : known.after j [] = known := by
    funext number
    simp [Known.after]
  rwa [same]

/-- A step that opens the scope of a node. -/
theorem expands_open {kind : ScopeKind} {place : Place} (opens : scopeKind? trail t = some kind)
    (placed : Placed known trail place) (finds : FindsAll (known.opened j trail) tasks rest)
    (alike : Alike ((trail, t) :: rest) found) :
    Expands known j (j.open_ { kind, node := t, parent := some place.scope }, tasks) found := by
  refine ⟨[⟨trail, kind, t, some (enclosing trail)⟩], [(trail, t)], rest, alike, ?_, ?_⟩
  · -- A node that opens a scope is no identifier, so it declares nothing itself.
    have noName : t.isIdentifier = false := by
      by_contra isName
      rw [Bool.not_eq_false, Tree.isIdentifier, Tree.isA, beq_iff_eq] at isName
      rw [scopeKind?, isName] at opens
      cases opens
    constructor
    · simp [openings, opening?, opens]
    · simp [Journal.next, Journal.open_]
    · intro number holds
      simp [Journal.open_, Opening.entry, (placed number holds.1).1]
    · intro number _
      simp [declarations, noName, Journal.open_]
  · -- The new scope gets the next number, under the trail of the node.
    have same : known.after j [⟨trail, kind, t, some (enclosing trail)⟩] =
        known.opened j trail := by
      funext number
      simp [Known.after, Known.opened]
    rwa [same]

end Finds

end Task

section Walks

variable {known : Known} {j : Journal} {place : Place} {trail : Trail} {t value : Tree}
  {key : String} {kind : ScopeKind}

/-- The fields that hold statements and expressions declare nothing by themselves. -/
theorem clear_key (plain : key ∈ ["body", "init", "superClass", "callee", "arguments", "block",
    "handler", "finalizer", "right", "key"]) : binding? (.field t key :: trail) = none := by
  -- None of the ten names is in the list of the fields that lead on, or in a rule.
  simp only [List.mem_cons, List.not_mem_nil, or_false] at plain
  have stays : (Link.field t key).leads = false := by
    rcases plain with rfl | rfl | rfl | rfl | rfl | rfl | rfl | rfl | rfl | rfl <;>
      simp [Link.leads, leading]
  rw [binding?_stays stays]
  unfold declares?
  split
  any_goals simp at plain
  rfl

/-- A node that opens no scope is no function. -/
theorem entered_of_closed (closed : scopeKind? trail t = none) :
    Tree.isFunctionKind t.kind? = false := by
  -- Every function opens a scope.
  by_contra isFunction
  rw [scopeKind?_function (by simpa using isFunction)] at closed
  cases closed

/-- Where nothing is declared, no pattern of a `var` is. -/
theorem bindsVar_of_clear (clear : binding? trail = none) : bindsVar t key trail = false := by
  -- A declarator of a `var` would be declared by the declaration above it.
  unfold bindsVar
  split
  · rename_i index declaration above
    by_contra binds
    simp only [Bool.not_eq_false, Bool.and_eq_true, beq_iff_eq] at binds
    obtain ⟨⟨_, isKind⟩, word⟩ := binds
    rw [show binding? (.element index :: .field declaration "declarations" :: above) =
      binding? (.field declaration "declarations" :: above) from rfl,
      binding?_of_kind (beq_iff_eq.mp isKind) (by decide)] at clear
    unfold declares? at clear
    rw [beq_iff_eq.mp isKind] at clear
    simp [word] at clear
  · rfl

/-- Only declarators hold patterns of a `var`. -/
theorem bindsVar_of_kind {form : String} (isKind : t.kind? = some form)
    (other : form ≠ "VariableDeclarator") : bindsVar t key trail = false := by
  -- The first test is for the kind of declarators.
  unfold bindsVar
  split
  · simp [Tree.isA, isKind, other]
  · rfl

/-- What stands in a node that opens no scope stands where the node does. -/
theorem enclosing_closed (closed : scopeKind? trail t = none)
    (plain : bindsVar t key trail = false) :
    enclosing (.field t key :: trail) = enclosing trail := by
  -- The search for the scope goes on above the node.
  rw [enclosing, plain, closed]
  rfl

/-- The same of the numbers of its scopes. -/
theorem Placed.closed (placed : Placed known trail place) (closed : scopeKind? trail t = none)
    (plain : bindsVar t key trail = false) : Placed known (.field t key :: trail) place := by
  -- Neither the nearest scope nor the function around changes.
  intro number holds
  rw [enclosing_closed closed plain, hoistOf, entered_of_closed closed]
  exact placed number holds

/-- What stands in a function or in another node that opens a scope stands in that scope. -/
theorem Placed.inside (placed : Placed known trail place) (opens : scopeKind? trail t = some kind)
    (plain : bindsVar t key trail = false) (inner : key ≠ "superClass") :
    Placed (known.opened j trail) (.field t key :: trail) (place.inside kind j.next) := by
  -- The scope of the node is the next number; a function also becomes the place for `var`.
  intro number holds
  have isFunction : Tree.isFunctionKind t.kind? ↔ kind = .function :=
    isFunctionKind_iff_of_opens opens
  have entered : enclosing (.field t key :: trail) = trail := by
    rw [enclosing, plain, opens]
    simp [inner]
  rw [entered, hoistOf, Place.inside]
  refine ⟨holds.2, ?_⟩
  by_cases function : kind = .function
  · rw [if_pos (isFunction.mpr function), if_pos function]
    exact holds.2
  · rw [if_neg (mt isFunction.mp function), if_neg function]
    exact (placed number holds.1).2

/-- A part of a node that opens no scope is walked where the node is. -/
theorem Walked.below (walked : Walked known place trail t) (closed : scopeKind? trail t = none)
    (clear : binding? (.field t key :: trail) = none) (quiet : t.isQuiet → value.isQuiet)
    (sound : value.Sound) : Walked known place (.field t key :: trail) value := by
  -- The three facts about the place are those of the node, one field further.
  have entered := entered_of_closed closed
  have plain : bindsVar t key trail = false := bindsVar_of_clear walked.clear
  refine ⟨clear, walked.placed.closed closed plain, ?_, fun _ => ?_, sound⟩
  · refine walked.lies.imp quiet fun lies => ?_
    rw [enclosing_closed closed plain, scopeOf, closed]
    exact lies
  · rw [isFunctionBody, entered, Bool.false_and]

/-- The fields of a node that opens no scope are walked where the node is. -/
theorem Walked.get (walked : Walked known place trail t) (closed : scopeKind? trail t = none)
    (clear : binding? (.field t key :: trail) = none) (entered : Tree.isNoteKey key = false) :
    Task.Finds known (.visit place (t.get key)) ((t.get key).traced (.field t key :: trail)) := by
  -- What a quiet node holds is quiet, as it is no function.
  refine .visit (walked.below closed clear (fun quiet => ?_) (walked.sound.get entered))
  exact Tree.isQuiet_get quiet (entered_of_closed closed) entered

/-- The body of a node that opens a scope and is no function is walked in that scope. -/
theorem Walked.inside (walked : Walked known place trail t)
    (opens : scopeKind? trail t = some kind) (outer : kind ≠ .function) :
    Task.Finds (known.opened j trail) (.visit (place.inside kind j.next) (t.get "body"))
      ((t.get "body").traced (.field t "body" :: trail)) := by
  -- The body lies in the scope that was opened, and its own block would open another.
  have noFunction : Tree.isFunctionKind t.kind? = false := by
    rw [← Bool.not_eq_true, isFunctionKind_iff_of_opens opens]
    exact outer
  have plain : bindsVar t "body" trail = false := bindsVar_of_clear walked.clear
  refine .visit ⟨clear_key (by decide), walked.placed.inside opens plain (by decide), ?_,
    fun _ => by rw [isFunctionBody, noFunction, Bool.false_and], walked.sound.get rfl⟩
  right
  rw [enclosing, plain, opens, scopeOf, opens]
  rfl

/-- The elements of a list are walked where the list is. -/
theorem Walked.item (walked : Walked known place trail t) {item : Tree} (held : item ∈ t.items)
    (index : Nat) :
    Task.Finds known (.visit place item) (item.traced (.element index :: trail)) := by
  -- A link to an element changes nothing about the place.
  refine .visit ⟨walked.clear, walked.placed, ?_, fun _ => rfl, walked.sound.item held⟩
  exact walked.lies.imp_left fun quiet => Tree.isQuiet_item quiet held

/-- A declaration lies in the nearest scope above. -/
theorem Walked.declaration (walked : Walked known place trail t) (declares : t.isDeclaration)
    {number : Trail → Nat} (holds : known number) : number (scopeOf trail) = place.scope := by
  -- What is quiet holds no declarations, so the other alternative holds.
  rcases walked.lies with quiet | lies
  · rw [Tree.isDeclaration_eq_false quiet] at declares
    cases declares
  · rw [← lies]
    exact (walked.placed number holds).1

end Walks

end Scope

end ModuleLift
