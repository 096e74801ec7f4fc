import Mathlib.Data.List.Induction
import ModuleLift.Proofs.Scope.Sound

/-! The stored record of an analysis tells the same as its journal: the counter, the children and
the bindings of each scope, the climb to where a `var` belongs and the loop that lists all scopes
come to what is read off the journal. -/

namespace ModuleLift

open scoped List

/-- Bindings under their names, those of one name in the order in which they were met. -/
def gather (bindings : List Binding) : Dictionary Text (List Binding) :=
  bindings.foldl (fun held binding =>
    held.alter binding.name fun earlier => earlier.getD [] ++ [binding])
    ⟨[], List.nodup_nil⟩

/-- One more binding goes behind those of its name. -/
theorem gather_concat (bindings : List Binding) (binding : Binding) :
    gather (bindings ++ [binding]) =
      (gather bindings).alter binding.name fun earlier => earlier.getD [] ++ [binding] := by
  simp only [gather, List.foldl_append, List.foldl_cons, List.foldl_nil]

/-- Under each name that is bound stand all bindings of that name, in order. -/
theorem get?_gather (bindings : List Binding) (name : Text) :
    (gather bindings).get? name =
      if name ∈ bindings.map (·.name) then some (bindings.filter fun b => b.name = name)
      else none := by
  induction bindings using List.reverseRecOn with
  | nil => rfl
  | append_singleton bindings binding ih =>
    -- The last binding changes what stands under its own name only.
    rw [gather_concat, Dictionary.get?_alter, List.filter_append]
    by_cases same : name = binding.name
    · have held : name ∈ (bindings ++ [binding]).map (·.name) := by simp [same]
      rw [if_pos same, if_pos held, ← same, ih]
      by_cases known : name ∈ bindings.map (·.name)
      · rw [if_pos known]
        simp [same]
      · -- A name that is new has no binding before this one.
        have new : bindings.filter (fun b => b.name = name) = [] := by
          rw [List.filter_eq_nil_iff]
          intro other held equal
          exact known (List.mem_map.mpr ⟨other, held, of_decide_eq_true equal⟩)
        rw [if_neg known, new]
        simp [same]
    · have other : ¬binding.name = name := fun equal => same equal.symm
      rw [if_neg same, ih]
      simp [same, other]

/-- The names are those of the bindings. -/
theorem mem_keys_gather {bindings : List Binding} {name : Text} :
    name ∈ (gather bindings).keys ↔ name ∈ bindings.map (·.name) := by
  -- A name has an entry if some binding has that name.
  rw [Dictionary.mem_keys_iff, get?_gather]
  split <;> simp_all

namespace Journal

variable {j : Journal} {number outer target : Nat}

/-- A scope of a journal as it is stored. -/
def stored (j : Journal) (number : Nat) (entry : ScopeEntry) : Scope :=
  { id := "S" ++ toString number
    kind := entry.kind
    node := entry.node
    parent := entry.parent
    bindings := gather (j.bindingsOf number)
    children := j.children number }

/-- The ledger that tells the same as a journal. -/
def ledger (j : Journal) : Ledger :=
  { scopes := j.scopes.mapIdx j.stored, counter := j.next, evalCalls := j.evalCalls }

/-- There are as many stored scopes as were opened. -/
@[simp] theorem length_ledger (j : Journal) : j.ledger.scopes.length = j.next :=
  List.length_mapIdx

/-- A stored scope stands under the number it was opened with. -/
theorem getElem?_ledger (j : Journal) (number : Nat) :
    j.ledger.scopes[number]? = j.scopes[number]?.map (j.stored number) :=
  List.getElem?_mapIdx

/-- A scope opened in a scope is the last of those inside it. -/
theorem children_open (j : Journal) (scope : ScopeEntry) (number : Nat) :
    (j.open_ scope).children number = j.children number ++
      if number < j.next ∧ scope.parent = some number then [j.next] else [] := by
  rw [children, next_open, List.range_succ, List.filter_append, children]
  congr 1
  · -- Scopes that were open before lie where they lay.
    refine List.filter_congr fun inner opened => ?_
    rw [parent?, getElem?_of_grows (j.prefix_open scope) (List.mem_range.mp opened), parent?]
  · have lies : (j.open_ scope).parent? j.next = scope.parent := by
      rw [parent?, open_, next, List.getElem?_concat_length, Option.bind_some]
    rw [List.filter_singleton, lies]
    simp

/-- A binding goes to its own scope only. -/
theorem bindingsOf_bind (j : Journal) (scope : Nat) (binding : Binding) (number : Nat) :
    (j.bind scope binding).bindingsOf number =
      j.bindingsOf number ++ if scope = number then [binding] else [] := by
  -- The binding is the last one, and the numbers are compared.
  rw [bindingsOf, bind, List.filter_append, List.map_append, bindingsOf]
  by_cases same : scope = number <;> simp [same]

/-- No name is bound in a scope before it is opened. -/
theorem Sound.bindingsOf_next (sound : j.Sound) : j.bindingsOf j.next = [] := by
  -- In a sound record every name is bound in a scope that was opened.
  rw [bindingsOf, List.map_eq_nil_iff, List.filter_eq_nil_iff]
  intro entry held here
  have opened := (sound.bound entry held).lt_next
  rw [beq_iff_eq.mp here] at opened
  exact Nat.lt_irrefl _ opened

section Operations

variable {kind : ScopeKind} {node : Tree}

/-- A scope that has just been opened has neither names nor scopes in it. -/
theorem stored_next (sound : j.Sound) (parent : Option Nat) :
    (j.open_ { kind, node, parent }).stored j.next { kind, node, parent } =
      { id := "S" ++ toString j.next, kind, node, parent } := by
  -- Neither can there be one, for no scope has had this number yet.
  have childless : j.children j.next = [] := by
    rw [children, List.filter_eq_nil_iff]
    intro inner listed lies
    simp only [Bool.and_eq_true, decide_eq_true_eq] at lies
    exact Nat.lt_irrefl _ (Nat.lt_trans lies.1 (List.mem_range.mp listed))
  have nameless : (j.open_ { kind, node, parent }).bindingsOf j.next = [] := sound.bindingsOf_next
  rw [stored, children_open, childless, nameless, if_neg (fun lies => Nat.lt_irrefl _ lies.1)]
  rfl

/-- Opening a scope is stored as it is journaled. -/
theorem newScope_ledger (sound : j.Sound) :
    j.ledger.newScope kind node (some outer) =
      ((j.open_ { kind, node, parent := some outer }).ledger, j.next) := by
  have scopes : j.ledger.scopes.modify outer (·.addChild j.next) ++
      [{ id := "S" ++ toString j.next, kind, node, parent := some outer }] =
      (j.open_ { kind, node, parent := some outer }).ledger.scopes := by
    -- Both lists are compared at each number.
    refine List.ext_getElem? fun number => ?_
    rw [getElem?_ledger]
    rcases Nat.lt_trichotomy number j.next with old | rfl | beyond
    · -- Of the scopes that were open, the one around the new scope has one more inside it.
      rw [List.getElem?_append_left (by simpa using old), List.getElem?_modify, getElem?_ledger,
        getElem?_of_grows (j.prefix_open _) old, Option.map_eq_map, Option.map_map]
      refine congrArg (Option.map · _) (funext fun entry => ?_)
      simp only [Function.comp, stored, children_open, Option.some.injEq, old, true_and]
      split <;> simp [Scope.addChild, bindingsOf, open_]
    · have last : (j.open_ { kind, node, parent := some outer }).scopes[j.next]? =
          some { kind, node, parent := some outer } := List.getElem?_concat_length
      rw [last, Option.map_some, stored_next sound, List.getElem?_append_right (by simp)]
      simp
    · have short : (j.open_ { kind, node, parent := some outer }).scopes.length ≤ number := by
        rw [← next, next_open]
        exact beyond
      rw [List.getElem?_eq_none short,
        List.getElem?_eq_none (by simpa using Nat.succ_le_of_lt beyond)]
      rfl
  calc j.ledger.newScope kind node (some outer)
    _ = ({ j.ledger with
          scopes := j.ledger.scopes.modify outer (·.addChild j.ledger.scopes.length) ++
            [{ id := "S" ++ toString j.next, kind, node, parent := some outer }]
          counter := j.next + 1 }, j.ledger.scopes.length) := rfl
    _ = ((j.open_ { kind, node, parent := some outer }).ledger, j.next) := by
      rw [length_ledger, scopes, ← next_open]
      rfl

/-- Binding a name is stored as it is journaled. -/
theorem bind_ledger (j : Journal) (scope : Nat) (binding : Binding) :
    j.ledger.bind scope binding = (j.bind scope binding).ledger := by
  -- The scopes are compared one by one: only that of the binding changes.
  have scopes : j.ledger.scopes.modify scope (·.addBinding binding) =
      (j.bind scope binding).ledger.scopes := by
    refine List.ext_getElem? fun number => ?_
    rw [getElem?_ledger, List.getElem?_modify, getElem?_ledger, Option.map_eq_map, Option.map_map]
    refine congrArg (Option.map · _) (funext fun entry => ?_)
    simp only [Function.comp, stored, bindingsOf_bind]
    split
    · rw [gather_concat]
      rfl
    · rw [List.append_nil]
      rfl
  rw [Ledger.bind, scopes]
  rfl

/-- A climb through the stored scopes ends where it should, in fewer steps than there are scopes. -/
theorem climb_ledger (nested : j.Nested) (climbs : j.Climbs number target) {steps : Nat}
    (enough : number < steps) : j.ledger.climb steps number = target := by
  induction climbs generalizing steps with
  | here opened stops =>
    obtain ⟨steps, rfl⟩ := Nat.exists_eq_succ_of_ne_zero (Nat.ne_zero_of_lt enough)
    rw [Ledger.climb, getElem?_ledger, opened]
    rcases stops with stops | stops <;> simp [stored, stops]
  | @up number outer target scope opened passes lies further ih =>
    obtain ⟨steps, rfl⟩ := Nat.exists_eq_succ_of_ne_zero (Nat.ne_zero_of_lt enough)
    -- A scope lies in one with a smaller number, so a step less is enough from there.
    have before : outer < number := nested.lt_of_parent (by rw [parent?, opened]; exact lies)
    have rest := @ih steps (by omega)
    rw [Ledger.climb, getElem?_ledger, opened]
    obtain ⟨kind, node, parent⟩ := scope
    cases lies
    cases kind with
    | function => exact absurd rfl passes.1
    | global => exact absurd rfl passes.2
    | _ => exact rest

/-- A `var` goes where the place says. -/
theorem hoistTarget_ledger (nested : j.Nested) (climbs : j.Climbs number target) :
    j.ledger.hoistTarget number = target := by
  -- There are as many rounds as scopes, and a climb is no longer than that.
  rw [Ledger.hoistTarget, length_ledger]
  exact climb_ledger nested climbs climbs.lt_next

end Operations

section Listing

/-- The scopes stored inside a scope are those that lie in it. -/
theorem childrenOf_ledger (j : Journal) (number : Nat) :
    j.ledger.childrenOf number = j.children number := by
  rw [Ledger.childrenOf, getElem?_ledger]
  cases opened : j.scopes[number]? with
  | some entry => rfl
  | none =>
    -- Nothing lies in a scope that was not opened.
    have beyond : j.next ≤ number := List.getElem?_eq_none_iff.mp opened
    refine (List.filter_eq_nil_iff.mpr fun inner listed lies => ?_).symm
    simp only [Bool.and_eq_true, decide_eq_true_eq] at lies
    have := List.mem_range.mp listed
    omega

/-- What the loop lists in some rounds: what lies on the stack with all that is below, as far as
the rounds go. -/
theorem unstack_ledger (j : Journal) (rounds : Nat) (stack : List Nat) :
    j.ledger.unstack rounds stack = (stack.flatMap j.below).take rounds := by
  -- A round takes a scope from the stack and puts those inside it in its place.
  induction rounds generalizing stack with
  | zero => simp [Ledger.unstack]
  | succ rounds ih =>
    cases stack with
    | nil => rfl
    | cons scope stack =>
      rw [Ledger.unstack, ih, childrenOf_ledger, List.flatMap_append, List.flatMap_cons, below_eq]
      rfl

/-- The loop lists all scopes, and then its stack is empty: with more rounds it lists the same. -/
theorem Nested.unstack_ledger (nested : j.Nested) {rounds : Nat} (enough : j.next ≤ rounds) :
    j.ledger.unstack rounds [0] = j.below 0 := by
  -- Each round lists one scope, and there are no more scopes than rounds.
  have count : (j.below 0).length = j.next := by
    rw [nested.below_perm.length_eq, List.length_range]
  rw [Journal.unstack_ledger, List.flatMap_singleton, List.take_of_length_le]
  rw [count]
  exact enough

/-- All scopes are listed as they lie below the first. -/
theorem Nested.flatten_ledger (nested : j.Nested) : j.ledger.flatten = j.below 0 := by
  -- The loop has one round for each scope.
  rw [Ledger.flatten, length_ledger]
  exact nested.unstack_ledger (Nat.le_refl _)

/-- The names stored in a scope are those bound there. -/
theorem mem_namesOf_ledger {name : Text} (opened : number < j.next) :
    name ∈ j.ledger.namesOf number ↔ ∃ binding, (number, binding) ∈ j.bindings ∧
      binding.name = name := by
  -- The names of a scope are those of the bindings with its number.
  rw [Ledger.namesOf, getElem?_ledger, List.getElem?_eq_getElem opened]
  show name ∈ (gather (j.bindingsOf number)).keys ↔ _
  rw [mem_keys_gather, bindingsOf, List.map_map, List.mem_map]
  constructor
  · rintro ⟨⟨scope, binding⟩, held, rfl⟩
    obtain ⟨bound, here⟩ := List.mem_filter.mp held
    cases beq_iff_eq.mp here
    exact ⟨binding, bound, rfl⟩
  · rintro ⟨binding, bound, rfl⟩
    exact ⟨(number, binding), List.mem_filter.mpr ⟨bound, beq_self_eq_true _⟩, rfl⟩

end Listing

end Journal

namespace Scope

namespace Task

variable {ρ σ ρ' σ' : Type}

/-- The same task with its place written in another way. -/
def map (f : σ → σ') : Task σ → Task σ'
  | .visit place t => .visit (f place) t
  | .pattern kind place t => .pattern kind (f place) t
  | .name kind place t => .name kind (f place) t
  | .handler place t => .handler (f place) t
  | .classBody place ownName t => .classBody (f place) ownName t

section Keepers

variable [Keeper ρ σ] [Keeper ρ' σ']

/-- Whether two ways to keep a record agree at a place: on opening a scope there, on where a `var`
goes, and on what is noted. -/
structure Agrees (f : ρ → ρ') (g : σ → σ') (r : ρ) (place : σ) : Prop where
  enter : ∀ kind node, Keeper.enter (f r) kind node (g place) =
    (f (Keeper.enter r kind node place).1, g (Keeper.enter r kind node place).2)
  hoist : Keeper.hoist (f r) (g place) = g (Keeper.hoist r place)
  noteEval : ∀ call, Keeper.noteEval (f r) call = f (Keeper.noteEval r call)

variable {f : ρ → ρ'} {g : σ → σ'} {r : ρ} {place : σ}

/-- One step, with its record and its places written in another way. -/
def mapStep (f : ρ → ρ') (g : σ → σ') (step : ρ × List (Task σ)) : ρ' × List (Task σ') :=
  (f step.1, step.2.map (Task.map g))

/-- Where two ways agree, they make the same of a function. -/
theorem ofFunction_map (agrees : Agrees f g r place) (t : Tree) (ownName : Bool) :
    ofFunction (f r) (g place) t ownName = mapStep f g (ofFunction r place t ownName) := by
  cases ownName <;> simp [ofFunction, mapStep, agrees.enter, map]

/-- The same of a catch clause. -/
theorem ofHandler_map (agrees : Agrees f g r place) (t : Tree) :
    ofHandler (f r) (g place) t = mapStep f g (ofHandler r place t) := by
  simp [ofHandler, mapStep, agrees.enter, map]

/-- The same of a declaration. -/
theorem ofDeclaration_map (agrees : Agrees f g r place) (t : Tree) :
    ofDeclaration (f r) (g place) t = (ofDeclaration r place t).map (Task.map g) := by
  -- Where a `var` goes is the only thing that is asked of the record.
  simp only [ofDeclaration, agrees.hoist, List.map_flatMap]
  split <;> rfl

/-- The same of any node. -/
theorem ofNode_map (agrees : Agrees f g r place) (t : Tree) :
    ofNode (f r) (g place) t = mapStep f g (ofNode r place t) := by
  unfold ofNode
  split
  · rfl
  · simp [mapStep, agrees.enter, map]
  · rw [ofDeclaration_map agrees]
    rfl
  · simp [mapStep, map]
  · simp [ofFunction_map agrees, agrees.hoist, mapStep, map]
  · exact ofFunction_map agrees t true
  · exact ofFunction_map agrees t false
  · exact ofFunction_map agrees t false
  · rfl
  · rfl
  · rfl
  · -- A call of `eval` is noted in both.
    dsimp only
    split
    · rw [agrees.noteEval]
      rfl
    · rfl
  · dsimp only
    split <;> rfl
  · exact ofHandler_map agrees t
  · simp [mapStep, map]

end Keepers

/-- A pattern leaves the same tasks, wherever it stands. -/
theorem ofPattern_map (g : σ → σ') (kind : BindingKind) (place : σ) (t : Tree) :
    ofPattern kind (g place) t = (ofPattern kind place t).map (Task.map g) := by
  -- One case for each kind of pattern; none of them asks the record.
  unfold ofPattern
  split
  · rfl
  · rw [List.map_flatMap]
    refine List.flatMap_congr fun property _ => ?_
    cases property.isA "Property" <;> cases (property.get "computed").isSet <;> rfl
  · simp [map]
  · rfl
  · rfl
  · rfl

section Ledger

variable {j : Journal} {place : Place}

/-- At a place of a sound journal, the ledger and the journal agree. -/
theorem agrees_ledger (sound : j.Sound) (fits : place.Fits j) :
    Agrees Journal.ledger Place.scope j place where
  enter _ _ := Journal.newScope_ledger sound
  hoist := Journal.hoistTarget_ledger sound.nested fits
  noteEval _ := rfl

/-- One step of the walk stores what it journals, and leaves the same tasks. -/
theorem expand_ledger {task : Task Place} (sound : j.Sound) (fits : task.Fits j) :
    expand j.ledger (task.map Place.scope) =
      mapStep Journal.ledger Place.scope (expand j task) := by
  -- One case for each kind of task, as in the definition of a step.
  cases task with
  | visit place t =>
    cases t with
    | list items => simp [map, expand, mapStep]
    | node kind mark fields => exact ofNode_map (agrees_ledger sound fits) _
    | _ => rfl
  | pattern kind place t =>
    cases t with
    | node node mark fields =>
      exact congrArg (Prod.mk j.ledger) (ofPattern_map Place.scope kind place _)
    | _ => rfl
  | name kind place t =>
    simp only [map, expand, mapStep, List.map_nil]
    split
    · exact congrArg (Prod.mk · []) (j.bind_ledger place.scope _)
    · rfl
  | handler place t =>
    cases t with
    | node kind mark fields => exact ofHandler_map (agrees_ledger sound fits) _
    | _ => rfl
  | classBody place ownName t =>
    cases t with
    | node kind mark fields =>
      have enter := (agrees_ledger sound fits).enter .classBody (.node kind mark fields)
      cases ownName <;> simp [map, expand, mapStep, enter]
    | _ => rfl

/-- The whole walk stores what it journals. -/
theorem run_ledger {task : Task Place} (sound : j.Sound) (fits : task.Fits j) :
    (task.map Place.scope).run j.ledger = (task.run j).ledger := by
  induction task using Task.induction generalizing j with
  | step task ih =>
    have step := advances_expand sound fits
    -- The tasks left fit the record as it grows, so each of them stores what it journals.
    have rest (tasks : List (Task Place)) (left : ∀ rest ∈ tasks, rest ∈ (expand j task).2)
        {j' : Journal} (sound' : j'.Sound) (fits' : ∀ rest ∈ tasks, rest.Fits j') :
        (tasks.map (Task.map Place.scope)).foldl (fun l rest => rest.run l) j'.ledger =
          (tasks.foldl (fun j rest => rest.run j) j').ledger := by
      induction tasks generalizing j' with
      | nil => rfl
      | cons first tasks later =>
        obtain ⟨left, others⟩ := List.forall_mem_cons.mp left
        obtain ⟨here, fitting⟩ := List.forall_mem_cons.mp fits'
        obtain ⟨done, grown⟩ := sound_run first sound' here
        rw [List.map_cons, List.foldl_cons, List.foldl_cons, ih j first left sound' here]
        exact later others done fun rest held => (fitting rest held).mono grown
    rw [run_eq, run_eq, expand_ledger sound fits]
    exact rest _ (fun _ left => left) step.sound step.fits

end Ledger

end Task

/-- The record of an analysis tells the same as its journal. -/
theorem analyze_eq (program : Tree) : analyze program = (journal program).ledger := by
  -- The walk starts with one scope on both sides.
  obtain ⟨sound, fits⟩ := sound_start program
  exact @Task.run_ledger _ (.visit ⟨0, 0⟩ program) sound fits

section Names

variable {program : Tree} {name : Text}

/-- The names bound at the top level are those of the first scope. -/
theorem mem_topLevelNames : name ∈ (analyze program).topLevelNames ↔
    (true, name) ∈ (journal program).entries := by
  -- The flag of an entry says that its scope is the first one.
  have sound := sound_journal program
  rw [analyze_eq, Ledger.topLevelNames, Journal.mem_namesOf_ledger sound.nested.next_pos,
    Journal.entries, List.mem_map]
  constructor
  · rintro ⟨binding, bound, rfl⟩
    exact ⟨_, bound, rfl⟩
  · rintro ⟨⟨scope, binding⟩, bound, same⟩
    obtain ⟨first, rfl⟩ := Prod.mk.inj same
    rw [beq_iff_eq] at first
    cases first
    exact ⟨binding, bound, rfl⟩

/-- The names bound anywhere are those of all scopes. -/
theorem mem_boundNames : name ∈ (analyze program).boundNames ↔
    ∃ top, (top, name) ∈ (journal program).entries := by
  obtain ⟨nested, bound⟩ := sound_journal program
  rw [analyze_eq, Ledger.boundNames, List.mem_eraseDups, List.mem_flatMap, nested.flatten_ledger]
  -- Every scope is listed, and every binding stands in a scope.
  constructor
  · rintro ⟨scope, listed, held⟩
    obtain ⟨binding, known, rfl⟩ :=
      (Journal.mem_namesOf_ledger (nested.mem_below.mp listed)).mp held
    exact ⟨_, List.mem_map.mpr ⟨_, known, rfl⟩⟩
  · rintro ⟨top, held⟩
    obtain ⟨⟨scope, binding⟩, known, same⟩ := List.mem_map.mp held
    obtain ⟨_, rfl⟩ := Prod.mk.inj same
    have opened : scope < (journal program).next := (bound _ known).lt_next
    exact ⟨scope, nested.mem_below.mpr opened,
      (Journal.mem_namesOf_ledger opened).mpr ⟨binding, known, rfl⟩⟩

end Names

end Scope

end ModuleLift
