import ModuleLift.Proofs.Scope.Names
import ModuleLift.Proofs.Scope.Nested

/-! The journal of an analysis is sound, whatever tree is analysed: its scopes are nested in each
other, names stand only in scopes that can hold them, and a place says where a climb through the
scopes around it would end. Each step of the walk keeps this, and so does the whole walk. -/

namespace ModuleLift

open scoped List

/-- Whether names of a kind can be bound in scopes of a kind: what is hoisted goes to a function or
to the program, parameters stay with what they belong to. -/
def ScopeKind.admits (kind : ScopeKind) : BindingKind → Bool
  | .var => kind = .function || kind = .global
  | .function => kind = .function || kind = .global
  | .parameter => kind = .function
  | .catchParameter => kind = .catch
  | _ => true

namespace Journal

variable {j j' : Journal} {number outer : Nat} {kind : BindingKind}

/-- Whether names of a kind can be bound in the scope with a number. -/
def Admits (j : Journal) (number : Nat) (kind : BindingKind) : Prop :=
  ∃ scope, j.scopes[number]? = some scope ∧ scope.kind.admits kind

/-- A scope that a name can be bound in was opened. -/
theorem Admits.lt_next (admits : j.Admits number kind) : number < j.next := by
  -- It is looked up in the journal.
  obtain ⟨_, opened, _⟩ := admits
  exact (List.getElem?_eq_some_iff.mp opened).1

/-- Scopes keep their numbers when more are opened. -/
theorem getElem?_of_grows (grows : j.scopes <+: j'.scopes) (opened : number < j.next) :
    j'.scopes[number]? = j.scopes[number]? := by
  -- The new scopes come behind the old ones.
  obtain ⟨more, same⟩ := grows
  rw [← same, List.getElem?_append_left opened]

/-- A name can be bound in a scope also after more were opened. -/
theorem Admits.mono (admits : j.Admits number kind) (grows : j.scopes <+: j'.scopes) :
    j'.Admits number kind := by
  -- The scope keeps its number.
  obtain ⟨scope, opened, suits⟩ := admits
  exact ⟨scope, (getElem?_of_grows grows (Admits.lt_next ⟨scope, opened, suits⟩)).trans opened,
    suits⟩

/-- A scope is opened behind the others. -/
theorem prefix_open (j : Journal) (scope : ScopeEntry) : j.scopes <+: (j.open_ scope).scopes :=
  List.prefix_append _ _

/-- Opening a scope uses up one number. -/
theorem next_open (j : Journal) (scope : ScopeEntry) : (j.open_ scope).next = j.next + 1 :=
  List.length_append

/-- A scope that has just been opened admits what its kind admits. -/
theorem admits_open (j : Journal) {scope : ScopeEntry} (suits : scope.kind.admits kind) :
    (j.open_ scope).Admits j.next kind :=
  ⟨scope, List.getElem?_concat_length, suits⟩

/-- Whether a climb from a scope ends at another: at the nearest function, or at the program. -/
inductive Climbs (j : Journal) : Nat → Nat → Prop where
  | here {number : Nat} {scope : ScopeEntry} (opened : j.scopes[number]? = some scope)
    (stops : scope.kind = .function ∨ scope.kind = .global) : Climbs j number number
  | up {number outer target : Nat} {scope : ScopeEntry} (opened : j.scopes[number]? = some scope)
    (passes : scope.kind ≠ .function ∧ scope.kind ≠ .global) (lies : scope.parent = some outer)
    (further : Climbs j outer target) : Climbs j number target

/-- Only scopes that were opened are climbed. -/
theorem Climbs.lt_next {target : Nat} (climbs : j.Climbs number target) : number < j.next := by
  -- Each step of a climb looks up its scope.
  cases climbs with
  | here opened => exact (List.getElem?_eq_some_iff.mp opened).1
  | up opened => exact (List.getElem?_eq_some_iff.mp opened).1

/-- A climb ends the same way when more scopes are opened. -/
theorem Climbs.mono {target : Nat} (climbs : j.Climbs number target)
    (grows : j.scopes <+: j'.scopes) : j'.Climbs number target := by
  -- Every scope that the climb passes keeps its number.
  have kept {number : Nat} {scope : ScopeEntry} (opened : j.scopes[number]? = some scope) :
      j'.scopes[number]? = some scope :=
    (getElem?_of_grows grows (List.getElem?_eq_some_iff.mp opened).1).trans opened
  induction climbs with
  | here opened stops => exact .here (kept opened) stops
  | up opened passes lies _ ih => exact .up (kept opened) passes lies ih

/-- Where a climb ends another would not leave. -/
theorem Climbs.target {target : Nat} (climbs : j.Climbs number target) :
    j.Climbs target target := by
  -- Induction over the climb, which ends with such a scope.
  induction climbs with
  | here opened stops => exact .here opened stops
  | up _ _ _ _ ih => exact ih

/-- What is hoisted can be bound where a climb ends. -/
theorem Climbs.admits {target : Nat} (climbs : j.Climbs number target)
    (hoisted : kind = .var ∨ kind = .function) : j.Admits target kind := by
  -- A climb ends at a function or at the program, and both can bind what is hoisted.
  induction climbs with
  | here opened stops =>
    refine ⟨_, opened, ?_⟩
    rcases stops with stops | stops <;> rcases hoisted with rfl | rfl <;> rw [stops] <;> rfl
  | up _ _ _ _ ih => exact ih

/-- What holds of a record at all times: its scopes are nested, and its names are bound in scopes
that admit them. -/
structure Sound (j : Journal) : Prop where
  nested : j.Nested
  bound : ∀ entry ∈ j.bindings, j.Admits entry.1 entry.2.kind

/-- A scope opened inside of another one leaves the scopes nested. -/
theorem Nested.open_ (nested : j.Nested) (scope : ScopeEntry) (lies : scope.parent = some outer)
    (opened : outer < j.next) : (j.open_ scope).Nested := by
  have grows := j.prefix_open scope
  have before {number : Nat} (old : number < j.next) :
      (j.open_ scope).parent? number = j.parent? number := by
    rw [parent?, getElem?_of_grows grows old, parent?]
  constructor
  · rw [getElem?_of_grows grows nested.next_pos]
    exact nested.root
  · intro number later known
    rw [next_open] at known
    -- An old scope lies where it lay; the new one lies in one that is open.
    rcases Nat.lt_succ_iff_lt_or_eq.mp known with old | rfl
    · rw [before old]
      exact nested.inner number later old
    · refine ⟨outer, opened, ?_⟩
      rw [parent?, Journal.open_, next, List.getElem?_concat_length, Option.bind_some, lies]

/-- A scope opened inside of another one leaves the record sound. -/
theorem Sound.open_ (sound : j.Sound) (scope : ScopeEntry) (lies : scope.parent = some outer)
    (opened : outer < j.next) : (j.open_ scope).Sound :=
  ⟨sound.nested.open_ scope lies opened, fun entry held =>
    (sound.bound entry held).mono (j.prefix_open scope)⟩

/-- How scopes are nested is told by the scopes alone. -/
theorem Nested.congr (nested : j.Nested) (same : j'.scopes = j.scopes) : j'.Nested := by
  -- Neither condition reads anything else.
  constructor
  · rw [same]
    exact nested.root
  · rw [next, same]
    intro number later opened
    rw [parent?, same]
    exact nested.inner number later opened

/-- A name bound where it can be leaves the record sound. -/
theorem Sound.bind (sound : j.Sound) {binding : Binding} (admits : j.Admits number binding.kind) :
    (j.bind number binding).Sound := by
  -- The names bound before are still where they can be.
  refine ⟨sound.nested.congr rfl, fun entry held => ?_⟩
  rcases List.mem_append.mp held with before | new
  · exact sound.bound entry before
  · rw [List.mem_singleton.mp new]
    exact admits

/-- Taking note of a call leaves the record sound. -/
theorem Sound.noteEval (sound : j.Sound) (call : EvalCall) : (j.noteEval call).Sound :=
  ⟨sound.nested.congr rfl, sound.bound⟩

end Journal

namespace Scope

variable {j j' : Journal} {place : Place}

/-- Whether a place is one of the record: its scope has been opened, and a climb from there ends
where the place says. -/
def Place.Fits (j : Journal) (place : Place) : Prop := j.Climbs place.scope place.hoist

/-- A place stays one of the record as that grows. -/
theorem Place.Fits.mono (fits : place.Fits j) (grows : j.scopes <+: j'.scopes) : place.Fits j' :=
  Journal.Climbs.mono fits grows

/-- The scope of a place has been opened. -/
theorem Place.Fits.scope_lt (fits : place.Fits j) : place.scope < j.next :=
  Journal.Climbs.lt_next fits

/-- Where a `var` goes is again a place. -/
theorem Place.Fits.hoisted (fits : place.Fits j) : place.hoisted.Fits j :=
  Journal.Climbs.target fits

/-- A scope opened at a place is again a place: a function stops a climb, and from any other scope
it goes on where it went before. -/
theorem Place.Fits.inside (fits : place.Fits j) {kind : ScopeKind} (inner : kind ≠ .global)
    (node : Tree) :
    (place.inside kind j.next).Fits
      (j.open_ { kind, node, parent := some place.scope }) := by
  -- The new scope is the first of the climb, and for a function also the last.
  have opened : (j.open_ { kind, node, parent := some place.scope }).scopes[j.next]? =
      some { kind, node, parent := some place.scope } := List.getElem?_concat_length
  rw [Place.Fits, Place.inside]
  by_cases function : kind = .function
  · rw [if_pos function]
    exact .here opened (.inl function)
  · rw [if_neg function]
    exact .up opened ⟨function, inner⟩ rfl (Journal.Climbs.mono fits (j.prefix_open _))

namespace Task

/-- Whether a task is set for places of the record, and for names that can be bound there. -/
def Fits (j : Journal) : Task Place → Prop
  | .visit place _ => place.Fits j
  | .pattern kind place _ => place.Fits j ∧ j.Admits place.scope kind
  | .name kind place _ => j.Admits place.scope kind
  | .handler place _ => place.Fits j
  | .classBody place _ _ => place.Fits j

/-- A task fits also after more scopes were opened. -/
theorem Fits.mono {task : Task Place} (fits : task.Fits j) (grows : j.scopes <+: j'.scopes) :
    task.Fits j' := by
  -- Each of the two conditions on places does.
  cases task with
  | visit | handler | classBody => exact Place.Fits.mono fits grows
  | pattern => exact ⟨fits.1.mono grows, fits.2.mono grows⟩
  | name => exact Journal.Admits.mono fits grows

/-- What one step makes of a record: it stays sound, scopes stay, and the tasks left fit. -/
structure Advances (j : Journal) (step : Journal × List (Task Place)) : Prop where
  sound : step.1.Sound
  grows : j.scopes <+: step.1.scopes
  fits : ∀ rest ∈ step.2, rest.Fits step.1

section Rules

variable {tasks : List (Task Place)} {t : Tree} {outer : Nat}

/-- A step that adds nothing advances if the tasks it leaves fit. -/
theorem advances_pass (sound : j.Sound) (fits : ∀ rest ∈ tasks, rest.Fits j) :
    Advances j (j, tasks) := ⟨sound, List.prefix_rfl, fits⟩

/-- A step that opens a scope advances if the tasks it leaves fit there. -/
theorem advances_open (sound : j.Sound) (scope : ScopeEntry) (lies : scope.parent = some outer)
    (opened : outer < j.next) (fits : ∀ rest ∈ tasks, rest.Fits (j.open_ scope)) :
    Advances j (j.open_ scope, tasks) :=
  ⟨sound.open_ scope lies opened, j.prefix_open scope, fits⟩

/-- A function takes up its parameters, the `var`s of its body and its own name. -/
theorem advances_function (sound : j.Sound) (fits : place.Fits j) (t : Tree) (ownName : Bool) :
    Advances j (ofFunction j place t ownName) := by
  -- A function admits parameters, its own name and what is hoisted.
  have inner := fits.inside (show ScopeKind.function ≠ .global by decide) t
  refine advances_open sound _ rfl fits.scope_lt fun rest left => ?_
  simp only [List.mem_append, List.mem_map, List.mem_singleton] at left
  rcases left with (⟨param, _, rfl⟩ | rfl) | own
  · exact ⟨inner, j.admits_open rfl⟩
  · exact inner
  · split at own
    · rw [List.mem_singleton.mp own]
      exact j.admits_open rfl
    · cases own

/-- A catch clause takes up its parameter. -/
theorem advances_handler (sound : j.Sound) (fits : place.Fits j) (t : Tree) :
    Advances j (ofHandler j place t) := by
  -- The scope of a clause admits its parameter.
  have inner := fits.inside (show ScopeKind.catch ≠ .global by decide) t
  refine advances_open sound _ rfl fits.scope_lt fun rest left => ?_
  simp only [List.mem_cons, List.not_mem_nil, or_false] at left
  rcases left with rfl | rfl
  · exact ⟨inner, j.admits_open rfl⟩
  · exact inner

/-- What can be bound in scopes of all kinds can be bound in the scope of a place. -/
theorem admits_any (fits : place.Fits j) {kind : BindingKind}
    (anywhere : ∀ scope : ScopeKind, scope.admits kind) : j.Admits place.scope kind :=
  ⟨_, List.getElem?_eq_getElem fits.scope_lt, anywhere _⟩

/-- What `var` declares goes where it is hoisted to, any other declaration binds where it is. -/
theorem fits_of_mem_ofDeclaration (fits : place.Fits j) {rest : Task Place}
    (left : rest ∈ ofDeclaration j place t) : rest.Fits j := by
  simp only [ofDeclaration, List.mem_flatMap, List.mem_cons, List.not_mem_nil, or_false] at left
  obtain ⟨d, _, rfl | rfl⟩ := left
  · split
    · rename_i isVar
      rw [isVar]
      exact ⟨fits.hoisted, Journal.Climbs.admits fits (.inl rfl)⟩
    · rename_i noVar
      refine ⟨fits, admits_any fits fun scope => ?_⟩
      -- Three words declare, and two of them are left.
      unfold bindingKind at noVar ⊢
      split
      · rfl
      · split
        · rfl
        · simp_all
  · exact fits

/-- The rule of a node keeps a record sound. -/
theorem advances_node (sound : j.Sound) (fits : place.Fits j) (t : Tree) :
    Advances j (ofNode j place t) := by
  unfold ofNode
  split
  · refine advances_pass sound fun rest left => ?_
    rw [List.mem_singleton.mp left]
    exact fits
  · refine advances_open sound _ rfl fits.scope_lt fun rest left => ?_
    rw [List.mem_singleton.mp left]
    exact fits.inside (by decide) t
  · exact advances_pass sound fun rest left => fits_of_mem_ofDeclaration fits left
  · refine advances_pass sound fun rest left => ?_
    obtain ⟨_, _, rfl⟩ := List.mem_map.mp left
    exact admits_any fits fun _ => rfl
  · have inner := advances_function sound fits t false
    refine ⟨inner.sound, inner.grows, fun rest left => ?_⟩
    rcases List.mem_cons.mp left with rfl | left
    · exact (Journal.Climbs.admits fits (.inr rfl)).mono inner.grows
    · exact inner.fits rest left
  · exact advances_function sound fits t true
  · exact advances_function sound fits t false
  · exact advances_function sound fits t false
  · refine advances_pass sound fun rest left => ?_
    simp only [List.mem_cons, List.not_mem_nil, or_false] at left
    rcases left with rfl | rfl | rfl
    · exact admits_any fits fun _ => rfl
    · exact fits
    · exact fits
  · refine advances_pass sound fun rest left => ?_
    simp only [List.mem_cons, List.not_mem_nil, or_false] at left
    rcases left with rfl | rfl <;> exact fits
  · refine advances_pass sound fun rest left => ?_
    simp only [List.mem_cons, List.not_mem_nil, or_false] at left
    rcases left with rfl | rfl <;> exact fits
  · -- Taking note of a call opens no scope.
    have tasks {j' : Journal} (here : place.Fits j') : ∀ rest ∈
        [visit place (t.get "callee"), visit place (t.get "arguments")], rest.Fits j' := by
      intro rest left
      simp only [List.mem_cons, List.not_mem_nil, or_false] at left
      rcases left with rfl | rfl <;> exact here
    dsimp only
    split
    · exact ⟨sound.noteEval _, List.prefix_rfl, tasks (fits.mono List.prefix_rfl)⟩
    · exact advances_pass sound (tasks fits)
  · refine advances_pass sound fun rest left => ?_
    simp only [List.mem_append, List.mem_singleton] at left
    rcases left with (rfl | caught) | rfl
    · exact fits
    · split at caught
      · rw [List.mem_singleton.mp caught]
        exact fits
      · cases caught
    · exact fits
  · exact advances_handler sound fits t
  · refine advances_pass sound fun rest left => ?_
    obtain ⟨_, _, rfl⟩ := List.mem_map.mp left
    exact fits

/-- Names deeper in a pattern are bound like the pattern. -/
theorem advances_pattern (sound : j.Sound) {kind : BindingKind}
    (fits : (pattern kind place t).Fits j) : Advances j (j, ofPattern kind place t) := by
  -- The tasks left stand where the pattern stands, and bind as it does.
  refine advances_pass sound fun rest left => ?_
  rcases eq_of_mem_ofPattern left with rfl | ⟨_, rfl⟩ | ⟨_, rfl⟩
  · exact fits.2
  · exact fits
  · exact fits.1

end Rules

/-- One step of the walk keeps a record sound. -/
theorem advances_expand {task : Task Place} (sound : j.Sound) (fits : task.Fits j) :
    Advances j (expand j task) := by
  -- One case for each kind of task, and one for those that have nothing to walk.
  unfold expand
  split
  · refine advances_pass sound fun rest left => ?_
    obtain ⟨_, _, rfl⟩ := List.mem_map.mp left
    exact fits
  · exact advances_node sound fits _
  · exact advances_pass sound fun _ left => by cases left
  · exact advances_pattern sound fits
  · exact advances_pass sound fun _ left => by cases left
  · split
    · exact ⟨sound.bind fits, List.prefix_rfl, fun _ left => by cases left⟩
    · exact advances_pass sound fun _ left => by cases left
  · exact advances_handler sound fits _
  · exact advances_pass sound fun _ left => by cases left
  · refine advances_open sound _ rfl (Place.Fits.scope_lt fits) fun rest left => ?_
    rcases List.mem_append.mp left with body | own
    · rw [List.mem_singleton.mp body]
      exact Place.Fits.inside fits (by decide) _
    · split at own
      · rw [List.mem_singleton.mp own]
        exact j.admits_open rfl
      · cases own
  · exact advances_pass sound fun _ left => by cases left

/-- The whole walk keeps a record sound, and its scopes stay. -/
theorem sound_run (task : Task Place) (sound : j.Sound) (fits : task.Fits j) :
    (task.run j).Sound ∧ j.scopes <+: (task.run j).scopes := by
  induction task using Task.induction generalizing j with
  | step task ih =>
    have step := advances_expand sound fits
    -- Tasks that are still to be done fit the record as it grows.
    have rest (tasks : List (Task Place)) (left : ∀ rest ∈ tasks, rest ∈ (expand j task).2)
        {j' : Journal} (sound' : j'.Sound) (fits' : ∀ rest ∈ tasks, rest.Fits j') :
        (tasks.foldl (fun j rest => rest.run j) j').Sound ∧
          j'.scopes <+: (tasks.foldl (fun j rest => rest.run j) j').scopes := by
      induction tasks generalizing j' with
      | nil => exact ⟨sound', List.prefix_rfl⟩
      | cons first tasks later =>
        obtain ⟨left, others⟩ := List.forall_mem_cons.mp left
        obtain ⟨here, fitting⟩ := List.forall_mem_cons.mp fits'
        obtain ⟨done, grown⟩ := ih j first left sound' here
        obtain ⟨whole, more⟩ := later others done fun rest held => (fitting rest held).mono grown
        exact ⟨whole, grown.trans more⟩
    obtain ⟨done, grown⟩ := rest _ (fun _ left => left) step.sound step.fits
    rw [run_eq]
    exact ⟨done, step.grows.trans grown⟩

end Task

/-- The walk over a program starts with a sound record, at a place of it. -/
theorem sound_start (t : Tree) :
    Journal.Sound { scopes := [{ kind := .global, node := t, parent := none }] } ∧
      Place.Fits { scopes := [{ kind := .global, node := t, parent := none }] } ⟨0, 0⟩ := by
  -- There is one scope, that of the program, and no name is bound yet.
  refine ⟨⟨⟨⟨_, rfl, rfl⟩, ?_⟩, ?_⟩, .here rfl (.inr rfl)⟩
  · intro number later opened
    have : number < 1 := opened
    omega
  · intro entry held
    cases held

/-- The journal of an analysis is sound. -/
theorem sound_journal (t : Tree) : (journal t).Sound :=
  (Task.sound_run (.visit ⟨0, 0⟩ t) (sound_start t).1 (sound_start t).2).1

end Scope

end ModuleLift
