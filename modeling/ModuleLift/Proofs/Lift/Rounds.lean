import Mathlib.Algebra.Group.Nat.Defs
import Mathlib.Algebra.Group.Prod
import ModuleLift.Proofs.Lift.Standing

/-! How many default exports a program has after it was lifted several times over: every round
turns one more assignment to `module.exports` into one, as long as there are any. -/

namespace ModuleLift

namespace Tree

/-- Whether a statement is a default export. -/
def isDefaultExport (t : Tree) : Bool := t.isA "ExportDefaultDeclaration"

/-- Marks do not make a default export of a statement. -/
@[simp] theorem isDefaultExport_mapMark (t : Tree) (change : Mark → Mark) :
    (t.mapMark change).isDefaultExport = t.isDefaultExport :=
  isA_mapMark ..

/-- Comments do not make a default export of a statement. -/
@[simp] theorem isDefaultExport_annotate (marker : Text) (nested : Bool) (t : Tree) :
    (t.annotate marker nested).1.isDefaultExport = t.isDefaultExport :=
  isA_annotate ..

end Tree

namespace Lift

/-- How many default exports there are among some statements, and how many assignments that can
become one. -/
def tally (ts : List Tree) : Nat × Nat :=
  (ts.countP Tree.isDefaultExport, ts.countP Tree.yieldsExports)

/-- The counts of two lists of statements add up. -/
theorem tally_append (first second : List Tree) :
    tally (first ++ second) = tally first + tally second := by
  simp [tally]

/-- The counts of a list are those of its first statement and of the rest. -/
theorem tally_cons (t : Tree) (rest : List Tree) : tally (t :: rest) = tally [t] + tally rest :=
  tally_append [t] rest

/-- Comments and places do not count. -/
theorem tally_mapMark (t : Tree) (change : Mark → Mark) : tally [t.mapMark change] = tally [t] := by
  simp [tally, List.countP_singleton]

/-- Comments do not change how a statement counts. -/
theorem tally_annotate (marker : Text) (nested : Bool) (t : Tree) :
    tally [(t.annotate marker nested).1] = tally [t] := by
  simp [tally, List.countP_singleton]

/-- Where statements stand does not change how they count. -/
theorem tally_anchorAll (region : Region) (added : List Tree) :
    tally (anchorAll region added) = tally added := by
  -- Along the recursion of the placement: each statement is counted without its mark.
  fun_induction anchorAll region added with
  | case1 => rfl
  | case2 last => exact tally_mapMark ..
  | case3 first rest _ ih => rw [tally_cons, ih, tally_cons first, Tree.anchor, tally_mapMark]

/-- Statements of other kinds do not count. -/
theorem tally_eq_zero {ts : List Tree} (others : ∀ t ∈ ts, ∃ kind, t.isA kind ∧
    kind ≠ "ExportDefaultDeclaration" ∧ kind ≠ "ExpressionStatement") : tally ts = (0, 0) := by
  -- A statement has one kind, and both counts ask for another.
  refine Prod.ext (List.countP_eq_zero.mpr ?_) (List.countP_eq_zero.mpr ?_)
  all_goals
    intro t held
    obtain ⟨kind, isA, noDefault, noExpression⟩ := others t held
  · simp [Tree.isDefaultExport, Tree.isA_eq_false isA noDefault]
  · simp [Tree.yieldsExports_of_isA isA noExpression]

/-- A declaration becomes imports and declarations. -/
theorem tally_declaration (s : Surroundings) {t : Tree}
    (isDeclaration : t.isA "VariableDeclaration") (p : Progress) :
    tally (declaration s t p).1 = (0, 0) := by
  have each := declarators_become s (t.get "declarations").items p
  simp only [declaration_eq]
  generalize (declarators s (t.get "declarations").items p).1 = fates at each ⊢
  by_cases none : fates.filterMap Fate.statement? = []
  · refine tally_eq_zero fun u held => ⟨"VariableDeclaration", ?_, by decide, by decide⟩
    rw [assemble_whole none, List.mem_singleton] at held
    subst held
    split
    · rwa [Tree.comment, Tree.isA_mapMark]
    · exact isDeclaration
  · rw [assemble_eq none, tally_anchorAll]
    refine tally_eq_zero fun u held => ?_
    rcases List.mem_append.mp held with imported | left
    · obtain ⟨target, imports⟩ := exists_importsFrom each imported
      exact ⟨"ImportDeclaration", imports.isImport, by decide, by decide⟩
    · refine ⟨"VariableDeclaration", ?_, by decide, by decide⟩
      rw [eq_of_mem_remainder left]
      split <;> rfl

/-- Whether a statement is the one that exports are made of. -/
def makesExports (p : Progress) (t : Tree) : Bool := t.yieldsExports && !p.exported

section MakesExports

variable {p : Progress} {t : Tree}

/-- A statement that yields no exports makes none. -/
theorem makesExports_of_not_yields (none : t.yieldsExports = false) :
    makesExports p t = false := by
  rw [makesExports, none, Bool.false_and]

/-- A value that is refused makes no exports. -/
theorem makesExports_of_refused {value : Tree} {notice : Notice}
    (isExpression : t.isA "ExpressionStatement") (assigned : exportsValue? t = some value)
    (refused : value.exportsRefusal? p.exported = some notice) : makesExports p t = false := by
  -- Making exports is having no refusal.
  cases made : makesExports p t with
  | false => rfl
  | true =>
    rw [makesExports, Tree.yieldsExports_of_assigned isExpression assigned, Bool.and_eq_true,
      Bool.not_eq_true'] at made
    rw [Tree.exportsRefusal?_eq_none.mpr made] at refused
    cases refused

end MakesExports

/-- What a statement adds: it stays as it counts, or it becomes the default export. -/
def Tallies (p : Progress) (t : Tree) (nodes : List Tree) : Prop :=
  tally nodes + (0, (makesExports p t).toNat) = tally [t] + ((makesExports p t).toNat, 0)

/-- A statement that makes no exports counts as it did. -/
theorem tallies_of_kept {p : Progress} {t : Tree} {nodes : List Tree}
    (idle : makesExports p t = false) (same : tally nodes = tally [t]) : Tallies p t nodes := by
  simp [Tallies, idle, same]

/-- An expression statement becomes the default export if it makes exports. -/
theorem tallies_expressionStatement (s : Surroundings) {t : Tree} (p : Progress)
    (isExpression : t.isA "ExpressionStatement") : Tallies p t (expressionStatement s t p).1 := by
  -- One case for each outcome; only the last one moves a count from one place to the other.
  have step := expressionStatement_step s t p
  generalize expressionStatement s t p = result at step ⊢
  cases step with
  | dynamic called =>
    have none := yieldsExports_of_called called
    exact tallies_of_kept (makesExports_of_not_yields none) (tally_mapMark ..)
  | loaded called =>
    have none := yieldsExports_of_called called
    refine tallies_of_kept (makesExports_of_not_yields none) ?_
    have here : tally [t] = (0, 0) := by
      simp [tally, Tree.isDefaultExport, Tree.isA_eq_false isExpression, none]
    rw [here]
    refine tally_eq_zero fun u held => ⟨"ImportDeclaration", ?_, by decide, by decide⟩
    rw [List.mem_singleton.mp held, Tree.anchor, Tree.isA_mapMark]
    rfl
  | discarded called =>
    exact tallies_of_kept (makesExports_of_not_yields (yieldsExports_of_called called)) rfl
  | idle uncalled unassigned =>
    have none : t.yieldsExports = false := by simp [Tree.yieldsExports, unassigned]
    exact tallies_of_kept (makesExports_of_not_yields none) rfl
  | refused uncalled assigned refused =>
    exact tallies_of_kept (makesExports_of_refused isExpression assigned refused) rfl
  | @exported value entries uncalled assigned object found first =>
    have yielding : t.yieldsExports := by
      simp [Tree.yieldsExports_of_assigned isExpression assigned, object, found]
    have made : makesExports p t := by simp [makesExports, yielding, first]
    have here : tally [t] = (0, 1) := by
      simp [tally, Tree.isDefaultExport, Tree.isA_eq_false isExpression, yielding]
    have named : tally (if entries.namedExports.isEmpty then []
        else [Tree.exportNamed entries.namedExports]) = (0, 0) := by
      refine tally_eq_zero fun u held => ⟨"ExportNamedDeclaration", ?_, by decide, by decide⟩
      split at held
      · cases held
      · rw [List.mem_singleton.mp held]
        rfl
    have whole : tally [Tree.exportDefault value] = (1, 0) := rfl
    rw [Tallies, tally_anchorAll, tally_append, named, whole, here, made]
    rfl

/-- A top-level statement becomes the default export if it makes exports. -/
theorem tallies_statement (s : Surroundings) (t : Tree) (p : Progress) :
    Tallies p t (statement s t p).1 := by
  rw [statement_eq]
  split
  · -- A declaration has none of what is counted, before and after.
    rename_i isDeclaration
    have none := Tree.yieldsExports_of_isA isDeclaration (by decide)
    refine tallies_of_kept (makesExports_of_not_yields none) ?_
    rw [tally_declaration s isDeclaration]
    exact (tally_eq_zero (by simpa using ⟨_, isDeclaration, by decide, by decide⟩)).symm
  · split
    · exact tallies_expressionStatement s p ‹_›
    · rename_i noExpression
      have none : t.yieldsExports = false := by simp [Tree.yieldsExports, noExpression]
      exact tallies_of_kept (makesExports_of_not_yields none) rfl

/-- One statement: commenting what lies below it does not change how it counts. -/
theorem tallies_step (s : Surroundings) (t : Tree) (p : Progress) :
    Tallies p t (step s t p).1 := by
  -- What is told of the commented statement holds of the statement itself.
  have counts := tallies_statement s (t.annotate s.marker false).1
    ((p.mention t.mentions).reportAll t.buriedDiagnostics)
  rw [Tallies, makesExports, Tree.yieldsExports_annotate, tally_annotate] at counts
  exact counts

/-- All statements: one default export more if there was none before and there is an assignment to
make it of. -/
theorem tally_steps (s : Surroundings) (ts : List Tree) (p : Progress) :
    let made := (ts.any Tree.yieldsExports && !p.exported).toNat
    tally (steps s ts p).1 + (0, made) = tally ts + (made, 0) := by
  induction ts generalizing p with
  | nil => rfl
  | cons t rest ih =>
    have here := tallies_step s t p
    have later := ih (step s t p).2.2
    rw [exported_step] at later
    -- Either this statement makes the exports, or a later one, or none.
    have total : ((t :: rest).any Tree.yieldsExports && !p.exported).toNat =
        (makesExports p t).toNat +
          (rest.any Tree.yieldsExports && !(p.exported || t.yieldsExports)).toNat := by
      rw [List.any_cons, makesExports]
      cases t.yieldsExports <;> cases p.exported <;> cases rest.any Tree.yieldsExports <;> rfl
    intro made
    simp only [made, steps]
    rw [total, tally_append, tally_cons t]
    rw [Tallies] at here
    generalize (makesExports p t).toNat = now at here
    generalize (rest.any Tree.yieldsExports && !(p.exported || t.yieldsExports)).toNat = then_
      at later
    have split (first second : Nat × Nat) (a b : Nat × Nat) :
        first + second + (a + b) = first + a + (second + b) := add_add_add_comm ..
    calc tally (step s t p).1 + tally (steps s rest (step s t p).2.2).1 + ((0, now) + (0, then_))
      _ = tally [t] + (now, 0) + (tally rest + (then_, 0)) := by rw [split, here, later]
      _ = tally [t] + tally rest + ((now, 0) + (then_, 0)) := (split ..).symm

/-- The definitions put before a body are imports and declarations. -/
theorem tally_opening (names : Polyfill) (body : List Tree) :
    tally (opening names body) = (0, 0) := by
  -- The three forms of definitions, each of a kind that does not count.
  refine tally_eq_zero (List.forall_mem_map.mpr fun t held => ?_)
  rw [Tree.anchor]
  simp only [Tree.isA_mapMark]
  rcases mem_polyfill held with ⟨_, _, _, rfl⟩ | ⟨_, rfl⟩ | ⟨_, rfl⟩
  · exact ⟨"ImportDeclaration", rfl, by decide, by decide⟩
  · exact ⟨"VariableDeclaration", rfl, by decide, by decide⟩
  · exact ⟨"VariableDeclaration", rfl, by decide, by decide⟩

/-- The statements of a program, counted. -/
def programTally (program : Tree) : Nat × Nat := tally (program.get "body").items

/-- Lifting turns one assignment into a default export, if there is one. -/
theorem programTally_lift {s : Surroundings} {program : Tree} {lifted : Lifted}
    (known : lift s program = .ok lifted) :
    (programTally lifted.program).1 = (programTally program).1 + min 1 (programTally program).2 ∧
      (programTally lifted.program).2 = (programTally program).2 - 1 := by
  obtain ⟨_, _, items⟩ := program_of_lift s known
  have body : programTally lifted.program = tally (newBody s program) := by
    rw [programTally, items, tally_append, tally_opening]
    exact Prod.ext (Nat.zero_add _) (Nat.zero_add _)
  -- One is made if there is one to make it of.
  have made : ((program.get "body").items.any Tree.yieldsExports && !false).toNat =
      min 1 (programTally program).2 := by
    rw [Bool.not_false, Bool.and_true]
    cases some : (program.get "body").items.any Tree.yieldsExports with
    | true =>
      have positive : 0 < (programTally program).2 := List.countP_pos_iff.mpr (by simpa using some)
      simp only [Bool.toNat_true]
      omega
    | false =>
      have none : (programTally program).2 = 0 := List.countP_eq_zero.mpr (by simpa using some)
      simp [none]
  -- What is taken from one count is added to the other.
  have counts : tally (newBody s program) + (0, min 1 (programTally program).2) =
      programTally program + (min 1 (programTally program).2, 0) := by
    rw [← made]
    exact tally_steps s (program.get "body").items (.ofLedger (Scope.analyze program))
  rw [← body] at counts
  obtain ⟨defaults, pending⟩ := Prod.ext_iff.mp counts
  simp only [Prod.fst_add, Prod.snd_add] at defaults pending
  exact ⟨by omega, by omega⟩

end Lift

/-- Lifts a program, then what came of it, and so on, each time from the start. -/
def liftAll : List Surroundings → Tree → Except LiftError Tree
  | [], program => .ok program
  | s :: rest, program => (lift s program).bind fun lifted => liftAll rest lifted.program

/-- Whether no round but the last gives a factory the name `require`. What is left of a declaration
would call the module loader again then, and the next round could not tell where it stands. -/
def SparesRequire : List Surroundings → Tree → Prop
  | s :: next :: rest, program => Text.ofString "require" ∉ Lift.factories s program ∧
      ∀ lifted, lift s program = .ok lifted → SparesRequire (next :: rest) lifted.program
  | _, _ => True

namespace Lift

/-- After some rounds there are as many more default exports as there were rounds, up to the number
of assignments they are made of. -/
theorem programTally_liftAll {rounds : List Surroundings} {program last : Tree}
    (known : liftAll rounds program = .ok last) :
    (programTally last).1 =
      (programTally program).1 + min rounds.length (programTally program).2 := by
  -- Induction over the rounds: each one turns one assignment into an export while there are any.
  induction rounds generalizing program with
  | nil =>
    cases known
    simp
  | cons s rest ih =>
    rw [liftAll] at known
    cases first : lift s program with
    | error fault =>
      rw [first] at known
      cases known
    | ok lifted =>
      rw [first] at known
      obtain ⟨defaults, pending⟩ := programTally_lift first
      rw [ih known, defaults, pending, List.length_cons]
      omega

/-- A program can be lifted round after round as long as no factory is named `require`. -/
theorem exists_liftAll {rounds : List Surroundings} {program : Tree}
    (isProgram : program.isA "Program")
    (standing : ∀ t ∈ (program.get "body").items, t.IsStanding)
    (spared : SparesRequire rounds program) : ∃ last, liftAll rounds program = .ok last := by
  induction rounds generalizing program with
  | nil => exact ⟨program, rfl⟩
  | cons s rest ih =>
    have known : lift s program = .ok _ := liftWith_of_standing _ s isProgram standing
    rw [liftAll, known]
    cases rest with
    | nil => exact ⟨_, rfl⟩
    | cons next others =>
      -- The next round finds what it needs, as this one did.
      obtain ⟨here, later⟩ := spared
      exact ih (program_of_lift s known).1 (isStanding_lift standing here known) (later _ known)

/-- No factory is named `require` where no suffix is an end of it. -/
theorem sparesRequire_of_suffix {rounds : List Surroundings}
    (suffix : ∀ s ∈ rounds, ¬s.factorySuffix <:+ Text.ofString "require") (program : Tree) :
    SparesRequire rounds program := by
  -- Induction over the rounds; the last one names nothing that another round would read.
  induction rounds generalizing program with
  | nil => trivial
  | cons s rest ih =>
    cases rest with
    | nil => trivial
    | cons next others =>
      exact ⟨require_not_mem_factories (suffix s List.mem_cons_self) program, fun lifted _ =>
        ih (fun other held => suffix other (List.mem_cons_of_mem _ held)) lifted.program⟩

end Lift

/-- A program without default exports has, after any number of rounds, as many of them as there were
rounds, up to the number of its assignments to `module.exports` that exports can be made of. So
there is never more than one if and only if there is at most one such assignment. The rounds come
to an end unless a factory is named `require`, which takes a suffix that `require` ends in. -/
theorem defaultExports_liftAll {program : Tree} (isProgram : program.isA "Program")
    (fresh : ∀ t ∈ (program.get "body").items, t.isA "ExportDefaultDeclaration" = false) :
    let assignments := (program.get "body").items.countP Tree.yieldsExports
    let defaults (last : Tree) := (last.get "body").items.countP fun t =>
      t.isA "ExportDefaultDeclaration"
    (∀ rounds last, liftAll rounds program = .ok last →
      defaults last = min rounds.length assignments) ∧
    (program.Ranged → ∀ rounds, SparesRequire rounds program →
      ∃ last, liftAll rounds program = .ok last) ∧
    (∀ rounds : List Surroundings,
      (∀ s ∈ rounds, ¬s.factorySuffix <:+ Text.ofString "require") →
        SparesRequire rounds program) ∧
    ∀ s, program.Ranged → SparesRequire [s, s] program →
      ((∀ count last, liftAll (.replicate count s) program = .ok last → defaults last ≤ 1) ↔
        assignments ≤ 1) := by
  intro assignments defaults
  have standing (ranged : program.Ranged) : ∀ t ∈ (program.get "body").items, t.IsStanding :=
    fun t held => .inl (ranged t held)
  have none : defaults program = 0 := List.countP_eq_zero.mpr (by simpa using fresh)
  have counted (rounds : List Surroundings) (last : Tree)
      (known : liftAll rounds program = .ok last) :
      defaults last = min rounds.length assignments := by
    have count := Lift.programTally_liftAll known
    rw [show (Lift.programTally program).1 = 0 from none, Nat.zero_add] at count
    exact count
  refine ⟨counted, fun ranged rounds => Lift.exists_liftAll isProgram (standing ranged),
    fun rounds suffix => Lift.sparesRequire_of_suffix suffix program, fun s ranged spared =>
      ⟨fun single => ?_, fun few count last known => ?_⟩⟩
  · -- Two rounds are enough to make two default exports of two assignments.
    obtain ⟨last, known⟩ := Lift.exists_liftAll isProgram (standing ranged) spared
    have bound := single 2 last known
    rw [counted _ last known] at bound
    simp only [List.length_cons, List.length_nil] at bound
    omega
  · rw [counted _ last known]
    omega

-- A factory named `require` is called by that name: the next round takes the call for one of the
-- module loader, and what it stands in was not read from anywhere.
example :
    let init : Tree := .call (.call (.identifier "require") [.stringLiteral '"' "x"])
      [.stringLiteral '"' "y"]
    let program : Tree := .synthetic "Program"
      [("body", .list [(Polyfill.constant "r" init).readAt ⟨0, 31⟩])]
    let s : Surroundings := { isFile := fun _ => false, factorySuffix := "equire" }
    Lift.factories s program = [Text.ofString "require"] ∧
      (lift s program).toOption.map (fun lifted => (lift s lifted.program).toOption.isSome) =
        some false := by
  decide +kernel

/-- `module.exports = value` -/
def exportsAssignment (value : Tree) : Tree :=
  .synthetic "ExpressionStatement" [("expression", .synthetic "AssignmentExpression"
    [("operator", .text "="),
      ("left", .synthetic "MemberExpression" [("computed", .flag false),
        ("object", .identifier "module"), ("property", .identifier "exports")]),
      ("right", value)])]

/-- One assignment of an object literal and one of something else give one default export in three
rounds. -/
theorem defaultExports_liftAll_single :
    let object : Tree := .synthetic "ObjectExpression" [("properties", .list [])]
    let program : Tree := .synthetic "Program" [("body", .list
      [(exportsAssignment object).readAt ⟨0, 20⟩,
        (exportsAssignment (.identifier "other")).readAt ⟨21, 44⟩])]
    let s : Surroundings := { isFile := fun _ => false }
    program.isA "Program" ∧ program.Ranged ∧
      (∀ t ∈ (program.get "body").items, t.isA "ExportDefaultDeclaration" = false) ∧
      SparesRequire [s, s, s] program ∧
      ∃ last, liftAll [s, s, s] program = .ok last ∧
        ((last.get "body").items.countP fun t => t.isA "ExportDefaultDeclaration") = 1 := by
  -- The second assignment is refused in each round, so the count stays at one.
  intro object program s
  have ranged : program.Ranged := by decide
  have fresh : ∀ t ∈ (program.get "body").items, t.isA "ExportDefaultDeclaration" = false := by
    decide
  obtain ⟨counted, ends, spares, _⟩ := @defaultExports_liftAll program rfl fresh
  have spared := spares [s, s, s] (by decide)
  obtain ⟨last, known⟩ := ends ranged [s, s, s] spared
  exact ⟨rfl, ranged, fresh, spared, last, known, counted _ last known⟩

/-- Two assignments of object literals give two default exports in two rounds. -/
theorem defaultExports_repeated :
    let assignment := exportsAssignment (.synthetic "ObjectExpression" [("properties", .list [])])
    let program : Tree := .synthetic "Program"
      [("body", .list [assignment.readAt ⟨0, 20⟩, assignment.readAt ⟨21, 41⟩])]
    let s : Surroundings := { isFile := fun _ => false }
    (∀ part ∈ program.parts, part.isA "ExportDefaultDeclaration" = false) ∧
      ∃ last, liftAll [s, s] program = .ok last ∧
        ((last.get "body").items.countP fun t => t.isA "ExportDefaultDeclaration") = 2 := by
  -- The second round finds no export made before it in that round, and makes another.
  intro assignment program s
  have ranged : program.Ranged := by decide
  obtain ⟨last, known⟩ := @Lift.exists_liftAll [s, s] program rfl
    (fun t held => .inl (ranged t held)) (Lift.sparesRequire_of_suffix (by decide) program)
  exact ⟨by decide, last, known, Lift.programTally_liftAll known⟩

end ModuleLift
