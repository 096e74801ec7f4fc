import ModuleLift.Conversion
import ModuleLift.Proofs.Scope.Expansion

/-! An analysis is complete: it records each scope of a program once, and each declared name once,
in the scope of the node that it is declared for. -/

namespace ModuleLift

open scoped List

namespace Scope

/-- Different trails can be numbered in order. -/
theorem exists_numbering {trails : List Trail} (distinct : trails.Nodup) :
    ∃ number : Trail → Nat, trails.map number = List.range trails.length := by
  -- A trail gets its index in the list.
  classical
  refine ⟨fun trail => trails.idxOf trail, List.ext_getElem (by simp) fun i below _ => ?_⟩
  rw [List.getElem_map, List.getElem_range]
  exact distinct.idxOf_getElem i (by simpa using below)

/-- What a node that opens a scope is recorded as: a scope of its kind with the node itself, in the
scope of the node around it, with the names declared for it and no others. -/
def Opening.RecordedIn (opening : Opening) (l : Ledger) (number : Trail → Nat)
    (declared : List (Trail × Binding)) : Prop :=
  ∃ scope, l.scopes[number opening.trail]? = some scope ∧
    scope.kind = opening.kind ∧ scope.node = opening.node ∧
    scope.parent = opening.parent.map number ∧
    ∀ name, (scope.bindings.get? name).getD [] ~
      (declared.filter fun entry => entry.2.name = name ∧ number entry.1 = number opening.trail).map
        (·.2)

/-- A journal that holds the scopes and the names of some nodes, as they are numbered, stores each
scope as it should be recorded. -/
theorem recordedIn_of_numbered {opened : List Opening} {j : Journal} {number : Trail → Nat}
    {declared : List (Trail × Binding)}
    (numbers : opened.map (fun opening => number opening.trail) = List.range opened.length)
    (scopes : j.scopes = opened.map (Opening.entry number))
    (bindings : j.bindings ~ declared.map fun entry => (number entry.1, entry.2)) :
    ∀ opening ∈ opened, opening.RecordedIn j.ledger number declared := by
  intro opening held
  obtain ⟨i, below, rfl⟩ := List.getElem_of_mem held
  have numbered : number opened[i].trail = i := by
    have here := congrArg (fun numbers => numbers[i]?) numbers
    simpa [below] using here
  have entry : j.scopes[i]? = some (opened[i].entry number) := by
    rw [scopes, List.getElem?_map, List.getElem?_eq_getElem below, Option.map_some]
  refine ⟨j.stored i (opened[i].entry number), ?_, rfl, rfl, rfl, fun name => ?_⟩
  · rw [numbered, Journal.getElem?_ledger, entry, Option.map_some]
  -- The bindings stored under a name are those that the journal has in this scope.
  · have stored : ((gather (j.bindingsOf i)).get? name).getD [] =
        (j.bindingsOf i).filter fun b => b.name = name := by
      rw [get?_gather]
      split
      · rfl
      · rename_i missing
        refine (List.filter_eq_nil_iff.mpr fun binding bound named => missing ?_).symm
        exact List.mem_map.mpr ⟨binding, bound, of_decide_eq_true named⟩
    have here : j.bindingsOf i ~
        (declared.filter fun entry => number entry.1 = i).map (·.2) := by
      refine ((bindings.filter _).map _).trans (.of_eq ?_)
      rw [List.filter_map, List.map_map]
      rfl
    rw [Journal.stored, stored, numbered]
    refine (here.filter _).trans (.of_eq ?_)
    rw [List.filter_map, List.filter_filter]
    simp

/-- An analysis records every scope of a program and every name that is declared in it. There is a
numbering of the nodes that open scopes by which each scope of the record is that of one node: it
holds the node and its kind, lies in the scope of the node around it, and has exactly the bindings
of the names that are declared for this node, each once. Every name is declared for a node that
opens a scope. In particular the names bound are those that are declared anywhere. -/
theorem analyze_complete {program : Tree} (isProgram : program.isA "Program")
    (grammatical : ∀ part ∈ program.parts, part.Grammatical)
    (patterns : ∀ part ∈ program.parts, part.BindsPatterns) :
    ∃ number : Trail → Nat,
      (program.scopes.map fun opening => number opening.trail) ~
        List.range (analyze program).scopes.length ∧
      (∀ opening ∈ program.scopes,
        opening.RecordedIn (analyze program) number program.declared) ∧
      (∀ entry ∈ program.declared, entry.1 ∈ program.scopes.map (·.trail)) ∧
      ∀ name, name ∈ (analyze program).boundNames ↔
        ∃ entry ∈ program.declared, entry.2.name = name := by
  -- The walk starts with the scope of the program, which has the first number.
  have walked : Walked (fun number => number [] = 0) ⟨0, 0⟩ [] program := by
    refine ⟨rfl, fun number top => ⟨top, top⟩, .inr rfl, fun _ => rfl, fun part inside => ?_⟩
    exact ⟨grammatical part inside, patterns part inside⟩
  obtain ⟨opened, order, count, scopes, bindings⟩ := (Task.Finds.visit walked).run
    { scopes := [{ kind := .global, node := program, parent := none }] }
  have all : ⟨[], .global, program, none⟩ :: opened ~ program.scopes := order.cons _
  have distinct : (([] : Trail) :: opened.map (·.trail)).Nodup := by
    have trails := all.map Opening.trail
    exact trails.nodup_iff.mpr (nodup_scopes isProgram fun part inside =>
      (grammatical part inside).names)
  obtain ⟨number, numbers⟩ := exists_numbering distinct
  have numbered : (⟨[], .global, program, none⟩ :: opened : List Opening).map
      (fun opening => number opening.trail) = List.range (opened.length + 1) := by
    simpa [Function.comp_def] using numbers
  -- With these numbers, the journal holds what it should.
  have holds : Known.after (fun number => number [] = 0)
      { scopes := [{ kind := .global, node := program, parent := none }] } opened number := by
    rw [List.map_cons, List.range_eq_range', List.range'_succ] at numbered
    exact List.cons.inj numbered
  have entries : (journal program).scopes =
      (⟨[], .global, program, none⟩ :: opened : List Opening).map (Opening.entry number) :=
    scopes number holds
  have recorded : (journal program).bindings ~
      program.declared.map fun entry => (number entry.1, entry.2) := bindings number holds
  have length : (analyze program).scopes.length = opened.length + 1 := by
    rw [analyze_eq, Journal.length_ledger, Journal.next, entries]
    simp
  refine ⟨number, ?_, fun opening held => ?_, fun entry => mem_scopes_of_declared, fun name => ?_⟩
  · rw [length, ← numbered]
    exact all.symm.map _
  · rw [analyze_eq]
    exact recordedIn_of_numbered numbered entries recorded opening (all.mem_iff.mpr held)
  · simp only [mem_boundNames, Journal.entries, (recorded.map _).mem_iff, List.mem_map,
      Prod.mk.injEq, exists_exists_and_eq_and]
    constructor
    · rintro ⟨_, entry, held, _, named⟩
      exact ⟨entry, held, named⟩
    · rintro ⟨entry, held, named⟩
      exact ⟨_, entry, held, rfl, named⟩

/-- A text that is read as a program with some property, told by reading it. -/
theorem exists_of_read {source : Text} {holds : Tree → Prop} [DecidablePred holds]
    (read : (Reader.strict .module source).toOption.any fun program => holds program) :
    ∃ program, Reader.strict .module source = .ok program ∧ holds program := by
  -- The check fails where the reader does.
  cases result : Reader.strict .module source with
  | ok program =>
    rw [result] at read
    exact ⟨program, rfl, of_decide_eq_true read⟩
  | error fault =>
    rw [result] at read
    cases read

/-- Names of all kinds are recorded, in eleven scopes. -/
theorem analyze_complete_mixed :
    let source : Text := "import d, * as y from 'm'; var [a, [c = z => 1, ...e]] = s;" ++
      "\x7b let p; var q; function r() \x7b\x7d \x7d" ++
      "try \x7b\x7d catch ([m]) \x7b const n = 1; \x7d" ++
      "class K extends L \x7b w(u) \x7b var v; \x7d \x7d" ++
      "(function own(o) \x7b\x7d); (class Own \x7b\x7d);"
    ∃ program, Reader.strict .module source = .ok program ∧
      (∀ part ∈ program.parts, part.Grammatical) ∧
      (∀ part ∈ program.parts, part.BindsPatterns) ∧
      program.scopes.length = 11 ∧
      program.declared.map (·.2.name) = ["d", "y", "a", "c", "z", "e", "p", "q", "r", "m", "n",
        "K", "u", "v", "own", "o", "Own"].map Text.ofString ∧
      ∃ number : Trail → Nat,
        (program.scopes.map fun opening => number opening.trail) ~
          List.range (analyze program).scopes.length ∧
        ∀ opening ∈ program.scopes,
          opening.RecordedIn (analyze program) number program.declared := by
  intro source
  -- The text is read once, for all that has to be known of the program.
  have read := @exists_of_read source (fun program => program.isA "Program" ∧
    (∀ part ∈ program.parts, part.Grammatical) ∧ (∀ part ∈ program.parts, part.BindsPatterns) ∧
    program.scopes.length = 11 ∧
    program.declared.map (·.2.name) = ["d", "y", "a", "c", "z", "e", "p", "q", "r", "m", "n",
      "K", "u", "v", "own", "o", "Own"].map Text.ofString) inferInstance (by decide +kernel)
  obtain ⟨program, known, isProgram, grammatical, patterns, scopes, names⟩ := read
  obtain ⟨number, numbers, recorded, _⟩ := analyze_complete isProgram grammatical patterns
  exact ⟨program, known, grammatical, patterns, scopes, names, number, numbers, recorded⟩

/-- A call in place of a parameter is passed over, and with it the name of the function it is
given. -/
theorem not_bound_in_call :
    ∃ program, Reader.strict .module "async (f(function g() \x7b\x7d)) => 0;" = .ok program ∧
      (∀ part ∈ program.parts, part.Grammatical) ∧
      (∃ entry ∈ program.declared, entry.2.name = "g") ∧
      Text.ofString "g" ∉ (analyze program).boundNames := by
  exact exists_of_read (by decide +kernel)

end Scope

end ModuleLift
