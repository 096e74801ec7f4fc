import ModuleLift.Lift
import ModuleLift.Proofs.Tree.Bare

/-! What lifting comes to where it does not fail. It fails only over a statement that does not tell
where it stands, so what a statement becomes can be said without regard to that: as if a statement
without a place stood at the start of the text. -/

namespace ModuleLift

/-- A node as if it was read from a stretch of text. -/
def Tree.readAt (region : Region) (t : Tree) : Tree :=
  t.mapMark fun mark => { mark with range := some region }

/-- Whether all top-level statements of a program tell where they were read. -/
def Tree.Ranged (program : Tree) : Prop :=
  ∀ t ∈ (program.get "body").items, t.range?.isSome

instance (program : Tree) : Decidable program.Ranged :=
  inferInstanceAs (Decidable (∀ t ∈ (program.get "body").items, t.range?.isSome))

namespace Lift

namespace Replacement

/-- The statements that take a place. -/
def nodes (region : Region) : Replacement → List Tree
  | .kept statement => [statement]
  | .replaced statements => anchorAll region statements

/-- Whether it has to be known where the statement stands. -/
def needsPlace : Replacement → Bool
  | .kept _ => false
  | .replaced _ => true

/-- Only a place that is needed and not known is missed. -/
theorem place_eq (t : Tree) (r : Replacement) : r.place t =
    if r.needsPlace && t.range?.isNone then .error .noRange else .ok (r.nodes t.readRegion) := by
  -- What is kept has its place already.
  cases r with
  | kept statement => rfl
  | replaced statements =>
    rw [place, nodes, Tree.readRegion]
    cases t.range? <;> rfl

end Replacement

/-- An anchored statement is one of those given, standing for some region. -/
theorem mem_anchorAll {region : Region} {added : List Tree} {node : Tree}
    (member : node ∈ anchorAll region added) : ∃ t ∈ added, ∃ place, node = t.anchor place := by
  -- The recursion anchors one statement after the other.
  fun_induction anchorAll region added with
  | case1 => simp at member
  | case2 last => exact ⟨last, List.mem_cons_self, region, List.mem_singleton.mp member⟩
  | case3 t rest _ ih =>
    rcases List.mem_cons.mp member with rfl | later
    · exact ⟨t, List.mem_cons_self, _, rfl⟩
    · obtain ⟨u, held, found⟩ := ih later
      exact ⟨u, List.mem_cons_of_mem _ held, found⟩

/-- What anchored statements give, if their places give nothing. -/
theorem flatMap_anchorAll {β : Type} {give : Tree → List β}
    (same : ∀ t region, give (Tree.anchor t region) = give t) (region : Region)
    (added : List Tree) : (anchorAll region added).flatMap give = added.flatMap give := by
  -- The recursion anchors one statement after the other.
  fun_induction anchorAll region added with
  | case1 => rfl
  | case2 last => simp [same]
  | case3 first rest _ ih => rw [List.flatMap_cons, List.flatMap_cons, ih, same]

section Statements

variable (s : Surroundings)

/-- The statements a declaration becomes, by what becomes of its declarators. -/
def assemble (marker : Text) (t : Tree) (fates : List Fate) : List Tree :=
  (joinFates marker t fates).nodes t.readRegion

/-- What a declaration becomes. -/
def declaration (t : Tree) (p : Progress) : List Tree × Progress :=
  ((replaceDeclaration s t p).1.nodes t.readRegion, (replaceDeclaration s t p).2)

/-- What an expression statement becomes. -/
def expressionStatement (t : Tree) (p : Progress) : List Tree × Progress :=
  ((replaceExpression s t p).1.nodes t.readRegion, (replaceExpression s t p).2)

/-- What a top-level statement becomes. -/
def statement (t : Tree) (p : Progress) : List Tree × Progress :=
  ((replaceStatement s t p).1.nodes t.readRegion, (replaceStatement s t p).2)

/-- A declaration becomes what its declarators come to together. -/
theorem declaration_eq (t : Tree) (p : Progress) : declaration s t p =
    (assemble s.marker t (declarators s (t.get "declarations").items p).1,
      (declarators s (t.get "declarations").items p).2) := rfl

/-- Declarations and expression statements are the ones that can become something else. -/
theorem statement_eq (t : Tree) (p : Progress) : statement s t p =
    if t.isA "VariableDeclaration" then declaration s t p
    else if t.isA "ExpressionStatement" then expressionStatement s t p
    else ([t], p) := by
  -- Both sides ask for the same kinds in the same order.
  rw [statement, replaceStatement]
  split
  · rfl
  · split <;> rfl

/-- Going through one top-level statement. -/
def step (t : Tree) (p : Progress) : List Tree × Bool × Progress :=
  let p := (p.mention t.mentions).reportAll t.buriedDiagnostics
  let (t, added) := t.annotate s.marker false
  let (statements, p) := statement s t p
  (statements, added, p)

/-- Going through the top-level statements one after the other. -/
def steps : List Tree → Progress → List Tree × Bool × Progress
  | [], p => ([], false, p)
  | t :: rest, p =>
    let (here, added, p) := step s t p
    let (later, more, p) := steps rest p
    (here ++ later, added || more, p)

end Statements

section Success

variable {s : Surroundings} {ts : List Tree} {result : List Tree × Bool × Progress}

/-- A statement is gone through unless the place it needs is missing. -/
theorem visitStatement_eq (s : Surroundings) (t : Tree) (p : Progress) : visitStatement s t p =
    if (replaceStatement s (t.annotate s.marker false).1
        ((p.mention t.mentions).reportAll t.buriedDiagnostics)).1.needsPlace && t.range?.isNone then
      .error .noRange
    else .ok (step s t p) := by
  -- Comments below a statement do not move it.
  rw [visitStatement]
  simp only [Replacement.place_eq, Tree.range?_annotate]
  split <;> rfl

/-- A body is gone through if its statements were read. -/
theorem visitBody_of_ranged (ranged : ∀ t ∈ ts, t.range?.isSome) (p : Progress) :
    visitBody s ts p = .ok (steps s ts p) := by
  -- No statement can miss its place.
  induction ts generalizing p with
  | nil => rfl
  | cons t rest ih =>
    have here : visitStatement s t p = .ok (step s t p) := by
      rw [visitStatement_eq, if_neg]
      simp [Option.isNone_eq_false_iff.mpr (ranged t List.mem_cons_self)]
    rw [visitBody, here]
    change (visitBody s rest (step s t p).2.2 >>= _) = _
    rw [ih fun u member => ranged u (List.mem_cons_of_mem _ member)]
    rfl

/-- Where a body was gone through, the outcome is as it should be. -/
theorem eq_steps_of_visitBody {p : Progress} (done : visitBody s ts p = .ok result) :
    result = steps s ts p := by
  -- A fault of any statement would have been the outcome of the whole.
  induction ts generalizing p result with
  | nil => exact (Except.ok.inj done).symm
  | cons t rest ih =>
    rw [visitBody, visitStatement_eq] at done
    split at done
    · cases done
    · change (visitBody s rest (step s t p).2.2 >>= _) = _ at done
      cases later : visitBody s rest (step s t p).2.2 with
      | error fault =>
        rw [later] at done
        cases done
      | ok more =>
        rw [later] at done
        cases ih later
        exact (Except.ok.inj done).symm

end Success

section Opening

/-- The definitions put before a body, at the place where it starts. -/
def opening (names : Polyfill) (body : List Tree) : List Tree :=
  let start := match body with
    | first :: _ => (first.region?.getD default).start
    | [] => 0
  names.statements.map fun t => t.anchor ⟨start, start⟩

/-- Whether a body starts somewhere: its first statement, if there is one, stands for some text. -/
def startsSomewhere (body : List Tree) : Bool := body.head?.all fun t => t.region?.isSome

/-- Definitions can be put before a body exactly if there are none or it starts somewhere. -/
theorem prelude_eq (names : Polyfill) (body : List Tree) : prelude names body =
    if names.statements.isEmpty || startsSomewhere body then .ok (opening names body)
    else .error .noRange := by
  -- The place is asked for only if there is something to be put there.
  unfold prelude opening
  cases empty : names.statements.isEmpty with
  | true =>
    rw [List.isEmpty_iff.mp empty]
    rfl
  | false =>
    cases body with
    | nil => rfl
    | cons first rest =>
      simp only [bodyStart, startsSomewhere, List.head?_cons, Option.all_some, Bool.false_or]
      cases first.region? <;> rfl

end Opening

section Program

variable (ledger : Ledger) (s : Surroundings)

/-- What comes of a program. -/
def liftedOf (program : Tree) : Lifted :=
  let (body, added, p) := steps s (program.get "body").items (Progress.ofLedger ledger)
  let flagged := program.mapMark fun mark => { mark with modified := mark.modified || added }
  { program := flagged.mapField "body" fun _ => .list (opening p.names body ++ body)
    diagnostics := p.diagnostics
    specifiers := p.specifiers
    localModules := p.localModules
    probes := p.probes }

/-- Where a program was lifted, the outcome is as it should be. -/
theorem eq_liftedOf {program : Tree} {lifted : Lifted}
    (done : liftWith ledger s program = .ok lifted) : lifted = liftedOf ledger s program := by
  -- Going through the body and putting definitions before it both went well.
  rw [liftWith] at done
  split at done
  · cases body : visitBody s (program.get "body").items (Progress.ofLedger ledger) with
    | error fault =>
      rw [body] at done
      cases done
    | ok result =>
      have whole := eq_steps_of_visitBody body
      rw [body] at done
      change (prelude result.2.2.names result.1 >>= _) = _ at done
      cases before : prelude result.2.2.names result.1 with
      | error fault =>
        rw [before] at done
        cases done
      | ok opened =>
        have first : opened = opening result.2.2.names result.1 := by
          rw [prelude_eq] at before
          split at before
          · exact (Except.ok.inj before).symm
          · cases before
        rw [before] at done
        cases done
        subst first whole
        rfl
  · cases done

end Program

end Lift

end ModuleLift
