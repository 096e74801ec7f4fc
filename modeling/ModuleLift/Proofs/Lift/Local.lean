import ModuleLift.Proofs.Lift.Division
import ModuleLift.Proofs.Lift.Record
import ModuleLift.Proofs.Specifier

/-! Which local modules a lifted program loads: those that its new imports name, in the order of
these, with a report on each for which no file is found. -/

namespace ModuleLift

/-- Whether a notice is on a local module that is not found. -/
def Notice.isMissing : Notice → Bool
  | .missingModule _ => true
  | _ => false

namespace Diagnostic

/-- Whether a report says that a local module is not found. -/
def isMissing (d : Diagnostic) : Bool := Text.startsWith "Local module '" d.text

/-- The notice tells whether a report says so. -/
theorem isMissing_eq (d : Diagnostic) : d.isMissing = d.notice.isMissing := by
  obtain ⟨notice, spot⟩ := d
  cases notice
  all_goals
    -- All other notices start with another letter; the texts are compared as lists.
    simp only [isMissing, text, Notice.message, Text.startsWith, Text.ofString]
    repeat rw [String.toList_ofList]
    rfl

end Diagnostic

namespace Tree

/-- What is loaded by the import that takes the place of a declarator, or by the one of its
factory. -/
def declaratorLoad? (d : Tree) : Option Load :=
  if d.isLowered then (Loader.classify (d.get "init")).bind Loader.load? else none

/-- What is loaded by the imports that take the place of a top-level statement or of parts of it, in
order. A declarator or statement that stays as it is loads nothing. -/
def loads (t : Tree) : List Load :=
  if t.isA "VariableDeclaration" then (t.get "declarations").items.filterMap declaratorLoad?
  else if t.isA "ExpressionStatement" then
    (((Loader.classify (t.get "expression")).filter Loader.isDirect).bind Loader.load?).toList
  else []

/-- The module that an import names. -/
def source? (t : Tree) : Option Text := (t.get "source").stringValue?

/-- What a declarator has on record as loaded is what it loads. -/
theorem loads_declaratorEntries (d : Tree) :
    d.declaratorEntries.filterMap Noted.load? = d.declaratorLoad?.toList := by
  -- Only a declarator that is lowered loads something.
  rw [declaratorEntries, declaratorLoad?]
  cases Loader.classify (d.get "init") with
  | none => simp
  | some loader =>
    simp only [Option.bind_some]
    cases loader.load? with
    | none => cases d.isLowered <;> rfl
    | some load => cases d.isLowered <;> rfl

/-- What an expression has on record as loaded is what it loads. -/
theorem loads_expressionEntries (exported : Bool) (topLevel : List Text) (t : Tree) :
    (t.expressionEntries exported topLevel).filterMap Noted.load? =
      (((Loader.classify (t.get "expression")).filter Loader.isDirect).bind
        Loader.load?).toList := by
  -- Only a plain call of `require` with a literal is a load; the reports on exports are none.
  rw [expressionEntries]
  cases Loader.classify (t.get "expression") with
  | none =>
    cases Lift.exportsValue? t with
    | none => rfl
    | some value => exact Lift.loads_report _
  | some loader =>
    simp only [Option.filter_some]
    cases named : loader.load? with
    | none => cases loader.isDirect <;> simp [Noted.load?, named]
    | some load => cases loader.isDirect <;> simp [Noted.load?, named]

/-- What is on record as loaded is what the statement loads. -/
theorem loads_entries (exported : Bool) (topLevel : List Text) (t : Tree) :
    (t.entries exported topLevel).filterMap Noted.load? = t.loads := by
  -- A declaration loads what its declarators load, an expression statement what its call does.
  rw [entries, loads]
  split
  · rw [List.filterMap_flatMap, List.filterMap_eq_flatMap_toList]
    exact List.flatMap_congr fun d _ => loads_declaratorEntries d
  · split
    · exact loads_expressionEntries exported topLevel t
    · rfl

/-- Comments below a statement do not change what it loads. -/
theorem loads_annotate (marker : Text) (t : Tree) :
    (t.annotate marker false).1.loads = t.loads := by
  rw [← loads_entries false [], entries_annotate, loads_entries]

/-- A statement that no import takes the place of, nor of parts of it, loads nothing. -/
theorem loads_of_whole {t : Tree} (whole : t.isReplaced = false) : t.loads = [] := by
  rw [isReplaced] at whole
  rw [loads]
  split
  · -- No declarator is lowered.
    rename_i isDeclaration
    rw [if_pos isDeclaration, List.any_eq_false] at whole
    refine List.filterMap_eq_nil_iff.mpr fun d held => ?_
    rw [declaratorLoad?, if_neg (whole d held)]
  · rename_i noDeclaration
    rw [if_neg noDeclaration] at whole
    split
    · -- The call is not a direct one of a module that is named.
      rename_i isExpression
      rw [if_pos isExpression] at whole
      cases called : Loader.classify (t.get "expression") with
      | none => rfl
      | some loader =>
        rw [called, Option.any_some] at whole
        simp [whole]
    · rfl

/-- An assignment to `module.exports` loads nothing. -/
theorem loads_of_exportsValue {t value : Tree} (isExpression : t.isA "ExpressionStatement")
    (assigned : Lift.exportsValue? t = some value) : t.loads = [] := by
  -- An assignment is not taken for a call.
  rw [loads, isA_eq_false isExpression (by decide), if_neg Bool.false_ne_true, if_pos isExpression,
    Lift.classify_of_exportsValue assigned]
  rfl

/-- A call that stays is not reported as a missing module. -/
theorem not_isMissing_staying : ∀ notice ∈ stayingNotices, notice.isMissing = false := by decide

/-- None of the reports on record says that a module is missing: that is told by what is loaded. -/
theorem not_isMissing_entries {exported : Bool} {topLevel : List Text} {t : Tree}
    {d : Diagnostic} (member : .report d ∈ t.entries exported topLevel) : d.isMissing = false := by
  -- A report on record is on a call that stays or on exports.
  rw [Diagnostic.isMissing_eq]
  rcases notice_entries member with staying | ⟨_, value, _, held⟩
  · exact not_isMissing_staying _ staying
  · rcases notice_exportsReports held with refused | ⟨_, bound, exportedName, known⟩
    · rcases notice_exportsRefusal refused with known | known | known <;> rw [known] <;> rfl
    · rw [known]
      rfl

end Tree

namespace Lift

section Missing

variable {s : Surroundings} {entries : List Noted}

/-- The reports on missing modules are those on what is loaded. -/
theorem filter_isMissing (others : ∀ d, .report d ∈ entries → d.isMissing = false) :
    (entries.flatMap (Noted.diagnostics s)).filter Diagnostic.isMissing =
      ((entries.filterMap Noted.load?).filter (Load.isMissing s)).map Load.missing := by
  induction entries with
  | nil => rfl
  | cons entry rest ih =>
    have later := ih fun d held => others d (List.mem_cons_of_mem _ held)
    rw [List.flatMap_cons, List.filter_append, later]
    cases entry with
    | report d =>
      have other := others d List.mem_cons_self
      rw [List.filterMap_cons_none rfl]
      simp [Noted.diagnostics, other]
    | loaded load =>
      -- A module is reported just if it is missing, and as missing.
      have told : load.missing.isMissing := by rw [Diagnostic.isMissing_eq]; rfl
      cases missing : load.isMissing s <;> simp [Noted.diagnostics, Noted.load?, missing, told]

/-- A part of the lift that loads nothing: it adds no local module, asks for no file and reports
none as missing. -/
structure Idle (p q : Progress) : Prop where
  localModules : q.localModules = p.localModules
  probes : q.probes = p.probes
  missing : q.diagnostics.filter Diagnostic.isMissing = p.diagnostics.filter Diagnostic.isMissing

/-- Where nothing was loaded, nothing was added. -/
theorem Records.idle {p q : Progress} (records : Records s entries p q)
    (none : entries.filterMap Noted.load? = [])
    (others : ∀ d, .report d ∈ entries → d.isMissing = false) : Idle p q where
  localModules := by rw [records.localModules, none]; exact List.append_nil _
  probes := by rw [records.probes, none]; exact List.append_nil _
  missing := by
    rw [records.diagnostics, List.filter_append, filter_isMissing others, none]
    exact List.append_nil _

/-- A declarator for which no import is made. -/
theorem idle_declarator {d : Tree} {p : Progress}
    (untouched : (declarator s d p).1.statement? = none) : Idle p (declarator s d p).2 := by
  -- A declarator without an import is not lowered, so it loads nothing.
  obtain ⟨_, _, settles⟩ := declarator_settles s d p
  have unfit := settles.isSome_statement
  rw [untouched] at unfit
  refine (records_declarator s d p).idle ?_ fun report held => ?_
  · rw [Tree.loads_declaratorEntries, Tree.declaratorLoad?, ← unfit]
    rfl
  · rw [Diagnostic.isMissing_eq]
    exact Tree.not_isMissing_staying _ (Tree.notice_declaratorEntries held)

/-- A statement that becomes nodes of its own kind loads nothing. -/
theorem loads_of_same_kind {t : Tree} {p : Progress} {nodes : List Tree}
    (lowered : Lowered s t p nodes) (same : ∀ u ∈ nodes, u.kind? = t.kind?) : t.loads = [] := by
  -- Imports are of another kind than what they take the place of.
  have differs {u : Tree} {kind : String} (isImport : u.isA "ImportDeclaration") (isA : t.isA kind)
      (other : kind ≠ "ImportDeclaration") : u.kind? ≠ t.kind? := by
    rw [beq_iff_eq.mp isImport, beq_iff_eq.mp isA]
    exact fun equal => other (Option.some.inj equal).symm
  cases lowered with
  | kept whole => exact Tree.loads_of_whole whole
  | declared isDeclaration _ each imports =>
    obtain ⟨u, made⟩ := List.exists_mem_of_ne_nil _ imports
    obtain ⟨fate, held, found⟩ := List.mem_filterMap.mp made
    obtain ⟨d, _, bound, own, settles⟩ := exists_of_forall₂ each.flip held
    obtain ⟨specifiers, source, rfl⟩ := settles.import_eq found
    obtain ⟨region, member⟩ := exists_import_assemble s.marker t held found
    exact absurd (same _ member) (differs rfl isDeclaration (by decide))
  | loaded isExpression =>
    exact absurd (same _ (List.mem_singleton_self _)) (differs rfl isExpression (by decide))
  | exported isExpression _ assigned => exact Tree.loads_of_exportsValue isExpression assigned

/-- A statement that stays what it is, up to comments and flags. -/
theorem idle_replaceStatement {t : Tree} {p : Progress} {nodes : List Tree}
    (known : (replaceStatement s t p).1.place t = .ok nodes)
    (untouched : nodes.map Tree.bare = [t.bare]) : Idle p (replaceStatement s t p).2 := by
  -- Imports are of another kind than what they replace, so none was made.
  have made : nodes = (statement s t p).1 := by
    rw [Replacement.place_eq] at known
    split at known
    · cases known
    · exact (Except.ok.inj known).symm
  have same : ∀ u ∈ (statement s t p).1, u.kind? = t.kind? := by
    intro u held
    have bare : u.bare ∈ [t.bare] := untouched ▸ List.mem_map_of_mem (made ▸ held)
    rw [← Tree.kind?_bare, List.mem_singleton.mp bare, Tree.kind?_bare]
  refine (records_statement s t p).idle ?_ fun report held => Tree.not_isMissing_entries held
  rw [Tree.loads_entries, loads_of_same_kind (statement_lowered s t p) same]

end Missing

section Imports

variable {s : Surroundings}

/-- The modules that the imports among some statements name. -/
def sources (ts : List Tree) : List (Option Text) :=
  (ts.filter fun t => t.isA "ImportDeclaration").map Tree.source?

/-- The modules named in two lists of statements. -/
theorem sources_append (first second : List Tree) :
    sources (first ++ second) = sources first ++ sources second := by
  -- Selecting and reading off go along with joining.
  rw [sources, List.filter_append, List.map_append]
  rfl

/-- The modules named by a statement come before those named after it. -/
theorem sources_cons (t : Tree) (rest : List Tree) :
    sources (t :: rest) = sources [t] ++ sources rest :=
  sources_append [t] rest

/-- Comments and places do not matter. -/
theorem sources_mapMark (t : Tree) (change : Mark → Mark) :
    sources [t.mapMark change] = sources [t] := by
  cases isImport : t.isA "ImportDeclaration" <;> simp [sources, Tree.source?, isImport]

/-- A place does not change which modules are named. -/
theorem sources_anchorAll (region : Region) (added : List Tree) :
    sources (anchorAll region added) = sources added := by
  -- The recursion anchors one statement after the other.
  fun_induction anchorAll region added with
  | case1 => rfl
  | case2 last => exact sources_mapMark ..
  | case3 first rest _ ih =>
    rw [sources_cons, ih, sources_cons first, Tree.anchor, sources_mapMark]

/-- Other statements name no modules. -/
theorem sources_eq_nil {ts : List Tree} (others : ∀ t ∈ ts, t.isA "ImportDeclaration" = false) :
    sources ts = [] := by
  -- Only imports are asked.
  rw [sources, List.filter_eq_nil_iff.mpr fun t held => by simp [others t held]]
  rfl

/-- The import made for a declarator names what the declarator loads. -/
theorem Settles.sources_statement {bound : List Text} {d : Tree} {fate : Fate}
    {own : List Diagnostic} (settles : Settles s bound d fate own) :
    sources fate.statement?.toList =
      d.declaratorLoad?.toList.map fun load => some (load.resolved s).path := by
  have lowered := settles.isSome_statement
  -- A declarator loads something just if an import is made for it.
  rw [Tree.declaratorLoad?, ← lowered]
  cases settles with
  | taken _ called named fit names =>
    have value := names.stringValue named
    simp only [called, Option.bind_some, Loader.load?, named]
    exact congrArg ([·]) value
  | factored _ called named fit names =>
    have value := names.stringValue named
    simp only [called, Option.bind_some, Loader.load?, Loader.module?, Loader.target, named]
    exact congrArg ([·]) value
  | _ => rfl

/-- The imports made for declarators name what these load. -/
theorem sources_statements {ds : List Tree} {fates : List Fate}
    (each : List.Forall₂ (fun d fate => ∃ bound own, Settles s bound d fate own) ds fates) :
    sources (fates.filterMap Fate.statement?) =
      (ds.filterMap Tree.declaratorLoad?).map fun load => some (load.resolved s).path := by
  -- Each declarator has one import or none.
  rw [List.filterMap_eq_flatMap_toList, List.filterMap_eq_flatMap_toList]
  induction each with
  | nil => rfl
  | cons settles _ ih =>
    obtain ⟨bound, own, settles⟩ := settles
    rw [List.flatMap_cons, List.flatMap_cons, sources_append, settles.sources_statement, ih,
      List.map_append]

/-- What is left of a declaration is no import. -/
theorem sources_remainder (marker : Text) (t : Tree) (fates : List Fate) :
    sources (remainder marker t fates) = [] :=
  sources_eq_nil fun _ held => Tree.isA_eq_false (mem_remainder held).1 (by decide)

/-- The imports among what a statement becomes name what the statement loads, unless it is an import
itself. -/
theorem sources_lowered {t : Tree} {p : Progress} {nodes : List Tree}
    (lowered : Lowered s t p nodes) (other : t.isA "ImportDeclaration" = false) :
    sources nodes = t.loads.map fun load => some (load.resolved s).path := by
  cases lowered with
  | kept whole =>
    rw [Tree.loads_of_whole whole]
    -- What is kept is no import, with a comment or without.
    refine sources_eq_nil (List.forall_mem_singleton.mpr ?_)
    split
    · rwa [Tree.comment, Tree.isA_mapMark]
    · exact other
  | declared isDeclaration _ each imports =>
    rw [assemble_eq imports, sources_anchorAll, sources_append, sources_statements each,
      sources_remainder, List.append_nil, Tree.loads, if_pos isDeclaration]
  | loaded isExpression _ called named names =>
    have value := names.stringValue named
    rw [Tree.anchor, sources_mapMark, Tree.loads, Tree.isA_eq_false isExpression (by decide),
      if_neg Bool.false_ne_true, if_pos isExpression, called]
    simp only [Option.filter_some, Loader.isDirect, named, Option.isSome_some, if_true,
      Option.bind_some, Loader.load?, Loader.module?, Loader.target, Option.map_some]
    exact congrArg ([·]) value
  | exported isExpression _ assigned =>
    rw [Tree.loads_of_exportsValue isExpression assigned, sources_anchorAll]
    -- Exports have no source.
    refine sources_eq_nil fun u held => ?_
    rcases eq_of_mem_exports held with rfl | rfl
    · rfl
    · rfl

/-- The imports put in for a statement. -/
def Page.imports (page : Page) : List Tree :=
  if page.statement.isA "ImportDeclaration" then []
  else page.nodes.filter fun t => t.isA "ImportDeclaration"

/-- One import is put in for each load, in order. -/
theorem Page.Filled.sources_imports {topLevel : List Text} {exported : Bool} {page : Page}
    (filled : page.Filled s topLevel exported) :
    page.imports.map Tree.source? =
      page.statement.loads.map fun load => some (load.resolved s).path := by
  obtain ⟨p, _, lowered⟩ := filled.becomes
  rw [Page.imports]
  split
  · -- An import stands for itself, and loads nothing anew.
    rename_i isImport
    rw [Tree.loads, Tree.isA_eq_false isImport (by decide), Tree.isA_eq_false isImport (by decide)]
    rfl
  · rename_i other
    rw [← Tree.loads_annotate s.marker]
    exact sources_lowered lowered (by simpa using other)

/-- What is loaded for a page, and the reports on what is missing. -/
theorem Page.Filled.loads_entries {topLevel : List Text} {exported : Bool} {page : Page}
    (filled : page.Filled s topLevel exported) :
    page.entries.filterMap Noted.load? = page.statement.loads ∧
      ∀ d, .report d ∈ page.entries → d.isMissing = false := by
  rw [filled.recorded]
  refine ⟨?_, fun d held => ?_⟩
  · rw [List.filterMap_append, loads_report, List.nil_append, Tree.loads_entries]
  · rcases List.mem_append.mp held with below | here
    · -- What lies below is reported, but not loaded.
      obtain ⟨report, buried, same⟩ := List.mem_map.mp below
      cases same
      obtain ⟨_, _, rfl⟩ := List.mem_map.mp buried
      rw [Diagnostic.isMissing_eq]
      rfl
    · exact Tree.not_isMissing_entries here

/-- What is loaded for all pages. -/
theorem Page.Follow.loads_entries {topLevel : List Text} {exported : Bool} {pages : List Page}
    (follow : Page.Follow s topLevel exported pages) :
    (pages.flatMap Page.entries).filterMap Noted.load? =
      (pages.map Page.statement).flatMap Tree.loads := by
  -- Each page has on record what its statement loads.
  rw [List.filterMap_flatMap, List.flatMap_map]
  refine List.flatMap_congr fun page held => ?_
  obtain ⟨earlier, filled⟩ := follow.filled held
  exact filled.loads_entries.1

/-- A local module is added for each load that names one. -/
theorem localModules_loads (loads : List Load) :
    loads.flatMap (Load.localModules s) =
      (loads.filter fun load => Specifier.isLocal load.module).map
        fun load => (load.resolved s).path := by
  -- A load adds one module or none.
  induction loads with
  | nil => rfl
  | cons load rest ih =>
    rw [List.flatMap_cons, ih, List.filter_cons, Load.localModules]
    split <;> rfl

/-- Which of the loads are local shows in what their specifiers are completed to. -/
theorem filter_isLocal_path (loads : List Load) :
    (loads.map fun load => (load.resolved s).path).filter Specifier.isLocal =
      (loads.filter fun load => Specifier.isLocal load.module).map
        fun load => (load.resolved s).path := by
  -- Completing a path keeps how it starts.
  rw [List.filter_map]
  exact congrArg (List.map _) (List.filter_congr fun load _ => Specifier.isLocal_path ..)

end Imports

end Lift

open Lift in
/-- The local modules of a lifted program are those that its new imports name, in the order of
these, and the reports on missing modules are on those of them for which no file was found. A
declarator or statement that stays as it is adds nothing to either, and asks for no file. -/
theorem localModules_liftWith (ledger : Ledger) (s : Surroundings) {program : Tree}
    (isProgram : program.isA "Program") :
    let body := (program.get "body").items
    let loads := body.flatMap Tree.loads
    let locals := loads.filter fun load => Specifier.isLocal load.module
    (program.Ranged → ∃ lifted, liftWith ledger s program = .ok lifted) ∧
    (∀ lifted, liftWith ledger s program = .ok lifted → ∃ (names : Polyfill) (pages : List Page),
      pages.map Page.statement = body ∧ pages.map Page.nodes = outputs s body (.ofLedger ledger) ∧
      (lifted.program.get "body").items =
        opening names (pages.flatMap Page.nodes) ++ pages.flatMap Page.nodes ∧
      (∀ page ∈ pages, page.imports.map Tree.source? =
        page.statement.loads.map fun load => some (load.resolved s).path) ∧
      lifted.localModules =
        ((pages.flatMap Page.imports).filterMap Tree.source?).filter Specifier.isLocal ∧
      lifted.localModules = locals.map (fun load => (load.resolved s).path) ∧
      lifted.diagnostics.filter Diagnostic.isMissing =
        (locals.filter fun load => !(load.resolved s).found).map Load.missing ∧
      lifted.probes = loads.flatMap (Load.probes s)) ∧
    (∀ d p, (declarator s d p).1.statement? = none → Idle p (declarator s d p).2) ∧
    (∀ t p nodes, (replaceStatement s t p).1.place t = .ok nodes →
      nodes.map Tree.bare = [t.bare] → Idle p (replaceStatement s t p).2) := by
  intro body loads locals
  refine ⟨exists_liftWith ledger s isProgram, fun lifted known => ?_,
    fun d p => idle_declarator, fun t p nodes => idle_replaceStatement⟩
  obtain ⟨names, pages, statements, nodes, _, items, modules, probes, diagnostics, follow⟩ :=
    pages_liftWith s known
  have loaded : (pages.flatMap Page.entries).filterMap Noted.load? = loads := by
    rw [follow.loads_entries, statements]
  rw [loaded] at modules probes
  have imports : ∀ page ∈ pages, page.imports.map Tree.source? =
      page.statement.loads.map fun load => some (load.resolved s).path := by
    intro page held
    obtain ⟨earlier, filled⟩ := follow.filled held
    exact filled.sources_imports
  have sources : (pages.flatMap Page.imports).filterMap Tree.source? =
      loads.map fun load => (load.resolved s).path := by
    -- Each import names a module, so nothing is lost on the way.
    have all : (pages.flatMap Page.imports).map Tree.source? =
        (loads.map fun load => (load.resolved s).path).map some := by
      simp only [loads, body, ← statements, List.flatMap_map, List.map_flatMap, List.map_map]
      exact List.flatMap_congr imports
    have named := congrArg (List.filterMap id) all
    simpa using named
  refine ⟨names, pages, statements, nodes, items, imports, ?_, ?_, ?_, probes⟩
  · rw [modules, localModules_loads, sources, filter_isLocal_path]
  · rw [modules, localModules_loads]
  · have others : ∀ d, .report d ∈ pages.flatMap Page.entries → d.isMissing = false := by
      intro d held
      obtain ⟨page, member, here⟩ := List.mem_flatMap.mp held
      obtain ⟨earlier, filled⟩ := follow.filled member
      exact filled.loads_entries.2 d here
    have reports : lifted.diagnostics =
        (pages.flatMap Page.entries).flatMap (Noted.diagnostics s) := by
      rw [diagnostics, List.flatMap_assoc]
      rfl
    rw [reports, filter_isMissing others, loaded, List.filter_filter]
    exact congrArg (List.map Load.missing) (List.filter_congr fun load _ => Bool.and_comm ..)

/-- The text `const a = require('./a'), b = require('./b'), [c] = require('./c');` and, on the next
line, `require('d');`. -/
def localSample : Tree :=
  let named (name : Text) : Tree := .synthetic "Identifier" [("name", .text name)]
  let load (module : Text) : Tree := .synthetic "CallExpression" [("callee", named "require"),
    ("arguments", .list [.synthetic "Literal" [("value", .text module)]])]
  let bound (id : Tree) (module : Text) : Tree :=
    .synthetic "VariableDeclarator" [("id", id), ("init", load module)]
  -- One module is found, one is not, one is bound to a pattern and one is not local.
  .synthetic "Program" [("body", .list [
    .node (some "VariableDeclaration") { range := some ⟨0, 67⟩ } [("declarations", .list
      [bound (named "a") "./a", bound (named "b") "./b",
        bound (.synthetic "ArrayPattern" []) "./c"]), ("kind", .text "const")],
    .node (some "ExpressionStatement") { range := some ⟨68, 81⟩ } [("expression", load "d")]])]

/-- Of three local modules two are imported, of which one is missing. -/
theorem localModules_liftWith_sample :
    let s : Surroundings := { isFile := fun path => path == "./a.js" }
    localSample.isA "Program" ∧ localSample.Ranged ∧
      ∃ lifted, liftWith {} s localSample = .ok lifted ∧
      lifted.localModules = (["./a.js", "./b"] : List Text) ∧
      (lifted.diagnostics.filter Diagnostic.isMissing).map (·.notice) = [.missingModule "./b"] ∧
      lifted.probes = (["./a.js", "./b.js", "./b/index.js"] : List Text) := by
  -- Both statements were read; what is loaded is computed from the sample.
  have ranged : localSample.Ranged := by decide
  obtain ⟨lifts, each, _⟩ := localModules_liftWith {} { isFile := fun path => path == "./a.js" }
    (show localSample.isA "Program" by decide)
  obtain ⟨lifted, known⟩ := lifts ranged
  obtain ⟨_, _, _, _, _, _, _, modules, missing, probes⟩ := each lifted known
  exact ⟨by decide, ranged, lifted, known, modules.trans (by decide), by rw [missing]; decide,
    probes.trans (by decide)⟩

end ModuleLift
