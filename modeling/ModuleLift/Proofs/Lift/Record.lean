import ModuleLift.Proofs.Lift.Rest
import ModuleLift.Proofs.Specifier

/-! What is put on record for a top-level statement: the modules that are loaded for it, and the
reports on it. All that a lifted program tells besides its body comes from this record. -/

namespace ModuleLift

namespace Tree

/-- Trees that differ in comments and flags only, and not in what counts as set. -/
structure Alike (t u : Tree) : Prop where
  skeleton : t.skeleton = u.skeleton
  bare : t.bare = u.bare

variable {t u : Tree}

/-- Fields of alike trees are alike. -/
theorem Alike.get (alike : Alike t u) (key : String) : Alike (t.get key) (u.get key) where
  skeleton := by rw [← get_skeleton, alike.skeleton, get_skeleton]
  bare := by rw [← get_bare, alike.bare, get_bare]

/-- A commented tree is like the tree. -/
theorem alike_annotate (marker : Text) (nested : Bool) (t : Tree) :
    Alike (t.annotate marker nested).1 t :=
  ⟨skeleton_annotate marker nested t, bare_annotate marker nested t⟩

/-- Comments and flags do not show in a report. -/
theorem Alike.about (alike : Alike t u) (notice : Notice) :
    Diagnostic.about notice t = .about notice u := by
  rw [← about_bare, alike.bare, about_bare]

end Tree

/-- A call of `require` that an import takes the place of: the module it names, and where the
literal with the name stands. -/
structure Load where
  module : Text
  spot : Spot

namespace Load

section

variable (s : Surroundings) (l : Load)

/-- What comes of completing the specifier. -/
def resolved : Specifier.Resolved := Specifier.resolve s.isFile s.baseDir s.extensions l.module

/-- The paths asked for. -/
def probes : List Text := (l.resolved s).probes

/-- The local modules it adds: what a local specifier is completed to. -/
def localModules : List Text := if Specifier.isLocal l.module then [(l.resolved s).path] else []

/-- The report on a local module that is not found. -/
def missing : Diagnostic := { notice := .missingModule l.module, spot := l.spot }

/-- Whether it names a local module for which there is no file. -/
def isMissing : Bool := Specifier.isLocal l.module && !(l.resolved s).found

end

end Load

namespace Loader

/-- What is loaded, if the argument of `require` is a string literal. -/
def load? (loader : Loader) : Option Load :=
  loader.module?.map fun module => ⟨module, loader.target.mark.spot⟩

/-- The module that is named is the one that is loaded. -/
theorem load?_of_named {loader : Loader} {module : Text} (named : loader.module? = some module) :
    loader.load? = some ⟨module, loader.target.mark.spot⟩ := by
  -- A load is a module with the place where it is named.
  rw [load?, named]
  rfl

/-- Without a name nothing is loaded. -/
theorem load?_of_unnamed {loader : Loader} (unnamed : loader.module? = none) :
    loader.load? = none := by
  -- A load needs a module.
  rw [load?, unnamed]
  rfl

/-- Alike expressions are recognized alike, with alike arguments. -/
theorem classify_alike {t u : Tree} (alike : t.Alike u) {loader : Loader}
    (called : classify t = some loader) :
    ∃ other, classify u = some other ∧ other.skeleton = loader.skeleton ∧
      other.load? = loader.load? := by
  obtain ⟨other, known, shape⟩ := classify_congr alike.skeleton called
  refine ⟨other, known, shape, ?_⟩
  -- A single argument is told by the bare call.
  have argument {t u first second : Tree} (alike : t.Alike u) (one : Requires t first)
      (two : Requires u second) : second.bare = first.bare := by
    have both := congrArg (fun v => v.items) (alike.get "arguments").bare
    simp only [Tree.items_bare, one.single, two.single] at both
    exact (List.singleton_inj.mp both).symm
  have target : other.target.bare = loader.target.bare := by
    cases calls_of_classify called with
    | plain call =>
      cases calls_of_classify known with
      | plain found => exact argument alike call found
      | _ => cases shape
    | factory _ inner =>
      cases calls_of_classify known with
      | factory _ found => exact argument (alike.get "callee") inner found
      | _ => cases shape
    | member _ inner =>
      cases calls_of_classify known with
      | member _ found => exact argument (alike.get "object") inner found
      | _ => cases shape
  have spots := congrArg (fun v : Tree => v.mark.spot) target
  simp only [Tree.mark_bare, Mark.bare] at spots
  rw [load?, load?, spots, ← module?_skeleton, shape, module?_skeleton]

/-- A call that is not recognized is not recognized in an alike expression. -/
theorem classify_alike_none {t u : Tree} (alike : t.Alike u) (other : classify t = none) :
    classify u = none := by
  -- Recognition goes by skeletons, on both sides.
  have both := classify_skeleton u
  rw [← alike.skeleton, classify_skeleton, other, Option.map_none] at both
  exact Option.map_eq_none_iff.mp both.symm

end Loader

/-- What is put on record: something that is loaded, or a report. -/
inductive Noted where
  | loaded (load : Load)
  | report (diagnostic : Diagnostic)

namespace Noted

/-- What is loaded. -/
def load? : Noted → Option Load
  | .loaded load => some load
  | .report _ => none

/-- The reports an entry stands for. A load is reported if it is missing. -/
def diagnostics (s : Surroundings) : Noted → List Diagnostic
  | .loaded load => if load.isMissing s then [load.missing] else []
  | .report diagnostic => [diagnostic]

end Noted

namespace Tree

/-- What is put on record for a declarator. -/
def declaratorEntries (d : Tree) : List Noted :=
  match Loader.classify (d.get "init") with
  | none => []
  | some loader =>
    match loader.load? with
    | none => [.report (.about .dynamicDeclaration d)]
    | some load =>
      if d.isLowered then [.loaded load] else [.report (.about (d.get "id").refusal (d.get "id"))]

/-- The reports on a statement that assigns a value to `module.exports`: one on the refusal, or one
for each exported name that nothing binds. -/
def exportsReports (exported : Bool) (topLevel : List Text) (t value : Tree) : List Diagnostic :=
  match value.exportsRefusal? exported with
  | some notice => [.about notice t]
  | none => Lift.unboundExports { topLevel } t
      (((ExportMap.ofObject? value).map ExportMap.namedExports).getD [])

/-- What is put on record for an expression statement. -/
def expressionEntries (exported : Bool) (topLevel : List Text) (t : Tree) : List Noted :=
  match Loader.classify (t.get "expression") with
  | some loader =>
    match loader.load? with
    | none => [.report (.about .dynamicStatement t)]
    | some load => if loader.isDirect then [.loaded load] else []
  | none =>
    match Lift.exportsValue? t with
    | some value => (exportsReports exported topLevel t value).map .report
    | none => []

/-- What is put on record for a top-level statement, after what lies below it. -/
def entries (exported : Bool) (topLevel : List Text) (t : Tree) : List Noted :=
  if t.isA "VariableDeclaration" then (t.get "declarations").items.flatMap declaratorEntries
  else if t.isA "ExpressionStatement" then expressionEntries exported topLevel t
  else []

/-- The notices on calls of `require` that stay at the top level. -/
def stayingNotices : List Notice :=
  [.dynamicDeclaration, .dynamicStatement, .destructured, .unsupportedBinding]

section Notices

variable {exported : Bool} {topLevel : List Text} {t : Tree} {d : Diagnostic}

/-- What is reported on a declarator. -/
theorem notice_declaratorEntries (member : .report d ∈ t.declaratorEntries) :
    d.notice ∈ stayingNotices := by
  -- A declarator has no report, one that its module is not named, or one that its pattern is
  -- refused.
  rw [declaratorEntries] at member
  split at member
  · cases member
  · split at member
    · cases List.mem_singleton.mp member
      simp [stayingNotices, Diagnostic.about]
    · split at member
      · cases List.mem_singleton.mp member
      · cases List.mem_singleton.mp member
        rw [Diagnostic.about, refusal]
        split <;> simp [stayingNotices]

/-- What is reported on a statement that assigns to `module.exports`. -/
theorem notice_exportsReports {value : Tree}
    (member : d ∈ t.exportsReports exported topLevel value) :
    value.exportsRefusal? exported = some d.notice ∨ value.exportsRefusal? exported = none ∧
      ∃ bound exportedName, d.notice = .exportUnbound bound exportedName := by
  -- A refusal is one report; otherwise there is one for each name that is not bound.
  rw [exportsReports] at member
  split at member
  · rename_i notice refused
    rw [List.mem_singleton.mp member, refused]
    exact .inl rfl
  · rename_i accepted
    obtain ⟨pair, _, rfl⟩ := List.mem_map.mp member
    exact .inr ⟨accepted, pair.1, pair.2, rfl⟩

/-- What is reported on an expression statement: a call that stays, or an assignment. -/
theorem notice_expressionEntries (member : .report d ∈ t.expressionEntries exported topLevel) :
    d.notice ∈ stayingNotices ∨ ∃ value, Lift.exportsValue? t = some value ∧
      d ∈ t.exportsReports exported topLevel value := by
  -- A call is looked for first. Only a statement without one can be an assignment.
  rw [expressionEntries] at member
  split at member
  · split at member
    · cases List.mem_singleton.mp member
      exact .inl (by simp [stayingNotices, Diagnostic.about])
    · split at member
      · cases List.mem_singleton.mp member
      · cases member
  · split at member
    · rename_i value assigned
      obtain ⟨report, held, same⟩ := List.mem_map.mp member
      cases same
      exact .inr ⟨value, assigned, held⟩
    · cases member

/-- What is reported on a top-level statement itself: a call that stays, or an assignment. -/
theorem notice_entries (member : .report d ∈ t.entries exported topLevel) :
    d.notice ∈ stayingNotices ∨ t.isA "ExpressionStatement" ∧ ∃ value,
      Lift.exportsValue? t = some value ∧ d ∈ t.exportsReports exported topLevel value := by
  -- Declarators are reported for their calls only.
  rw [entries] at member
  split at member
  · obtain ⟨declarator, _, held⟩ := List.mem_flatMap.mp member
    exact .inl (notice_declaratorEntries held)
  · split at member
    · exact (notice_expressionEntries member).imp_right (.intro ‹_›)
    · cases member

end Notices

section Alike

variable {t u : Tree} (alike : t.Alike u)

include alike

/-- Alike declarators have the same entries. -/
theorem Alike.declaratorEntries : t.declaratorEntries = u.declaratorEntries := by
  -- Entries are made of what the skeleton tells and of places.
  have id := alike.get "id"
  have lowered : t.isLowered = u.isLowered := by
    rw [← isLowered_skeleton, alike.skeleton, isLowered_skeleton]
  have pattern : (t.get "id").refusal = (u.get "id").refusal := by
    rw [refusal, ← isA_skeleton, id.skeleton, isA_skeleton, refusal]
  rw [Tree.declaratorEntries, Tree.declaratorEntries]
  cases called : Loader.classify (t.get "init") with
  | none => rw [Loader.classify_alike_none (alike.get "init") called]
  | some loader =>
    obtain ⟨other, known, _, load⟩ := Loader.classify_alike (alike.get "init") called
    simp only [known, load, lowered, pattern, id.about, alike.about]

/-- The reports on an assignment to `module.exports`, by what the skeletons tell. -/
theorem Alike.exportsReports (exported : Bool) (topLevel : List Text) {value other : Tree}
    (same : value.skeleton = other.skeleton) :
    t.exportsReports exported topLevel value = u.exportsReports exported topLevel other := by
  -- The object and its entries are told by the skeleton, the place by the bare tree.
  have object : value.isA "ObjectExpression" = other.isA "ObjectExpression" := by
    rw [← isA_skeleton, same, isA_skeleton]
  have found : ExportMap.ofObject? value = ExportMap.ofObject? other := by
    rw [← ExportMap.ofObject?_skeleton, same, ExportMap.ofObject?_skeleton]
  simp only [Tree.exportsReports, exportsRefusal?, object, found, alike.about,
    Lift.unboundExports]

/-- Alike expression statements have the same entries. -/
theorem Alike.expressionEntries (exported : Bool) (topLevel : List Text) :
    t.expressionEntries exported topLevel = u.expressionEntries exported topLevel := by
  have expression := alike.get "expression"
  rw [Tree.expressionEntries, Tree.expressionEntries]
  cases called : Loader.classify (t.get "expression") with
  | some loader =>
    obtain ⟨other, known, shape, load⟩ := Loader.classify_alike expression called
    have direct : other.isDirect = loader.isDirect := by
      rw [← Loader.isDirect_skeleton, shape, Loader.isDirect_skeleton]
    simp only [known, load, direct, alike.about]
  | none =>
    -- Where nothing is called, the values assigned are alike too.
    have values : (Lift.exportsValue? t).map Tree.skeleton =
        (Lift.exportsValue? u).map Tree.skeleton := by
      rw [← exportsValue?_skeleton, alike.skeleton, exportsValue?_skeleton]
    rw [Loader.classify_alike_none expression called]
    cases first : Lift.exportsValue? t with
    | none =>
      rw [first, Option.map_none] at values
      rw [Option.map_eq_none_iff.mp values.symm]
    | some value =>
      rw [first, Option.map_some] at values
      obtain ⟨other, second, same⟩ := Option.map_eq_some_iff.mp values.symm
      simp only [second, alike.exportsReports exported topLevel same.symm]

end Alike

/-- Commenting what lies below a statement does not change what is put on record for it. -/
theorem entries_annotate (marker : Text) (exported : Bool) (topLevel : List Text) (t : Tree) :
    (t.annotate marker false).1.entries exported topLevel = t.entries exported topLevel := by
  -- A commented declarator or expression is like the one it was.
  rw [entries, entries, isA_annotate, isA_annotate]
  split
  · rename_i isDeclaration
    rw [declarations_annotate marker false isDeclaration, List.flatMap_map]
    exact List.flatMap_congr fun d _ => (alike_annotate marker true d).declaratorEntries
  · rw [(alike_annotate marker false t).expressionEntries]

end Tree

namespace Lift

/-- The second record is the first with some entries behind it. -/
structure Records (s : Surroundings) (entries : List Noted) (p q : Progress) : Prop where
  localModules :
    q.localModules = p.localModules ++ (entries.filterMap Noted.load?).flatMap (Load.localModules s)
  probes : q.probes = p.probes ++ (entries.filterMap Noted.load?).flatMap (Load.probes s)
  diagnostics : q.diagnostics = p.diagnostics ++ entries.flatMap (Noted.diagnostics s)

section Records

variable {s : Surroundings} {p q : Progress}

/-- Nothing on record changes nothing. -/
theorem records_nil (p : Progress) : Records s [] p p :=
  ⟨(List.append_nil _).symm, (List.append_nil _).symm, (List.append_nil _).symm⟩

/-- What is on record for two parts is on record for both together. -/
theorem Records.append {r : Progress} {first second : List Noted} (one : Records s first p q)
    (two : Records s second q r) : Records s (first ++ second) p r where
  localModules := by
    rw [two.localModules, one.localModules, List.filterMap_append, List.flatMap_append,
      List.append_assoc]
  probes := by
    rw [two.probes, one.probes, List.filterMap_append, List.flatMap_append, List.append_assoc]
  diagnostics := by
    rw [two.diagnostics, one.diagnostics, List.flatMap_append, List.append_assoc]

/-- Reports load nothing. -/
theorem loads_report (more : List Diagnostic) :
    (more.map Noted.report).filterMap Noted.load? = [] := by
  -- A report is no load.
  rw [List.filterMap_map]
  exact List.filterMap_eq_nil_iff.mpr fun _ _ => rfl

/-- Reports stand for themselves. -/
theorem diagnostics_report (more : List Diagnostic) :
    (more.map Noted.report).flatMap (Noted.diagnostics s) = more := by
  -- Each report gives itself.
  rw [List.flatMap_map]
  exact List.flatMap_singleton' more

/-- Reports add nothing but themselves. -/
theorem records_reportAll (more : List Diagnostic) (p : Progress) :
    Records s (more.map .report) p (p.reportAll more) := by
  -- Reports are neither local modules nor questions for files.
  refine ⟨by rw [loads_report]; exact (List.append_nil _).symm,
    by rw [loads_report]; exact (List.append_nil _).symm, ?_⟩
  rw [diagnostics_report]
  rfl

/-- One report adds itself. -/
theorem records_report (notice : Notice) (t : Tree) (p : Progress) :
    Records s [.report (.about notice t)] p (p.report notice t) :=
  records_reportAll [.about notice t] p

/-- The source of an import is put on record. -/
theorem records_importSource {loader : Loader} {load : Load} (named : loader.load? = some load)
    (p : Progress) :
    Records s [.loaded load] p (importSource s loader.target load.module p).2 := by
  obtain ⟨module, _, rfl⟩ := Option.map_eq_some_iff.mp named
  -- A specifier counts as local as it is written, and is looked for whether or not it does.
  have isLocal := Specifier.isLocal_resolve s.isFile s.baseDir s.extensions module
  rw [importSource, Progress.noteResolved_eq, isLocal]
  constructor <;> simp [Noted.load?, Noted.diagnostics, Load.localModules, Load.probes,
    Load.isMissing, Load.resolved, Load.missing, Diagnostic.about]

/-- A record is told by what it adds to. -/
theorem Records.congr {r : Progress} {entries : List Noted} (records : Records s entries p q)
    (localModules : r.localModules = q.localModules) (probes : r.probes = q.probes)
    (diagnostics : r.diagnostics = q.diagnostics) : Records s entries p r :=
  ⟨localModules ▸ records.localModules, probes ▸ records.probes,
    diagnostics ▸ records.diagnostics⟩

end Records

section Statements

variable (s : Surroundings)

/-- A declarator is put on record if it loads a module or is reported on. -/
theorem records_declarator (d : Tree) (p : Progress) :
    Records s d.declaratorEntries p (declarator s d p).2 := by
  have step := declarator_step s d p
  generalize declarator s d p = result at step ⊢
  cases step with
  | uncalled uncalled =>
    simp only [Tree.declaratorEntries, uncalled]
    exact records_nil p
  | dynamic called unnamed =>
    simp only [Tree.declaratorEntries, called, Loader.load?_of_unnamed unnamed]
    exact records_report ..
  | refused called named unfit =>
    simp only [Tree.declaratorEntries, called, Loader.load?_of_named named, unfit]
    exact records_report ..
  | imported called named fit =>
    have load := Loader.load?_of_named named
    have lowered : d.isLowered := Bool.or_eq_true_iff.mpr (.inl fit)
    simp only [Tree.declaratorEntries, called, load, lowered]
    exact records_importSource load p
  | @factored target arguments module factory called named fit =>
    have load := @Loader.load?_of_named (.factory target arguments) module named
    have lowered : d.isLowered := Bool.or_eq_true_iff.mpr (.inr fit)
    simp only [Tree.declaratorEntries, called, load, lowered]
    -- Taking a name for the factory is not put on record.
    exact (records_importSource load p).congr rfl rfl rfl

/-- The declarators are put on record one after the other. -/
theorem records_declarators (ds : List Tree) (p : Progress) :
    Records s (ds.flatMap Tree.declaratorEntries) p (declarators s ds p).2 := by
  -- The induction carries the record from one declarator to the next.
  induction ds generalizing p with
  | nil => exact records_nil p
  | cons d rest ih =>
    rw [List.flatMap_cons]
    exact (records_declarator s d p).append (ih _)

/-- What is put on record for an expression statement. -/
theorem records_expressionStatement (t : Tree) (p : Progress) :
    Records s (t.expressionEntries p.exported p.names.topLevel) p
      (expressionStatement s t p).2 := by
  -- Each way to deal with the statement tells what is reported or loaded.
  have step := expressionStatement_step s t p
  generalize expressionStatement s t p = result at step ⊢
  cases step with
  | dynamic called unnamed =>
    simp only [Tree.expressionEntries, called, Loader.load?_of_unnamed unnamed]
    exact records_report ..
  | @loaded target module called named =>
    have load := @Loader.load?_of_named (.plain target) module named
    have direct : (Loader.plain target).isDirect := Option.isSome_of_eq_some named
    simp only [Tree.expressionEntries, called, load, direct]
    exact records_importSource load p
  | discarded called named indirect =>
    simp only [Tree.expressionEntries, called, Loader.load?_of_named named,
      Loader.isDirect_of_indirect indirect]
    exact records_nil p
  | idle uncalled unassigned =>
    simp only [Tree.expressionEntries, uncalled, unassigned]
    exact records_nil p
  | refused uncalled assigned refused =>
    simp only [Tree.expressionEntries, uncalled, assigned, Tree.exportsReports, refused]
    exact records_report ..
  | @exported value entries uncalled assigned object found first =>
    have unrefused : value.exportsRefusal? p.exported = none :=
      Tree.exportsRefusal?_eq_none.mpr ⟨by simp [object, found], first⟩
    simp only [Tree.expressionEntries, uncalled, assigned, Tree.exportsReports, unrefused, found]
    have reported := @records_reportAll s (unboundExports p.names t entries.namedExports) p
    exact reported.congr rfl rfl rfl

/-- What is put on record for a top-level statement. -/
theorem records_statement (t : Tree) (p : Progress) :
    Records s (t.entries p.exported p.names.topLevel) p (statement s t p).2 := by
  -- Other statements than these two put nothing on record.
  rw [statement_eq, Tree.entries]
  split
  · exact records_declarators s _ p
  · split
    · exact records_expressionStatement s t p
    · exact records_nil p

/-- Noting which names a statement mentions leaves those bound at the top level. -/
theorem topLevel_mention (p : Progress) (names : List Text) :
    (p.mention names).names.topLevel = p.names.topLevel := by
  rw [Progress.mention, Polyfill.foldl_record_eq]

/-- One statement: what lies below it is reported first. -/
theorem records_step (t : Tree) (p : Progress) :
    Records s (t.buriedDiagnostics.map .report ++ t.entries p.exported p.names.topLevel) p
      (step s t p).2.2 := by
  -- Mentions do not change which names are bound at the top level.
  let noted := (p.mention t.mentions).reportAll t.buriedDiagnostics
  have below : Records s (t.buriedDiagnostics.map .report) p noted :=
    (records_reportAll t.buriedDiagnostics p).congr rfl rfl rfl
  have here := records_statement s (t.annotate s.marker false).1 noted
  have topLevel : noted.names.topLevel = p.names.topLevel := topLevel_mention p _
  rw [topLevel, Tree.entries_annotate] at here
  exact below.append here

/-- Going through a statement binds nothing at the top level. -/
theorem topLevel_step (t : Tree) (p : Progress) :
    (step s t p).2.2.names.topLevel = p.names.topLevel := by
  -- The names at the top level are set once, at the start.
  rw [names_step]
  exact topLevel_mention p _

end Statements

/-- A top-level statement, what it became, and what was put on record for it. -/
structure Page where
  statement : Tree
  nodes : List Tree
  entries : List Noted

namespace Page

/-- The reports on a page. -/
def reports (s : Surroundings) (page : Page) : List Diagnostic :=
  page.entries.flatMap (Noted.diagnostics s)

/-- A page as lifting leaves it, where exports were made before or not. -/
structure Filled (s : Surroundings) (topLevel : List Text) (exported : Bool) (page : Page) :
    Prop where
  becomes : ∃ p : Progress, p.exported = exported ∧
    Lowered s (page.statement.annotate s.marker false).1 p page.nodes
  recorded : page.entries = page.statement.buriedDiagnostics.map .report ++
    page.statement.entries exported topLevel

/-- Pages of which each is as the ones before it make it. -/
def Follow (s : Surroundings) (topLevel : List Text) (exported : Bool) (pages : List Page) : Prop :=
  ∀ before page after, pages = before ++ page :: after →
    page.Filled s topLevel (exported || before.any fun earlier => earlier.statement.yieldsExports)

variable {s : Surroundings} {topLevel : List Text} {exported : Bool}

/-- No pages follow each other. -/
theorem follow_nil : Follow s topLevel exported [] := by
  -- There is no page to be filled.
  intro before page after split
  simp at split

/-- Exports are made before a page if they were made at all, or by the first page. -/
theorem follow_cons {page : Page} {pages : List Page} (first : page.Filled s topLevel exported)
    (rest : Follow s topLevel (exported || page.statement.yieldsExports) pages) :
    Follow s topLevel exported (page :: pages) := by
  -- A page is the first one, or comes later among the others.
  intro before other after split
  cases before with
  | nil =>
    obtain ⟨rfl, -⟩ := List.cons.inj split
    simpa using first
  | cons opening before =>
    obtain ⟨rfl, later⟩ := List.cons.inj split
    simpa [Bool.or_assoc] using rest before other after later

/-- Each page is filled, where exports were made before it or not. -/
theorem Follow.filled {pages : List Page} (follow : Follow s topLevel exported pages) {page : Page}
    (held : page ∈ pages) : ∃ earlier, page.Filled s topLevel earlier := by
  -- Each page has pages before it and pages after it.
  obtain ⟨before, after, rfl⟩ := List.append_of_mem held
  exact ⟨_, follow before page after rfl⟩

end Page

section Run

variable (s : Surroundings)

/-- All statements: one page for each, in order. -/
theorem pages_steps (ts : List Tree) (p : Progress) :
    ∃ pages : List Page, pages.map Page.statement = ts ∧
      pages.map Page.nodes = outputs s ts p ∧
      Records s (pages.flatMap Page.entries) p (steps s ts p).2.2 ∧
      Page.Follow s p.names.topLevel p.exported pages := by
  -- Each page is filled from where the ones before it left progress; what it needs of that is the
  -- top level, which stays, and whether exports were made.
  induction ts generalizing p with
  | nil => exact ⟨[], rfl, rfl, records_nil p, Page.follow_nil⟩
  | cons t rest ih =>
    obtain ⟨pages, statements, nodes, records, follow⟩ := ih (step s t p).2.2
    rw [topLevel_step, exported_step] at follow
    let page : Page := ⟨t, (step s t p).1,
      t.buriedDiagnostics.map .report ++ t.entries p.exported p.names.topLevel⟩
    have filled : page.Filled s p.names.topLevel p.exported :=
      ⟨⟨(p.mention t.mentions).reportAll t.buriedDiagnostics, rfl, step_lowered s t p⟩, rfl⟩
    refine ⟨page :: pages, ?_, ?_, ?_, Page.follow_cons filled follow⟩
    · rw [List.map_cons, statements]
    · rw [List.map_cons, nodes, outputs]
    · rw [List.flatMap_cons]
      exact (records_step s t p).append records

/-- A lifted program tells what is on its pages. -/
theorem pages_liftWith {ledger : Ledger} {program : Tree} {lifted : Lifted}
    (known : liftWith ledger s program = .ok lifted) :
    ∃ (names : Polyfill) (pages : List Page),
      pages.map Page.statement = (program.get "body").items ∧
      pages.map Page.nodes = outputs s (program.get "body").items (.ofLedger ledger) ∧
      names = (steps s (program.get "body").items (.ofLedger ledger)).2.2.names ∧
      (lifted.program.get "body").items =
        opening names (pages.flatMap Page.nodes) ++ pages.flatMap Page.nodes ∧
      lifted.localModules =
        ((pages.flatMap Page.entries).filterMap Noted.load?).flatMap (Load.localModules s) ∧
      lifted.probes = ((pages.flatMap Page.entries).filterMap Noted.load?).flatMap (Load.probes s) ∧
      lifted.diagnostics = pages.flatMap (Page.reports s) ∧
      Page.Follow s ledger.topLevelNames false pages := by
  -- The record of the run is that of all pages together.
  obtain ⟨_, items⟩ := body_of_liftWith known
  obtain rfl := eq_liftedOf ledger s known
  obtain ⟨pages, statements, nodes, records, follow⟩ :=
    pages_steps s (program.get "body").items (.ofLedger ledger)
  rw [steps_fst, ← nodes] at items
  refine ⟨_, pages, statements, nodes, rfl, items, ?_⟩
  refine ⟨records.localModules, records.probes, records.diagnostics.trans ?_, follow⟩
  rw [List.flatMap_assoc]
  rfl

end Run

end Lift

end ModuleLift
