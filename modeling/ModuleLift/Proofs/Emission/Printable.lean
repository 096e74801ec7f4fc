import ModuleLift.Proofs.Emission.Printed
import ModuleLift.Proofs.Tree.Parts

/-! Which trees can be written: those in which every node that was not read has a printed form, and
all that this form is made of. -/

namespace ModuleLift

namespace Tree

/-- The kinds of nodes with a printed form. -/
def printedKinds : List String :=
  ["ImportDeclaration", "ExportNamedDeclaration", "ExportDefaultDeclaration", "VariableDeclaration",
    "VariableDeclarator", "CallExpression", "MemberExpression", "MetaProperty", "Identifier",
    "Literal"]

/-- Whether a value is a node that is copied or printed. -/
def isWritable (t : Tree) : Bool := t.range?.isSome || printedKinds.any t.isA

/-- Whether a specifier of an import has the names it is printed with. -/
def isImported (specifier : Tree) : Bool :=
  (specifier.get "local").isWritable && (specifier.isA "ImportDefaultSpecifier" ||
    specifier.isA "ImportNamespaceSpecifier" || (specifier.get "imported").isWritable)

/-- Whether a specifier of an export has the names it is printed with. -/
def isExported (specifier : Tree) : Bool :=
  (specifier.get "local").isWritable && (specifier.get "exported").isWritable

/-- Whether a node that was not read is printed, and has all fields that its printed form is made
of. Specifiers are printed by the statement around them. -/
def isPrintable (t : Tree) : Bool :=
  match t.kind? with
  | some "ImportDeclaration" =>
    (t.get "source").isWritable && (t.get "specifiers").items.all isImported
  | some "ExportNamedDeclaration" =>
    if (t.get "declaration").isNull then (t.get "specifiers").items.all isExported
    else (t.get "declaration").isWritable
  | some "ExportDefaultDeclaration" => (t.get "declaration").isWritable
  | some "VariableDeclaration" => (t.get "declarations").items.all isWritable
  | some "VariableDeclarator" =>
    (t.get "id").isWritable && ((t.get "init").isNull || (t.get "init").isWritable)
  | some "CallExpression" =>
    (t.get "callee").isWritable && (t.get "arguments").items.all isWritable
  | some "MemberExpression" => (t.get "object").isWritable && (t.get "property").isWritable
  | some "MetaProperty" => (t.get "meta").isWritable && (t.get "property").isWritable
  | some "Identifier" => (t.get "name").text?.isSome
  | some "Literal" => (t.get "raw").isNull || (t.get "raw").text?.isSome
  | some "ImportDefaultSpecifier" => t.isImported
  | some "ImportNamespaceSpecifier" => t.isImported
  | some "ImportSpecifier" => t.isImported
  | some "ExportSpecifier" => t.isExported
  | _ => false

/-- Whether all nodes in a value that were not read can be printed. -/
def Composed (t : Tree) : Prop :=
  ∀ part ∈ t.parts, part.kind?.isSome → part.range? = none → part.isPrintable

/-- Whether a value can be written. -/
structure Ready (t : Tree) : Prop where
  writable : t.isWritable
  composed : t.Composed

/-- What can be written is a node. -/
theorem Ready.isNode {t : Tree} (ready : t.Ready) : t.isNode := by
  -- Nothing else has letters of its own.
  have writable := ready.writable
  cases t with
  | node => rfl
  | _ => cases writable

/-- The value of a field is composed if the tree is. -/
theorem Composed.get {t : Tree} (composed : t.Composed) {key : String}
    (entered : isNoteKey key = false) : (t.get key).Composed :=
  fun part held => composed part ((parts_get_sublist t entered).subset held)

/-- An item of a list in a field is composed if the tree is. -/
theorem Composed.item {t item : Tree} (composed : t.Composed) {key : String}
    (entered : isNoteKey key = false) (held : item ∈ (t.get key).items) : item.Composed :=
  fun part inside => composed part ((parts_sublist_of_mem_get entered held).subset inside)

section Composing

/-- A value that is no node and holds none. -/
theorem composed_of_parts {t : Tree} (none : t.parts = []) : t.Composed := by
  -- There is no part that could fail to be printed.
  intro part held
  rw [none] at held
  cases held

/-- A list of composed trees is composed. -/
theorem composed_list {items : List Tree} (each : ∀ item ∈ items, item.Composed) :
    (list items).Composed := by
  -- Every part of the list is one of an item.
  intro part held
  rw [parts_list] at held
  obtain ⟨item, member, inside⟩ := List.mem_flatMap.mp held
  exact each item member part inside

/-- A node that is put in is composed if it can be printed and its fields are composed. -/
theorem composed_synthetic {kind : String} {fields : List (String × Tree)}
    (printable : (synthetic kind fields).isPrintable)
    (each : ∀ field ∈ fields, field.2.Composed) : (synthetic kind fields).Composed := by
  -- A part is the node itself or lies in a field.
  intro part held kinded unread
  rw [synthetic, parts_node] at held
  rcases List.mem_cons.mp held with rfl | inside
  · exact printable
  · obtain ⟨field, member, here⟩ := List.mem_flatMap.mp inside
    rw [fieldParts] at here
    split at here
    · cases here
    · exact each field member part here kinded unread

/-- A change of the mark that leaves the range. -/
theorem Ready.mapMark {t : Tree} (ready : t.Ready) {change : Mark → Mark}
    (same : (change t.mark).range = t.mark.range) : (t.mapMark change).Ready := by
  -- Whether a tree can be written depends on its range only, and its other parts are the same.
  cases t with
  | node kind mark fields =>
    have range : (node kind (change mark) fields).range? = (node kind mark fields).range? := same
    refine ⟨?_, fun part held kinded unread => ?_⟩
    · have writable := ready.writable
      rw [isWritable, ← range] at writable
      exact writable
    · rw [Tree.mapMark, parts_node] at held
      rcases List.mem_cons.mp held with rfl | inside
      · exact ready.composed (node kind mark fields) (mem_parts_self rfl) kinded (range ▸ unread)
      · exact ready.composed part (by rw [parts_node]; exact List.mem_cons_of_mem _ inside) kinded
          unread
  | _ => exact ready

/-- A place does not keep a tree from being written. -/
theorem Ready.anchor {t : Tree} (ready : t.Ready) (region : Region) : (t.anchor region).Ready :=
  ready.mapMark rfl

/-- A comment does not keep a tree from being written. -/
theorem Ready.comment {t : Tree} (ready : t.Ready) (text : Text) : (t.comment text).Ready := by
  -- The mark keeps its range, and no more is asked of it.
  refine ready.mapMark ?_
  rw [Mark.addComment]
  split <;> rfl

end Composing

section Forms

/-- A name can be written. -/
theorem ready_identifier (name : Text) : (identifier name).Ready :=
  ⟨rfl, composed_synthetic rfl (by simpa using composed_of_parts rfl)⟩

/-- A string can be written. -/
theorem ready_stringLiteral (quote : Char) (value : Text) : (stringLiteral quote value).Ready :=
  ⟨rfl, composed_synthetic rfl (by simpa using ⟨composed_of_parts rfl, composed_of_parts rfl⟩)⟩

/-- A name in an import. -/
theorem isImported_of_importsName {specifier : Tree} (imports : Emission.ImportsName specifier) :
    specifier.isImported ∧ specifier.Composed := by
  -- Both forms hold names and nothing else.
  cases imports with
  | whole name =>
    exact ⟨rfl, composed_synthetic rfl (by simpa using (ready_identifier name).composed)⟩
  | named imported name =>
    exact ⟨rfl, composed_synthetic rfl (by
      simpa using ⟨(ready_identifier imported).composed, (ready_identifier name).composed⟩)⟩

/-- An import can be written if its module can. -/
theorem ready_importFrom {specifiers : List Tree} {source : Tree}
    (names : ∀ specifier ∈ specifiers, Emission.ImportsName specifier) (origin : source.Ready) :
    (importFrom specifiers source).Ready := by
  -- Every specifier has a form, and so has the statement around them.
  have each := fun specifier held => isImported_of_importsName (names specifier held)
  have printable : (importFrom specifiers source).isPrintable :=
    show (source.isWritable && specifiers.all isImported) from by
      rw [origin.writable, Bool.true_and, List.all_eq_true]
      exact fun specifier held => (each specifier held).1
  have fields := composed_list fun specifier held => (each specifier held).2
  exact ⟨rfl, composed_synthetic printable (by simpa using ⟨fields, origin.composed⟩)⟩

/-- An export of names can be written. -/
theorem ready_exportNamed (pairs : List (Text × Text)) : (exportNamed pairs).Ready := by
  have each : ∀ specifier ∈ ((exportNamed pairs).get "specifiers").items,
      specifier.isExported ∧ specifier.Composed := by
    intro specifier held
    obtain ⟨pair, _, rfl⟩ := List.mem_map.mp held
    exact ⟨rfl, composed_synthetic rfl (by
      simpa using ⟨(ready_identifier pair.1).composed, (ready_identifier pair.2).composed⟩)⟩
  have printable : (exportNamed pairs).isPrintable :=
    List.all_eq_true.mpr fun specifier held => (each specifier held).1
  have fields := composed_list fun specifier held => (each specifier held).2
  refine ⟨rfl, composed_synthetic printable fun field held => ?_⟩
  -- There is no declaration and no source, only the list of names.
  rcases List.mem_cons.mp held with rfl | held
  · exact composed_of_parts rfl
  · rcases List.mem_cons.mp held with rfl | held
    · exact fields
    · rw [List.mem_singleton.mp held]
      exact composed_of_parts rfl

/-- A default export can be written if its value can. -/
theorem ready_exportDefault {value : Tree} (ready : value.Ready) : (exportDefault value).Ready :=
  ⟨rfl, composed_synthetic ready.writable (by simpa using ready.composed)⟩

/-- A declaration can be written if its declarators can. -/
theorem ready_variableDeclaration {kind : Tree} {declarators : List Tree} (named : kind.Composed)
    (each : ∀ d ∈ declarators, d.Ready) : (variableDeclaration kind declarators).Ready := by
  -- The word it starts with is copied, the declarators are printed.
  have printable : (variableDeclaration kind declarators).isPrintable :=
    List.all_eq_true.mpr fun d held => (each d held).writable
  have fields := composed_list fun d held => (each d held).composed
  exact ⟨rfl, composed_synthetic printable (by simpa using ⟨fields, named⟩)⟩

/-- A declarator can be written if its target and its value can. -/
theorem ready_variableDeclarator {id init : Tree} (target : id.Ready) (value : init.Ready) :
    (variableDeclarator id init).Ready := by
  -- A value that is there has to be written, and it can be.
  have printable : (variableDeclarator id init).isPrintable :=
    show (id.isWritable && (init.isNull || init.isWritable)) from by
      rw [target.writable, value.writable, Bool.or_true]
      rfl
  exact ⟨rfl, composed_synthetic printable (by simpa using ⟨target.composed, value.composed⟩)⟩

/-- A call can be written if its callee and its arguments can. -/
theorem ready_call {callee : Tree} {arguments : List Tree} (target : callee.Ready)
    (given : ∀ argument ∈ arguments, argument.Ready) : (call callee arguments).Ready := by
  -- The callee comes first, then the arguments with commas between them.
  have printable : (call callee arguments).isPrintable :=
    show (callee.isWritable && arguments.all isWritable) from by
      rw [target.writable, Bool.true_and, List.all_eq_true]
      exact fun argument held => (given argument held).writable
  have fields := composed_list fun argument held => (given argument held).composed
  exact ⟨rfl, composed_synthetic printable (by simpa using ⟨target.composed, fields⟩)⟩

/-- The address of the module can be written. -/
theorem ready_importMetaUrl : importMetaUrl.Ready := by
  -- It is a property of a pair of words.
  have object : (synthetic "MetaProperty"
      [("meta", identifier "import"), ("property", identifier "meta")]).Composed :=
    composed_synthetic rfl (by
      simpa using ⟨(ready_identifier "import").composed, (ready_identifier "meta").composed⟩)
  exact ⟨rfl, composed_synthetic rfl (by
    simpa using ⟨composed_of_parts rfl, object, (ready_identifier "url").composed⟩)⟩

end Forms

end Tree

namespace Emission

section Results

variable {α β ε : Type}

/-- A result is kept by what is done with it. -/
theorem exists_map_ok {f : α → β} {x : Except ε α} (first : ∃ a, x = .ok a) :
    ∃ b, f <$> x = .ok b := by
  -- A computation that went well goes on.
  obtain ⟨a, rfl⟩ := first
  exact ⟨f a, rfl⟩

/-- One computation after the other, none of which fails. -/
theorem exists_bind_ok {f : α → Except ε β} {x : Except ε α} (first : ∃ a, x = .ok a)
    (second : ∀ a, ∃ b, f a = .ok b) : ∃ b, (x >>= f) = .ok b := by
  -- The second starts from what the first gave.
  obtain ⟨a, rfl⟩ := first
  exact second a

/-- A computation that fails on no element does not fail on the list. -/
theorem exists_mapM_ok {f : α → Except ε β} {items : List α}
    (each : ∀ item ∈ items, ∃ result, f item = .ok result) :
    ∃ results, items.mapM f = .ok results := by
  -- What the results are like does not matter here.
  obtain ⟨results, known, _⟩ := @mapM_exists_ok _ _ _ f (fun _ => True) items fun item held => by
    simpa using each item held
  exact ⟨results, known⟩

end Results

/-- What lies below a node can be written, wherever its printed form takes it from: a field, the
elements of a field, or the fields of these. -/
structure Below (source : Source) (t : Tree) : Prop where
  field : ∀ {key : String}, Tree.isNoteKey key = false → (t.get key).isWritable →
    ∃ text, render source (t.get key) = .ok text
  item : ∀ {key : String} {item : Tree}, Tree.isNoteKey key = false → item ∈ (t.get key).items →
    item.isWritable → ∃ text, render source item = .ok text
  inner : ∀ {key other : String} {item : Tree}, Tree.isNoteKey key = false →
    Tree.isNoteKey other = false → item ∈ (t.get key).items → (item.get other).isWritable →
    ∃ text, render source (item.get other) = .ok text

/-- A node is printed if all that its printed form is made of can be written. -/
theorem render_of_below {source : Source} {t : Tree} (below : Below source t)
    (unread : ¬t.range?.isSome) (printed : Tree.printedKinds.any t.isA)
    (printable : t.isPrintable) : ∃ text, render source t = .ok text := by
  rw [render, if_neg unread]
  refine exists_map_ok ?_
  rw [Tree.isPrintable] at printable
  split
  · -- An import: each name stands for itself, or for another one in the module.
    rename_i isKind
    simp only [isKind, Bool.and_eq_true, List.all_eq_true] at printable
    refine exists_bind_ok (below.field rfl printable.1) fun _ =>
      exists_bind_ok (exists_mapM_ok fun specifier _ => ?_) fun _ => ⟨_, rfl⟩
    have names := printable.2 specifier.1 specifier.2
    rw [Tree.isImported, Bool.and_eq_true, Bool.or_eq_true, Bool.or_eq_true] at names
    refine exists_bind_ok (below.inner rfl rfl specifier.2 names.1) fun _ => ?_
    split
    · exact ⟨_, rfl⟩
    · rename_i noDefault
      split
      · exact ⟨_, rfl⟩
      · rename_i noSpace
        have named := names.2.resolve_left (not_or.mpr ⟨noDefault, noSpace⟩)
        exact exists_bind_ok (below.inner rfl rfl specifier.2 named) fun _ => ⟨_, rfl⟩
  · -- An export of names, or of a declaration.
    rename_i isKind
    simp only [isKind] at printable
    split at printable
    · rename_i null
      rw [if_pos null]
      rw [List.all_eq_true] at printable
      refine exists_bind_ok (exists_mapM_ok fun specifier _ => ?_) fun _ => ⟨_, rfl⟩
      have names := printable specifier.1 specifier.2
      rw [Tree.isExported, Bool.and_eq_true] at names
      exact exists_bind_ok (below.inner rfl rfl specifier.2 names.1) fun _ =>
        exists_bind_ok (below.inner rfl rfl specifier.2 names.2) fun _ => ⟨_, rfl⟩
    · rename_i present
      rw [if_neg present]
      exact exists_bind_ok (below.field rfl printable) fun _ => ⟨_, rfl⟩
  · -- A default export.
    rename_i isKind
    simp only [isKind] at printable
    exact exists_bind_ok (below.field rfl printable) fun _ => ⟨_, rfl⟩
  · -- A declaration.
    rename_i isKind
    simp only [isKind, List.all_eq_true] at printable
    exact exists_bind_ok (exists_mapM_ok fun declarator _ =>
      below.item rfl declarator.2 (printable declarator.1 declarator.2)) fun _ => ⟨_, rfl⟩
  · -- A declarator, with or without an initializer.
    rename_i isKind
    simp only [isKind, Bool.and_eq_true, Bool.or_eq_true] at printable
    refine exists_bind_ok (below.field rfl printable.1) fun _ => ?_
    split
    · exact ⟨_, rfl⟩
    · rename_i present
      exact exists_bind_ok (below.field rfl (printable.2.resolve_left present)) fun _ => ⟨_, rfl⟩
  · -- A call, whose arguments are worked out first.
    rename_i isKind
    simp only [isKind, Bool.and_eq_true, List.all_eq_true] at printable
    exact exists_bind_ok (exists_mapM_ok fun argument _ =>
      below.item rfl argument.2 (printable.2 argument.1 argument.2)) fun _ =>
        exists_bind_ok (below.field rfl printable.1) fun _ => ⟨_, rfl⟩
  · -- A member, in brackets or after a dot.
    rename_i isKind
    simp only [isKind, Bool.and_eq_true] at printable
    refine exists_bind_ok (below.field rfl printable.1) fun _ =>
      exists_bind_ok (below.field rfl printable.2) fun _ => ?_
    split <;> exact ⟨_, rfl⟩
  · -- A property of a keyword.
    rename_i isKind
    simp only [isKind, Bool.and_eq_true] at printable
    exact exists_bind_ok (below.field rfl printable.1) fun _ =>
      exists_bind_ok (below.field rfl printable.2) fun _ => ⟨_, rfl⟩
  -- Names and literals are made of no other nodes.
  · exact ⟨_, rfl⟩
  · exact ⟨_, rfl⟩
  · -- Every other kind is none of those with a printed form.
    simp_all [Tree.printedKinds, Tree.isA]

/-- A tree that is composed of what was read and what can be printed can be written. -/
theorem render_ok (source : Source) (t : Tree) (ready : t.Ready) :
    ∃ text, render source t = .ok text := by
  obtain ⟨writable, composed⟩ := ready
  by_cases read : t.range?.isSome
  · exact ⟨_, by rw [render, if_pos read]⟩
  have printed : Tree.printedKinds.any t.isA := by
    rw [Tree.isWritable, Bool.or_eq_true] at writable
    exact writable.resolve_left read
  obtain ⟨kind, _, isA⟩ := List.any_eq_true.mp printed
  have hasKind : t.kind? = some kind := beq_iff_eq.mp isA
  have kinded := Tree.kind_of_isA isA
  have printable := composed t (Tree.mem_parts_of_kind kinded) kinded (by simpa using read)
  -- The induction is on the size, since a printed form goes two levels down.
  refine render_of_below ⟨fun {key} entered fit => ?_, fun {key item} entered held fit => ?_,
    fun {key other item} entered beneath held fit => ?_⟩ read printed printable
  · exact render_ok source (t.get key) ⟨fit, composed.get entered⟩
  · exact render_ok source item ⟨fit, composed.item entered held⟩
  · exact render_ok source (item.get other) ⟨fit, (composed.item entered held).get beneath⟩
termination_by sizeOf t
decreasing_by
  · exact Tree.sizeOf_get_lt_of_kind hasKind key
  · exact Tree.sizeOf_lt_of_kind_of_mem hasKind held
  · exact Nat.lt_of_le_of_lt (Tree.sizeOf_get_le item other)
      (Tree.sizeOf_lt_of_kind_of_mem hasKind held)

end Emission

end ModuleLift
