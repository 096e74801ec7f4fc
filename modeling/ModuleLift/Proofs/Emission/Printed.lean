import ModuleLift.Proofs.Emission.Insertion
import ModuleLift.Tree.Build

/-! The nodes that a conversion puts in have a printed form, and it shows the comments of what they
are made of. -/

namespace ModuleLift.Emission

/-- A node can be written, and these are the nodes whose comments are written with it. -/
def Shows (source : Source) (t : Tree) (shown : List Tree) : Prop :=
  ∃ fragments, fragmentsOf source t = .ok fragments ∧ remarked fragments = shown

/-- Several nodes can be written, and these are the nodes whose comments are written with them. -/
def ShowsAll (source : Source) (items shown : List Tree) : Prop :=
  ∃ parts, items.mapM (fragmentsOf source) = .ok parts ∧ parts.flatMap remarked = shown

section Combining

variable {source : Source}

/-- What can be written one by one can be written. -/
theorem showsAll_flatMap {items : List Tree} {shown : Tree → List Tree}
    (each : ∀ t ∈ items, Shows source t (shown t)) :
    ShowsAll source items (items.flatMap shown) := by
  -- One node after the other, and none of them fails.
  induction items with
  | nil => exact ⟨[], rfl, rfl⟩
  | cons t rest ih =>
    obtain ⟨fragments, here, first⟩ := each t List.mem_cons_self
    obtain ⟨parts, later, others⟩ := ih fun u member => each u (List.mem_cons_of_mem _ member)
    refine ⟨fragments :: parts, by rw [List.mapM_cons, here, later]; rfl, ?_⟩
    rw [List.flatMap_cons, List.flatMap_cons, first, others]

/-- What one node shows is what a list of it shows. -/
theorem showsAll_singleton {t : Tree} {shown : List Tree} (one : Shows source t shown) :
    ShowsAll source [t] shown := by
  simpa using @showsAll_flatMap source [t] (fun _ => shown) (by simpa using one)

/-- A function that gives results of some kind on every element gives a list of such results. -/
theorem mapM_exists_ok {α β ε : Type} {f : α → Except ε β} {holds : β → Prop} {items : List α}
    (each : ∀ item ∈ items, ∃ result, f item = .ok result ∧ holds result) :
    ∃ results, items.mapM f = .ok results ∧ ∀ result ∈ results, holds result := by
  -- No element fails, so the results are put together from the front.
  induction items with
  | nil => exact ⟨[], rfl, by simp⟩
  | cons item rest ih =>
    obtain ⟨result, here, first⟩ := each item List.mem_cons_self
    obtain ⟨results, later, others⟩ :=
      ih fun other member => each other (List.mem_cons_of_mem _ member)
    exact ⟨result :: results, by rw [List.mapM_cons, here, later]; rfl,
      List.forall_mem_cons.mpr ⟨first, others⟩⟩

/-- A node that was read can be written. -/
theorem shows_read {t : Tree} (read : t.range?.isSome) :
    Shows source t (remarked (readFragments t)) :=
  ⟨readFragments t, by rw [fragmentsOf, if_pos read], rfl⟩

/-- Going over the elements together with their membership is going over the elements. -/
theorem attach_mapM {β ε : Type} (items : List Tree) (f : Tree → Except ε β) :
    (items.attach.mapM fun ⟨t, _⟩ => f t) = items.mapM f := by
  -- Membership is forgotten before the function is applied.
  change items.attach.mapM (f ∘ Subtype.val) = _
  rw [← List.mapM_map, List.attach_map_subtype_val]

/-- A comma shows no comments. -/
theorem remarked_commaFragments (parts : List (List Fragment)) :
    remarked (commaFragments parts) = parts.flatMap remarked := by
  -- A comma is printed, and printed letters bring no comments.
  fun_induction commaFragments parts with
  | case1 => rfl
  | case2 last => simp
  | case3 first rest _ ih => rw [remarked_append, remarked_printed, ih, List.flatMap_cons]

/-- Two names without comments are written without comments. -/
theorem remarked_aliasFragments {name other : List Fragment} (first : remarked name = [])
    (second : remarked other = []) : remarked (aliasFragments source name other) = [] := by
  -- One of the names may be left out, but neither shows anything.
  rw [aliasFragments]
  split <;> simp [first, second]

/-- Names without comments are written without comments. -/
theorem remarked_bracedFragments {names : List (List Fragment)}
    (bare : ∀ name ∈ names, remarked name = []) : remarked (bracedFragments names) = [] := by
  simpa [bracedFragments, remarked_commaFragments] using bare

/-- An import of names without comments shows the comments of its source. -/
theorem remarked_importFragments {specified : List Specified} {origin : List Fragment}
    (bare : ∀ s ∈ specified, remarked s.fragments = []) :
    remarked (importFragments specified origin) = remarked origin := by
  -- Split the specifiers as the printed form does: some stand outside the braces.
  have names (inside : Specified → Bool) :
      ∀ name ∈ (specified.filter inside).map (·.fragments), remarked name = [] := by
    intro name member
    obtain ⟨s, held, rfl⟩ := List.mem_map.mp member
    exact bare s (List.mem_filter.mp held).1
  have whole := names (!·.named)
  have braced := remarked_bracedFragments (names (·.named))
  simp only [importFragments]
  generalize (specified.filter (!·.named)).map (·.fragments) = outside at whole
  generalize (specified.filter (·.named)).map (·.fragments) = inside at braced
  -- None of the clauses shows a comment, whichever of them there are.
  have clauses : (outside ++ if inside.isEmpty then [] else [bracedFragments inside]).flatMap
      remarked = [] := by
    rw [List.flatMap_append, List.append_eq_nil_iff]
    refine ⟨List.flatMap_eq_nil_iff.mpr whole, ?_⟩
    split
    · rfl
    · simpa using braced
  generalize (outside ++ if inside.isEmpty then [] else [bracedFragments inside]) = all at clauses ⊢
  split
  · simp
  · simp [remarked_commaFragments, clauses]

end Combining

/-- A list that got a first element was there without it. -/
theorem eq_ok_of_map_cons {α ε : Type} {result : Except ε (List α)} {first : α} {rest : List α}
    (known : (first :: ·) <$> result = .ok (first :: rest)) : result = .ok rest := by
  -- A fault would have stayed a fault.
  cases result with
  | error fault => cases known
  | ok list => cases known; rfl

/-- A node that was put in can be printed, and its printed form shows these comments after its
own. -/
def Prints (source : Source) (t : Tree) (shown : List Tree) : Prop :=
  t.range? = none ∧
    ∃ form, fragmentsOf source t = .ok (.remarks t :: form) ∧ remarked form = shown

section Forms

variable {source : Source}

/-- Printing a node shows its own comments first. -/
theorem Prints.shows {t : Tree} {shown : List Tree} (prints : Prints source t shown) :
    Shows source t ([t].filter Tree.isCommented ++ shown) := by
  -- A printed form begins with the remarks on the node.
  obtain ⟨_, form, printed, rfl⟩ := prints
  exact ⟨_, printed, remarked_remarks t form⟩

/-- What is printed after the comments of a node does not depend on its mark. -/
theorem Prints.mapMark {t : Tree} {shown : List Tree} (prints : Prints source t shown)
    {change : Mark → Mark} (unread : (change t.mark).range = none) :
    Prints source (t.mapMark change) shown := by
  -- The printed form is made from the kind and the fields, which another mark leaves alone.
  obtain ⟨unranged, form, printed, inner⟩ := prints
  cases t with
  | node kind mark fields =>
    have still : (Tree.node kind (change mark) fields).range? = none := unread
    refine ⟨still, form, ?_, inner⟩
    rw [fragmentsOf, if_neg (by simp [unranged])] at printed
    rw [Tree.mapMark, fragmentsOf, if_neg (by simp [still])]
    exact congrArg (Functor.map (Fragment.remarks _ :: ·)) (eq_ok_of_map_cons printed)
  | _ => exact ⟨unranged, form, printed, inner⟩

/-- A statement is printed as before when it stands for a region. -/
theorem Prints.anchor {t : Tree} {shown : List Tree} (prints : Prints source t shown)
    (region : Region) : Prints source (t.anchor region) shown :=
  prints.mapMark prints.1

/-- A comment before a node leaves the rest of its printed form as it is. -/
theorem Prints.comment {t : Tree} {shown : List Tree} (prints : Prints source t shown)
    (text : Text) : Prints source (t.comment text) shown := by
  -- The form depends on kind and fields; the mark only has to stay without a range.
  refine prints.mapMark ?_
  rw [Mark.addComment]
  split <;> exact prints.1

/-- Only a node can be printed. -/
theorem Prints.isNode {t : Tree} {shown : List Tree} (prints : Prints source t shown) :
    t.isNode := by
  -- Any other value has no kind, and so no printed form.
  obtain ⟨_, form, printed, _⟩ := prints
  rw [fragmentsOf] at printed
  cases t with
  | node kind mark fields => rfl
  | _ => cases printed

/-- What a node is made of tells its printed form. -/
theorem prints_of_form {kind : String} {fields : List (String × Tree)} (form : List Fragment)
    {shown : List Tree}
    (printed : fragmentsOf source (.synthetic kind fields) =
      (Fragment.remarks (.synthetic kind fields) :: ·) <$> Except.ok form)
    (inner : remarked form = shown) : Prints source (.synthetic kind fields) shown :=
  ⟨rfl, form, printed, inner⟩

/-- A name. -/
theorem prints_identifier (name : Text) : Prints source (.identifier name) [] :=
  prints_of_form [.printed name] (by rw [fragmentsOf]; rfl) rfl

/-- A string literal. -/
theorem prints_stringLiteral (quote : Char) (value : Text) :
    Prints source (.stringLiteral quote value) [] :=
  prints_of_form [.printed (Text.quoted quote value)] (by rw [fragmentsOf]; rfl) rfl

/-- A node that was put in is not one that was read. -/
theorem synthetic_unread (kind : String) (fields : List (String × Tree)) :
    ¬(Tree.synthetic kind fields).range?.isSome := Bool.false_ne_true

/-- A default export. -/
theorem prints_exportDefault {value : Tree} {shown : List Tree}
    (inner : Shows source value shown) : Prints source (.exportDefault value) shown := by
  -- Unfold one step of printing, then put in what is known of the value.
  obtain ⟨fragments, known, rfl⟩ := inner
  refine prints_of_form (.printed "export default " :: (fragments ++ [.printed ";"])) ?_ (by simp)
  rw [fragmentsOf, if_neg (synthetic_unread _ _)]
  change _ <$> (fragmentsOf source value >>= _) = _
  rw [known]
  rfl

/-- A declaration. -/
theorem prints_variableDeclaration (kind : Tree) {declarators shown : List Tree}
    (inner : ShowsAll source declarators shown) :
    Prints source (.variableDeclaration kind declarators) shown := by
  -- The recursion carries proofs of membership, which are dropped first.
  obtain ⟨parts, known, rfl⟩ := inner
  have form : fragmentsOf source (.variableDeclaration kind declarators) =
      (Fragment.remarks (.variableDeclaration kind declarators) :: ·) <$>
        (declarators.mapM (fragmentsOf source) >>= fun parts =>
          pure (.printed (plainText kind ++ " ") :: (commaFragments parts ++ [.printed ";"]))) := by
    rw [Tree.variableDeclaration, fragmentsOf, if_neg (synthetic_unread _ _), ← attach_mapM]
    rfl
  rw [known] at form
  exact prints_of_form _ form (by simp [remarked_commaFragments])

/-- A declared name with its initializer. -/
theorem prints_variableDeclarator {id init : Tree} {first rest : List Tree}
    (present : init.isNull = false) (target : Shows source id first)
    (value : Shows source init rest) :
    Prints source (.variableDeclarator id init) (first ++ rest) := by
  -- An initializer is there, so both sides of the equals sign are printed.
  obtain ⟨left, known, rfl⟩ := target
  obtain ⟨right, found, rfl⟩ := value
  have form : fragmentsOf source (.variableDeclarator id init) =
      (Fragment.remarks (.variableDeclarator id init) :: ·) <$>
        (fragmentsOf source id >>= fun left => if init.isNull then pure left
          else fragmentsOf source init >>= fun right =>
            pure (left ++ .printed " = " :: right)) := by
    rw [Tree.variableDeclarator, fragmentsOf, if_neg (synthetic_unread _ _)]
    rfl
  rw [known, present, found] at form
  exact prints_of_form _ form (by simp)

/-- A call. -/
theorem prints_call {callee : Tree} {arguments first rest : List Tree}
    (target : Shows source callee first) (given : ShowsAll source arguments rest) :
    Prints source (.call callee arguments) (first ++ rest) := by
  -- What is called is printed first, but the arguments are worked out before it.
  obtain ⟨fragments, known, rfl⟩ := target
  obtain ⟨parts, found, rfl⟩ := given
  have form : fragmentsOf source (.call callee arguments) =
      (Fragment.remarks (.call callee arguments) :: ·) <$>
        (arguments.mapM (fragmentsOf source) >>= fun parts =>
          fragmentsOf source callee >>= fun fragments =>
            pure (fragments ++ .printed "(" :: (commaFragments parts ++ [.printed ")"]))) := by
    rw [Tree.call, fragmentsOf, if_neg (synthetic_unread _ _), ← attach_mapM]
    rfl
  rw [known, found] at form
  exact prints_of_form _ form (by simp [remarked_commaFragments])

/-- The address of the module itself. -/
theorem prints_importMetaUrl : Prints source .importMetaUrl [] := by
  -- Three names, put together from the inside out.
  have name (text : Text) : fragmentsOf source (.identifier text) =
      .ok [.remarks (.identifier text), .printed text] := by
    rw [fragmentsOf]
    rfl
  let object : Tree := .synthetic "MetaProperty"
    [("meta", .identifier "import"), ("property", .identifier "meta")]
  have inner : fragmentsOf source object = (Fragment.remarks object :: ·) <$>
      (fragmentsOf source (.identifier "import") >>= fun outer =>
        fragmentsOf source (.identifier "meta") >>= fun property =>
          pure (outer ++ .printed "." :: property)) := by
    rw [fragmentsOf, if_neg (synthetic_unread _ _)]
    rfl
  have form : fragmentsOf source .importMetaUrl = (Fragment.remarks .importMetaUrl :: ·) <$>
      (fragmentsOf source object >>= fun outer =>
        fragmentsOf source (.identifier "url") >>= fun property =>
          pure (outer ++ .printed "." :: property)) := by
    rw [Tree.importMetaUrl, fragmentsOf, if_neg (synthetic_unread _ _)]
    rfl
  rw [inner, name, name, name] at form
  exact prints_of_form _ form rfl

/-- A name in an import: that of the default export, or one in braces. -/
inductive ImportsName : Tree → Prop where
  | whole (name : Text) :
      ImportsName (.synthetic "ImportDefaultSpecifier" [("local", .identifier name)])
  | named (imported name : Text) :
      ImportsName (.synthetic "ImportSpecifier"
        [("imported", .identifier imported), ("local", .identifier name)])

/-- A name in an import, as it is written. -/
def specifiedOf (source : Source) (specifier : Tree) : Except EmitError Specified := do
  let bound ← fragmentsOf source (specifier.get "local")
  -- The order of the checks is that of `fragmentsOf`.
  if specifier.isA "ImportDefaultSpecifier" then return Specified.mk false bound
  else if specifier.isA "ImportNamespaceSpecifier" then
    return Specified.mk false (.printed "* as " :: bound)
  else
    let imported ← fragmentsOf source (specifier.get "imported")
    return Specified.mk true (aliasFragments source imported bound)

/-- A name in an import is written without comments. -/
theorem specifiedOf_of_importsName {specifier : Tree} (imports : ImportsName specifier) :
    ∃ specified, specifiedOf source specifier = .ok specified ∧
      remarked specified.fragments = [] := by
  -- A name of its own is written as it is; one in braces may be written with another.
  cases imports with
  | whole name =>
    obtain ⟨fragments, known, bare⟩ := (@prints_identifier source name).shows
    refine ⟨⟨false, fragments⟩, ?_, bare⟩
    change (fragmentsOf source (.identifier name) >>= _) = _
    rw [known]
    rfl
  | named imported name =>
    obtain ⟨inner, found, plain⟩ := (@prints_identifier source imported).shows
    obtain ⟨fragments, known, bare⟩ := (@prints_identifier source name).shows
    refine ⟨⟨true, aliasFragments source inner fragments⟩, ?_, remarked_aliasFragments plain bare⟩
    change (fragmentsOf source (.identifier name) >>= fun bound =>
      fragmentsOf source (.identifier imported) >>= fun inner =>
        pure (Specified.mk true (aliasFragments source inner bound))) = _
    rw [known, found]
    rfl

/-- An import. -/
theorem prints_importFrom {specifiers : List Tree} (names : ∀ s ∈ specifiers, ImportsName s)
    {origin : Tree} {shown : List Tree} (inner : Shows source origin shown) :
    Prints source (.importFrom specifiers origin) shown := by
  -- All specifiers can be written, and none of them shows a comment.
  obtain ⟨fragments, known, rfl⟩ := inner
  obtain ⟨specified, found, bare⟩ : ∃ specified, specifiers.mapM (specifiedOf source) =
      .ok specified ∧ ∀ s ∈ specified, remarked s.fragments = [] :=
    mapM_exists_ok fun s held => specifiedOf_of_importsName (names s held)
  have form : fragmentsOf source (.importFrom specifiers origin) =
      (Fragment.remarks (.importFrom specifiers origin) :: ·) <$>
        (fragmentsOf source origin >>= fun fragments =>
          specifiers.mapM (specifiedOf source) >>= fun specified =>
            pure (importFragments specified fragments)) := by
    rw [Tree.importFrom, fragmentsOf, if_neg (synthetic_unread _ _), ← attach_mapM]
    rfl
  rw [known, found] at form
  exact prints_of_form _ form (remarked_importFragments bare)

/-- An export of names. -/
theorem prints_exportNamed (pairs : List (Text × Text)) :
    Prints source (.exportNamed pairs) [] := by
  -- The pairs of names are written as those of an import are.
  let exportedOf (specifier : Tree) : Except EmitError (List Fragment) := do
    let bound ← fragmentsOf source (specifier.get "local")
    let exported ← fragmentsOf source (specifier.get "exported")
    return aliasFragments source bound exported
  let specifierOf (pair : Text × Text) : Tree := .synthetic "ExportSpecifier"
    [("local", .identifier pair.1), ("exported", .identifier pair.2)]
  obtain ⟨names, found, bare⟩ : ∃ names, (pairs.map specifierOf).mapM exportedOf = .ok names ∧
      ∀ name ∈ names, remarked name = [] := by
    refine mapM_exists_ok fun specifier held => ?_
    obtain ⟨pair, _, rfl⟩ := List.mem_map.mp held
    obtain ⟨fragments, known, bare⟩ := (@prints_identifier source pair.1).shows
    obtain ⟨inner, found, plain⟩ := (@prints_identifier source pair.2).shows
    refine ⟨aliasFragments source fragments inner, ?_, remarked_aliasFragments bare plain⟩
    change (fragmentsOf source (.identifier pair.1) >>= fun bound =>
      fragmentsOf source (.identifier pair.2) >>= fun exported =>
        pure (aliasFragments source bound exported)) = _
    rw [known, found]
    rfl
  have form : fragmentsOf source (.exportNamed pairs) =
      (Fragment.remarks (.exportNamed pairs) :: ·) <$>
        ((pairs.map specifierOf).mapM exportedOf >>= fun names =>
          pure (.printed "export " :: (bracedFragments names ++ [.printed ";"]))) := by
    rw [Tree.exportNamed, fragmentsOf, if_neg (synthetic_unread _ _), ← attach_mapM]
    rfl
  rw [found] at form
  exact prints_of_form _ form (by simp [remarked_bracedFragments bare])

end Forms

end ModuleLift.Emission
