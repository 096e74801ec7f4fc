import ModuleLift.Proofs.Lift.Recognition

/-! What the walk over references meets in a part it meets in the whole. So a part mentions no more
names than the whole, and in a part of a commented value every buried call has its comment. -/

namespace ModuleLift

namespace Tree

section Walk

variable {nested : Bool}

/-- The walk goes through the elements of a list. -/
theorem visits_item {t item : Tree} (held : item ∈ t.items) :
    visits nested item ⊆ visits nested t := by
  -- Only a list has elements.
  cases t with
  | list items =>
    intro v met
    exact mem_visits_list.mpr ⟨item, held, met⟩
  | _ => cases held

/-- The kinds of nodes that the walk enters, and below which all is buried. -/
def isWalked (kind : String) : Bool := kind != "Identifier" && kind != "Program"

/-- The fields that the walk enters in nodes of every kind. -/
def isOpenKey (key : String) : Bool :=
  !(isNoteKey key || key == "label" || key == "property" || key == "key")

/-- The walk enters a field. -/
theorem visits_get {t : Tree} {kind key : String} (isA : t.isA kind) (walked : isWalked kind)
    (open_ : isOpenKey key) : visits true (t.get key) ⊆ visits nested t := by
  -- Whatever lies below a node other than the program is buried, so the flag is set for it.
  intro v met
  cases t with
  | node name mark fields =>
    have known : name = some kind := beq_iff_eq.mp isA
    subst known
    rcases get_eq_null_or_mem (node (some kind) mark fields) key with absent | held
    · rw [absent] at met
      cases met
    · have entered : (some kind == some "Identifier") = false := by simp_all [isWalked]
      have inner : (some kind != some "Program") = true := by simp_all [isWalked]
      refine mem_visits_node.mpr (.inr ⟨entered, _, held, ?_, by rwa [inner]⟩)
      exact entersField_plain (by simp_all [isOpenKey]) (by simp_all [isOpenKey])
  | _ => cases isA

/-- The walk enters a field with a list. -/
theorem visits_get_item {t item : Tree} {kind key : String} (isA : t.isA kind)
    (walked : isWalked kind) (open_ : isOpenKey key) (held : item ∈ (t.get key).items) :
    visits true item ⊆ visits nested t :=
  List.Subset.trans (visits_item held) (visits_get isA walked open_)

/-- The nodes met are the same inside and outside of statements. -/
theorem map_node_visits (first second : Bool) (t : Tree) :
    (visits first t).map (·.node) = (visits second t).map (·.node) := by
  -- Only a list hands the flag on to what it holds; a node sets it anew.
  induction t using Tree.induction with
  | list items ih =>
    rw [visits, visits, visitsAll_eq, visitsAll_eq, List.map_flatMap, List.map_flatMap]
    exact List.flatMap_congr ih
  | node kind mark fields => rw [visits, visits, List.map_cons, List.map_cons]
  | _ => rfl

end Walk

section Mentions

/-- The names mentioned are those of the identifiers met, also inside of statements. -/
theorem mentions_eq (nested : Bool) (t : Tree) :
    t.mentions = (((visits nested t).map (·.node)).filter isIdentifier).map name := by
  -- Which nodes are met does not depend on where the walk starts.
  rw [map_node_visits nested false, mentions, List.filter_map, List.map_map]
  rfl

/-- A part mentions no more than the whole. -/
theorem mentions_subset {t u : Tree} {first second : Bool}
    (within : visits first u ⊆ visits second t) : u.mentions ⊆ t.mentions := by
  -- Both sides are read off the nodes that are met.
  rw [mentions_eq first, mentions_eq second]
  exact List.map_subset _ (List.filter_subset _ (List.map_subset _ within))

/-- A field that the walk enters mentions no more than the node. -/
theorem mentions_get {t : Tree} {kind key : String} (isA : t.isA kind) (walked : isWalked kind)
    (open_ : isOpenKey key) : (t.get key).mentions ⊆ t.mentions := by
  -- The field is part of the walk through the node.
  have within : visits true (t.get key) ⊆ visits false t := visits_get isA walked open_
  exact mentions_subset within

/-- An element of a field that the walk enters mentions no more than the node. -/
theorem mentions_get_item {t item : Tree} {kind key : String} (isA : t.isA kind)
    (walked : isWalked kind) (open_ : isOpenKey key) (held : item ∈ (t.get key).items) :
    item.mentions ⊆ t.mentions := by
  -- The element is part of the walk through the node.
  have within : visits true item ⊆ visits false t := visits_get_item isA walked open_ held
  exact mentions_subset within

/-- A list mentions what its elements mention. -/
@[simp] theorem mentions_list (items : List Tree) :
    (list items).mentions = items.flatMap mentions := by
  -- The walk through a list is the walk through each of its elements.
  rw [mentions, visits, visitsAll_eq, List.filter_flatMap, List.map_flatMap]
  rfl

/-- A name is all that it mentions. -/
theorem mentions_name {t : Tree} (isName : t.isIdentifier) : t.mentions = [t.name] := by
  -- The walk stops at a name, so it is the only node met.
  cases t with
  | node kind mark fields =>
    have known : (kind == some "Identifier") = true := isName
    rw [mentions_eq false, visits, if_pos known, List.map_singleton, List.filter_cons_of_pos isName]
    rfl
  | _ => cases isName

/-- A node of another kind mentions what the fields mention that the walk enters. -/
theorem mentions_node {kind : Option String} (mark : Mark) (fields : List (String × Tree))
    (entered : (kind == some "Identifier") = false) :
    (node kind mark fields).mentions = fields.flatMap fun field =>
      if entersField kind (computedIn fields) field.1 then field.2.mentions else [] := by
  -- The node itself is no name, so all mentions come from its fields.
  have noName : ¬(node kind mark fields).isIdentifier := by
    simpa [isIdentifier, isA, kind?] using entered
  rw [mentions_eq false, visits, entered, List.map_cons, List.filter_cons_of_neg noName,
    if_neg Bool.false_ne_true, visitsFields_eq, List.map_flatMap, List.filter_flatMap,
    List.map_flatMap]
  refine List.flatMap_congr fun field _ => ?_
  split
  · exact (mentions_eq _ _).symm
  · rfl

/-- A node that is put in mentions what it holds. -/
theorem mentions_synthetic {kind : String} {fields : List (String × Tree)} (walked : isWalked kind)
    (open_ : fields.all fun field => isOpenKey field.1) :
    (synthetic kind fields).mentions = fields.flatMap fun field => field.2.mentions := by
  -- No field of such a node is closed to the walk.
  rw [synthetic, mentions_node _ _ (by simp_all [isWalked])]
  refine List.flatMap_congr fun field held => ?_
  have plain := List.all_eq_true.mp open_ field held
  rw [if_pos (entersField_plain (by simp_all [isOpenKey]) (by simp_all [isOpenKey]))]

/-- Nothing mentions no name. -/
@[simp] theorem mentions_null : null.mentions = [] := rfl

/-- A text mentions no name. -/
@[simp] theorem mentions_text (value : Text) : (text value).mentions = [] := rfl

/-- A new name mentions itself. -/
@[simp] theorem mentions_identifier (name : Text) : (identifier name).mentions = [name] :=
  mentions_name rfl

/-- Whether a key is computed is told by the skeletons of the fields. -/
@[simp] theorem computedIn_skeleton (fields : List (String × Tree)) :
    computedIn (fields.map skeletonField) = computedIn fields := by
  -- The flag is a field of the node, and a skeleton has the same flags.
  have computed := congrArg isSet (get_skeleton (node none {} fields) "computed")
  rwa [get, fields_skeleton, isSet_skeleton] at computed

/-- The names mentioned are told by the skeleton. -/
theorem mentions_skeleton (t : Tree) : t.skeleton.mentions = t.mentions := by
  -- Induction on the tree: which fields are entered is told by the kind and by computed keys.
  induction t using Tree.induction with
  | list items ih =>
    rw [skeleton_list, mentions_list, mentions_list, List.flatMap_map]
    exact List.flatMap_congr ih
  | node kind mark fields ih =>
    cases entered : kind == some "Identifier" with
    | true =>
      rw [mentions_name (t := node kind mark fields) entered,
        mentions_name (by rw [isIdentifier_skeleton]; exact entered), name_skeleton]
    | false =>
      rw [skeleton_node, mentions_node _ _ entered, mentions_node _ _ entered, List.flatMap_map,
        computedIn_skeleton]
      refine List.flatMap_congr fun field held => ?_
      rw [skeletonField, ih field held]
  | _ => rfl

/-- Comments are no mentions. -/
theorem mentions_annotate (marker : Text) (nested : Bool) (t : Tree) :
    (t.annotate marker nested).1.mentions = t.mentions := by
  rw [← mentions_skeleton, skeleton_annotate, mentions_skeleton]

/-- Marks are no mentions. -/
@[simp] theorem mentions_mapMark (t : Tree) (change : Mark → Mark) :
    (t.mapMark change).mentions = t.mentions := by
  -- Neither a name nor a node of another kind reads its mark for what it mentions.
  cases t with
  | node kind mark fields =>
    cases entered : kind == some "Identifier" with
    | true => rw [mentions_name (t := node kind mark fields) entered]; exact mentions_name entered
    | false => rw [mapMark, mentions_node _ _ entered, mentions_node _ _ entered]
  | _ => rfl

end Mentions

section Settled

variable {marker : Text} {nested : Bool}

/-- A value in which every buried call of `require` has its comment. -/
def Settled (marker : Text) (nested : Bool) (t : Tree) : Prop :=
  ∀ v ∈ visits nested t, v.nested → v.node.holdsLoader → marker ∈ v.node.mark.comments

/-- What is met in a settled value is settled. -/
theorem Settled.of_visits {t u : Tree} {first second : Bool} (settled : t.Settled marker second)
    (within : visits first u ⊆ visits second t) : u.Settled marker first :=
  fun v met => settled v (within met)

/-- A list is settled if its elements are. -/
theorem settled_list {items : List Tree} :
    (list items).Settled marker nested ↔ ∀ t ∈ items, t.Settled marker nested := by
  -- The walk through a list is the walk through each of its elements.
  simp only [Settled, visits, visitsAll_eq, List.mem_flatMap]
  constructor
  · intro all t held v met
    exact all v ⟨t, held, met⟩
  · rintro each v ⟨t, held, met⟩
    exact each t held v met

/-- A node is settled if it has its comment, where it needs one, and what it holds is settled. -/
theorem settled_node {kind : Option String} {mark : Mark} {fields : List (String × Tree)} :
    (node kind mark fields).Settled marker nested ↔
      (nested → (node kind mark fields).holdsLoader → marker ∈ mark.comments) ∧
      ((kind == some "Identifier") = false → ∀ field ∈ fields,
        entersField kind (computedIn fields) field.1 →
          field.2.Settled marker (kind != some "Program")) := by
  -- The walk meets the node first, and then what lies in the fields that it enters.
  constructor
  · intro settled
    refine ⟨settled _ (mem_visits_node.mpr (.inl rfl)), fun entered field held enters v met => ?_⟩
    exact settled v (mem_visits_node.mpr (.inr ⟨entered, field, held, enters, met⟩))
  · rintro ⟨here, below⟩ v met
    rcases mem_visits_node.mp met with rfl | ⟨entered, field, held, enters, inside⟩
    · exact here
    · exact below entered field held enters v inside

/-- A settled value is left as it is when it is commented. -/
theorem annotate_of_settled {t : Tree} (settled : t.Settled marker nested) :
    t.annotate marker nested = (t, false) := by
  -- Induction on the tree: each node has its comment already, and no field gains one.
  induction t using Tree.induction generalizing nested with
  | list items ih =>
    rw [settled_list] at settled
    have first : (annotateAll marker nested items).1 = items := by
      rw [annotateAll_fst]
      refine (List.map_congr_left fun t held => ?_).trans (List.map_id items)
      rw [ih t held (settled t held)]
      rfl
    have second : (annotateAll marker nested items).2 = false := by
      rw [annotateAll_snd, List.any_eq_false]
      exact fun t held => by simp [ih t held (settled t held)]
    exact Prod.ext (congrArg list first) second
  | node kind mark fields ih =>
    rw [settled_node] at settled
    obtain ⟨here, below⟩ := settled
    cases entered : kind == some "Identifier" with
    | true => rw [annotate, if_pos entered]
    | false =>
      have none : addsBelow marker kind fields = false := by
        refine List.any_eq_false.mpr fun field held => ?_
        cases enters : entersField kind (computedIn fields) field.1 with
        | false => simp
        | true => simp [ih field held (below entered field held enters)]
      have same : fields.map (annotateField marker (kind != some "Program")
          (entersField kind (computedIn fields))) = fields := by
        refine (List.map_congr_left fun field held => ?_).trans (List.map_id fields)
        rw [annotateField]
        split
        · rw [ih field held (below entered field held ‹_›)]
          rfl
        · rfl
      rw [annotate_node mark fields marker nested entered, none, same]
      -- A comment that is there is not added.
      cases call : nested && (node kind mark fields).holdsLoader with
      | false => simp [commentedMark]
      | true =>
        rw [Bool.and_eq_true] at call
        simp [commentedMark, Mark.addComment, here call.1 call.2]
  | _ => rfl

/-- Commenting settles a value. -/
theorem settled_annotate (marker : Text) (nested : Bool) (t : Tree) :
    (t.annotate marker nested).1.Settled marker nested := by
  -- Induction on the tree: each call that is met has its comment now, added or found there.
  induction t using Tree.induction generalizing nested with
  | list items ih =>
    have elements : ∀ t ∈ (annotateAll marker nested items).1, t.Settled marker nested := by
      rw [annotateAll_fst, List.forall_mem_map]
      exact fun t held => ih t held nested
    exact settled_list.mpr elements
  | node kind mark fields ih =>
    cases entered : kind == some "Identifier" with
    | true =>
      rw [annotate, if_pos entered, settled_node]
      refine ⟨fun _ holds => ?_, fun other => by simp [entered] at other⟩
      simp [holdsLoader_identifier mark fields entered] at holds
    | false =>
      have shape := skeleton_annotate marker nested (node kind mark fields)
      simp only [annotate_node mark fields marker nested entered] at shape ⊢
      -- Neither what a node holds nor which of its fields are entered depends on comments.
      have calls := congrArg holdsLoader shape
      have keys := congrArg (fun t => (t.get "computed").isSet) shape
      simp only [holdsLoader_skeleton] at calls
      simp only [get_skeleton, isSet_skeleton] at keys
      change computedIn (fields.map _) = computedIn fields at keys
      rw [settled_node]
      constructor
      · intro isNested holds
        rw [calls] at holds
        rw [isNested, holds, Bool.true_and, commentedMark, if_pos rfl, Mark.addComment]
        split <;> simp_all
      · intro _ field held
        obtain ⟨field, member, rfl⟩ := List.mem_map.mp held
        rw [keys, annotateField]
        intro enters
        rw [if_pos enters]
        exact ih field member _
  | _ => exact fun v met => by cases met

/-- The mark of a top-level statement does not matter for what is buried in it. -/
theorem settled_mapMark {t : Tree} (settled : t.Settled marker false) (change : Mark → Mark) :
    (t.mapMark change).Settled marker false := by
  -- The comment of the node itself matters only inside of a statement.
  cases t with
  | node kind mark fields =>
    rw [settled_node] at settled
    exact settled_node.mpr ⟨by simp, settled.2⟩
  | _ => exact settled

/-- A name is settled. -/
theorem settled_name {t : Tree} (isName : t.isIdentifier) : t.Settled marker nested := by
  -- The walk does not go on from a name, and a name holds no call.
  cases t with
  | node kind mark fields =>
    have known : (kind == some "Identifier") = true := isName
    refine settled_node.mpr ⟨fun _ holds => ?_, by simp [known]⟩
    simp [holdsLoader_identifier mark fields known] at holds
  | _ => cases isName

/-- Texts and the like hold nothing. -/
theorem settled_value {t : Tree} (value : t.isNode = false) (single : t.items = []) :
    t.Settled marker nested := by
  -- The walk meets nothing here.
  cases t with
  | list items => cases single; exact settled_list.mpr (by simp)
  | node kind mark fields => cases value
  | _ => exact fun v met => by cases met

/-- A node that is put in is settled if what it holds is. -/
theorem settled_synthetic {kind : String} {fields : List (String × Tree)} (walked : isWalked kind)
    (here : nested → (synthetic kind fields).holdsLoader = false)
    (held : ∀ field ∈ fields, field.2.Settled marker true) :
    (synthetic kind fields).Settled marker nested := by
  -- Such a node is no program, so what it holds counts as lying inside of a statement.
  have inner : (some kind != some "Program") = true := by simp_all [isWalked]
  refine settled_node.mpr ⟨fun isNested holds => ?_, fun _ field member _ => ?_⟩
  · exact absurd holds (by rw [← synthetic, here isNested]; simp)
  · rw [inner]
    exact held field member

/-- A new name is settled. -/
@[simp] theorem settled_identifier (name : Text) : (identifier name).Settled marker nested :=
  settled_name rfl

/-- Nothing is settled. -/
@[simp] theorem settled_null : null.Settled marker nested := settled_value rfl rfl

/-- A flag is settled. -/
@[simp] theorem settled_flag (value : Bool) : (flag value).Settled marker nested :=
  settled_value rfl rfl

/-- A text is settled. -/
@[simp] theorem settled_text (value : Text) : (text value).Settled marker nested :=
  settled_value rfl rfl

/-- A new string literal is settled. -/
@[simp] theorem settled_stringLiteral (quote : Char) (value : Text) :
    (stringLiteral quote value).Settled marker nested :=
  settled_synthetic rfl (fun _ => rfl) (by simp)

/-- A call by a name is settled if what is given is. -/
theorem settled_call (callee : Text) {arguments : List Tree}
    (given : ∀ argument ∈ arguments, argument.Settled marker true) :
    (call (identifier callee) arguments).Settled marker nested :=
  settled_synthetic rfl (fun _ => rfl) (by simpa using settled_list.mpr given)

end Settled

end Tree

end ModuleLift
