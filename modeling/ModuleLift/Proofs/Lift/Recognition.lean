import ModuleLift.Proofs.Lift.Names
import ModuleLift.Proofs.Tree.Skeleton

/-! What a top-level statement asks for: calls of `require` that an import can take the place of,
and assignments that exports can. The skeleton of a statement tells all of it. -/

namespace ModuleLift

namespace Loader

/-- A call of `require` without marks. -/
def skeleton : Loader → Loader
  | .plain target => .plain target.skeleton
  | .factory target arguments => .factory target.skeleton (arguments.map Tree.skeleton)
  | .member target property => .member target.skeleton property.skeleton

/-- The module that is named is told by the skeleton. -/
@[simp] theorem module?_skeleton (loader : Loader) : loader.skeleton.module? = loader.module? := by
  cases loader <;> exact Tree.stringValue?_skeleton _

/-- The argument of `require` in a skeleton is the skeleton of the argument. -/
theorem requireArgument?_skeleton (t : Tree) :
    requireArgument? t.skeleton = (requireArgument? t).map Tree.skeleton := by
  simp only [requireArgument?, Tree.isA_skeleton, Tree.get_skeleton, Tree.isNamed_skeleton,
    Tree.items_skeleton]
  split
  · -- Whether there is one argument is told by the number of skeletons.
    rcases (t.get "arguments").items with _ | ⟨argument, _ | ⟨second, more⟩⟩
    · rfl
    · simp only [List.map_cons, List.map_nil, Tree.isA_skeleton]
      split <;> rfl
    · rfl
  · rfl

/-- The argument of `require`, if it is a string literal, is told by the skeleton. -/
theorem staticArgument?_skeleton (t : Tree) :
    staticArgument? t.skeleton = (staticArgument? t).map Tree.skeleton := by
  simp [staticArgument?, requireArgument?_skeleton, Option.filter_map, Function.comp_def]

/-- What an expression is recognized as is told by its skeleton. -/
theorem classify_skeleton (t : Tree) : classify t.skeleton = (classify t).map skeleton := by
  -- Every question asked on the way is answered by the skeleton.
  simp only [classify, Tree.isA_skeleton, Tree.get_skeleton, Tree.isSet_skeleton,
    Tree.isIdentifier_skeleton, Tree.items_skeleton, requireArgument?_skeleton,
    staticArgument?_skeleton]
  split
  · cases requireArgument? t with
    | some argument => rfl
    | none => cases staticArgument? (t.get "callee") <;> rfl
  · split
    · split
      · cases staticArgument? (t.get "object") <;> rfl
      · rfl
    · rfl

/-- Two expressions with one skeleton are recognized alike. -/
theorem classify_congr {t u : Tree} (same : t.skeleton = u.skeleton) {loader : Loader}
    (called : classify t = some loader) :
    ∃ other, classify u = some other ∧ other.skeleton = loader.skeleton := by
  -- Recognition goes by skeletons, on both sides.
  have both := classify_skeleton u
  rw [← same, classify_skeleton, called, Option.map_some] at both
  exact Option.map_eq_some_iff.mp both.symm

end Loader

/-- The name a key stands for is told by its skeleton. -/
@[simp] theorem propertyKey?_skeleton (key : Tree) :
    propertyKey? key.skeleton = propertyKey? key := by
  simp [propertyKey?]

/-- The pair of a property in a pattern is told by the skeleton. -/
@[simp] theorem patternPair?_skeleton (property : Tree) :
    patternPair? property.skeleton = patternPair? property := by
  simp [patternPair?]

/-- The pairs of a flat pattern are told by its skeleton. -/
@[simp] theorem patternPairs?_skeleton (pattern : Tree) :
    patternPairs? pattern.skeleton = patternPairs? pattern := by
  simp [patternPairs?, List.mapM_map, Function.comp_def]

namespace ExportMap

/-- The entry of a property in an object is told by the skeleton. -/
@[simp] theorem ofProperty?_skeleton (property : Tree) :
    ofProperty? property.skeleton = ofProperty? property := by
  simp [ofProperty?]

/-- The entries of an object literal are told by its skeleton. -/
@[simp] theorem ofObject?_skeleton (value : Tree) : ofObject? value.skeleton = ofObject? value := by
  simp [ofObject?, List.mapM_map, Function.comp_def]

end ExportMap

namespace Tree

/-- Whether a statement assigns an object literal to `module.exports`. -/
def assignsObject (t : Tree) : Bool :=
  t.isA "ExpressionStatement" && (Lift.exportsValue? t).any fun value =>
    value.isA "ObjectExpression"

/-- Whether a statement assigns to `module.exports` an object literal that exports can be made
of. -/
def yieldsExports (t : Tree) : Bool :=
  t.isA "ExpressionStatement" && (Lift.exportsValue? t).any fun value =>
    value.isA "ObjectExpression" && (ExportMap.ofObject? value).isSome

section Skeleton

/-- Whether an import takes over a declarator is told by the skeleton. -/
@[simp] theorem isTaken_skeleton (d : Tree) : d.skeleton.isTaken = d.isTaken := by
  simp only [isTaken, get_skeleton, Loader.classify_skeleton, isIdentifier_skeleton, isA_skeleton,
    patternPairs?_skeleton]
  -- The shape of the call is the same on both sides.
  rcases Loader.classify (d.get "init") with _ | _ | _ | _ <;> simp [Loader.skeleton]

/-- Whether a declarator takes a factory is told by the skeleton. -/
@[simp] theorem takesFactory_skeleton (d : Tree) : d.skeleton.takesFactory = d.takesFactory := by
  -- So is the shape of a call.
  have shape (loader : Loader) : loader.skeleton.isFactory = loader.isFactory := by
    cases loader <;> rfl
  simp [takesFactory, Loader.classify_skeleton, Option.any_map, shape]

/-- Whether a declarator is lowered is told by the skeleton. -/
@[simp] theorem isLowered_skeleton (d : Tree) : d.skeleton.isLowered = d.isLowered := by
  simp [isLowered]

/-- Whether a node holds a call of `require` is told by its skeleton. -/
@[simp] theorem holdsLoader_skeleton (t : Tree) : t.skeleton.holdsLoader = t.holdsLoader := by
  simp [holdsLoader, Loader.classify_skeleton, Function.comp_def]

/-- Whether an expression is `module.exports` is told by the skeleton. -/
theorem isModuleExports_skeleton (t : Tree) :
    Lift.isModuleExports t.skeleton = Lift.isModuleExports t := by
  simp [Lift.isModuleExports]

/-- The value assigned to `module.exports` is told by the skeleton. -/
theorem exportsValue?_skeleton (t : Tree) :
    Lift.exportsValue? t.skeleton = (Lift.exportsValue? t).map skeleton := by
  -- All conditions are on kinds and names.
  simp only [Lift.exportsValue?, get_skeleton, isA_skeleton, isText_skeleton,
    isModuleExports_skeleton]
  split <;> rfl

/-- Whether a statement yields exports is told by the skeleton. -/
@[simp] theorem yieldsExports_skeleton (t : Tree) : t.skeleton.yieldsExports = t.yieldsExports := by
  simp [yieldsExports, exportsValue?_skeleton, Option.any_map]

end Skeleton

/-- Apart from labels, properties and keys, the walk enters all fields that are no notes. -/
theorem entersField_plain {kind : Option String} {computed : Bool} {key : String}
    (walked : isNoteKey key = false) (plain : key ∉ ["label", "property", "key"]) :
    entersField kind computed key := by
  simp_all [entersField]

section Annotate

variable (marker : Text) (nested : Bool)

/-- The items of a list are commented one by one. -/
@[simp] theorem items_annotate (t : Tree) :
    (t.annotate marker nested).1.items =
      t.items.map fun item => (item.annotate marker nested).1 := by
  -- Only a list has items.
  cases t with
  | list items => exact annotateAll_fst marker nested items
  | node kind mark fields =>
    rw [annotate]
    split <;> rfl
  | _ => rfl

/-- The declarators of a declaration are commented one by one. -/
theorem declarations_annotate {t : Tree} (isDeclaration : t.isA "VariableDeclaration") :
    ((t.annotate marker nested).1.get "declarations").items =
      (t.get "declarations").items.map fun d => (d.annotate marker true).1 := by
  -- The walk enters the field of the declarators, and is below the top then.
  cases t with
  | node kind mark fields =>
    have known : kind = some "VariableDeclaration" := beq_iff_eq.mp isDeclaration
    subst known
    rw [get_annotate mark fields marker nested rfl, if_pos (entersField_plain rfl (by decide)),
      items_annotate]
    rfl
  | _ => cases isDeclaration

/-- Comments leave the kind. -/
@[simp] theorem isA_annotate (t : Tree) (kind : String) :
    (t.annotate marker nested).1.isA kind = t.isA kind := by
  rw [← isA_skeleton, skeleton_annotate, isA_skeleton]

/-- Comments below a statement do not change whether it yields exports. -/
@[simp] theorem yieldsExports_annotate (t : Tree) :
    (t.annotate marker nested).1.yieldsExports = t.yieldsExports := by
  rw [← yieldsExports_skeleton, skeleton_annotate, yieldsExports_skeleton]

end Annotate

end Tree

end ModuleLift
