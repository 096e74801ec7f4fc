import ModuleLift.Loader
import ModuleLift.Proofs.Tree.Parts

/-! What an expression that counts as a call of `require` looks like. -/

namespace ModuleLift.Loader

/-- What a factory is given; no other shape has arguments of its own. -/
def given : Loader → List Tree
  | .factory _ arguments => arguments
  | _ => []

/-- A call of `require` with one argument. -/
structure Requires (t target : Tree) : Prop where
  isCall : t.isA "CallExpression"
  callee : (t.get "callee").isNamed "require"
  single : (t.get "arguments").items = [target]

/-- The three shapes of a call of `require`, with the places of what they hold. -/
inductive Calls (t : Tree) : Loader → Prop where
  | plain {target : Tree} (call : Requires t target) : Calls t (.plain target)
  | factory {target : Tree} (isCall : t.isA "CallExpression")
      (inner : Requires (t.get "callee") target) (named : target.stringValue?.isSome) :
      Calls t (.factory target (t.get "arguments").items)
  | member {target : Tree} (isMember : t.isA "MemberExpression")
      (inner : Requires (t.get "object") target) (named : target.stringValue?.isSome)
      (property : (t.get "property").isIdentifier) : Calls t (.member target (t.get "property"))

/-- What is taken for a call of `require` with one argument is one. -/
theorem requires_of_requireArgument {t target : Tree} (found : requireArgument? t = some target) :
    Requires t target := by
  -- There is one argument, and it is no spread.
  rw [requireArgument?] at found
  split at found
  · rename_i call
    rw [Bool.and_eq_true] at call
    split at found
    · rename_i argument single
      split at found
      · cases found
      · cases found
        exact ⟨call.1, call.2, single⟩
    · cases found
  · cases found

/-- A call of `require` with a string literal. -/
theorem requires_of_staticArgument {t target : Tree} (found : staticArgument? t = some target) :
    Requires t target ∧ target.stringValue?.isSome := by
  -- The argument of the call, if it passes the test for a literal.
  rw [staticArgument?, Option.filter_eq_some_iff] at found
  exact ⟨requires_of_requireArgument found.1, found.2⟩

/-- What is recognized has one of the three shapes. -/
theorem calls_of_classify {t : Tree} {loader : Loader} (found : classify t = some loader) :
    Calls t loader := by
  -- The shapes are tried in this order, and the first that fits is taken.
  rw [classify] at found
  split at found
  · rename_i isCall
    split at found
    · rename_i argument given
      cases found
      exact .plain (requires_of_requireArgument given)
    · obtain ⟨target, given, rfl⟩ := Option.map_eq_some_iff.mp found
      obtain ⟨inner, named⟩ := requires_of_staticArgument given
      exact .factory isCall inner named
  · split at found
    · rename_i member
      rw [Bool.and_eq_true] at member
      split at found
      · rename_i property
        obtain ⟨target, given, rfl⟩ := Option.map_eq_some_iff.mp found
        obtain ⟨inner, named⟩ := requires_of_staticArgument given
        exact .member member.1 inner named property
      · cases found
    · cases found

/-- The parts of the argument are parts of the call. -/
theorem Requires.target_subset {t target : Tree} (call : Requires t target) :
    target.parts ⊆ t.parts := by
  -- The argument is an element of a field.
  have held : target ∈ (t.get "arguments").items := by simp [call.single]
  exact (Tree.parts_sublist_of_mem_get rfl held).subset

/-- The parts of the argument are parts of the expression around the call. -/
theorem Calls.target_subset {t : Tree} {loader : Loader} (calls : Calls t loader) :
    loader.target.parts ⊆ t.parts := by
  -- The call is the expression itself, what is called, or the object of a member.
  cases calls with
  | plain call => exact call.target_subset
  | factory _ inner _ =>
    exact fun part member => (Tree.parts_get_sublist t rfl).subset (inner.target_subset member)
  | member _ inner _ _ =>
    exact fun part member => (Tree.parts_get_sublist t rfl).subset (inner.target_subset member)

/-- A string literal has a kind. -/
theorem kind_of_stringValue {t : Tree} (named : t.stringValue?.isSome) : t.kind?.isSome := by
  -- Only a node of the kind of literals has a string value.
  rw [Tree.stringValue?] at named
  split at named
  · rename_i literal
    exact Tree.kind_of_isA (Bool.and_eq_true_iff.mp literal).1
  · simp at named

end ModuleLift.Loader
