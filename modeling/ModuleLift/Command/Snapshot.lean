import ModuleLift.Command.Run

/-! Which places of a tree of files a run may look at, so that only those need be at hand. -/

namespace ModuleLift.Command

/-- The place reached after each step of a path, by names alone. -/
def placesOn (place : List String) : List String → List (List String)
  | [] => [place]
  | step :: rest =>
    place :: placesOn (if step = "." then place else Route.collapse place [step]) rest

/-- The places a path leads through in a working directory. -/
def placesOf (directory : List String) (path : String) : List (List String) :=
  placesOn (if path.toList.head? = some '/' then [] else directory) (FileTree.steps path)

/-- The inputs that arguments name, as paths from the root, with the settings for them. -/
def plan (place : Workplace) (arguments : List String) : Option (Settings × List Route) :=
  match settings arguments with
  | .ok (some s) => some (s, s.inputs.map fun path => (Route.ofText path).absolute place.directory)
  | _ => none

/-- The places of the inputs and of the files they are converted to. -/
def endpoints (place : Workplace) (arguments : List String) : List (List String) :=
  match plan place arguments with
  | some (s, inputs) =>
    inputs.flatMap fun input =>
      placesOf place.directory input.text ++ placesOf place.directory (s.output input).text
  | none => []

/-- The places that completing the specifiers of the inputs may ask for: all candidates, since none
of them is taken to exist. -/
def candidatePlaces (place : Workplace) (arguments : List String) (files : FileTree) :
    List (List String) :=
  match plan place arguments with
  | some (s, inputs) =>
    inputs.flatMap fun input =>
      match files.readText place.directory input.text with
      | .ok source =>
        -- Where no file exists every candidate is tried.
        match convertWith place.reader s.options (fun _ => false) input.text source with
        | .ok c => (c.probes.filterMap FileTree.pathOf?).flatMap (placesOf place.directory)
        | .error _ => []
      | .error _ => []
  | none => []

end ModuleLift.Command
