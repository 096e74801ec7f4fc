import ModuleLift.Path

/-! Completing relative module specifiers by asking which files exist. -/

namespace ModuleLift.Specifier

/-- Whether a specifier names a file relative to the one it stands in. -/
def isLocal (specifier : Text) : Bool :=
  specifier == "." || Text.startsWith "./" specifier || Text.startsWith "../" specifier

/-- The index file of the directory a specifier names. -/
def indexFile (specifier ext : Text) : Text :=
  if Path.endsInSlash specifier then specifier ++ "index" ++ ext
  else specifier ++ "/index" ++ ext

/-- Whether a specifier is tried with an extension right behind it. -/
def takesExtension (specifier : Text) : Bool :=
  specifier ≠ "." && isLocal specifier && !Path.endsInSlash specifier &&
    !Path.hasExtension specifier

/-- What came of asking for one candidate after the other. -/
structure Search where
  /-- The first candidate that exists. -/
  hit : Option Text := none
  /-- The paths asked for, in order. -/
  probes : List Text := []
deriving DecidableEq, Repr, Inhabited

/-- Asks for candidates in order, up to the first that exists. -/
def search (exists_ : Text → Bool) (baseDir : Text) : List Text → Search
  | [] => {}
  | candidate :: rest =>
    let path := Path.join baseDir candidate
    if exists_ path then { hit := some candidate, probes := [path] }
    else
      let later := search exists_ baseDir rest
      { later with probes := path :: later.probes }

/-- A search, and if it finds nothing, another one after it. -/
def Search.orElse (first : Search) (other : Unit → Search) : Search :=
  match first.hit with
  | some _ => first
  | none => { hit := (other ()).hit, probes := first.probes ++ (other ()).probes }

/-- What came of completing a specifier. -/
structure Resolved where
  /-- The specifier to write. -/
  path : Text
  isLocal : Bool
  /-- Whether a file was found for it. -/
  found : Bool
  /-- The paths asked for, in order. -/
  probes : List Text
deriving DecidableEq, Repr, Inhabited

/-- What a search gives for a local specifier: what was found, or the specifier unchanged. -/
def Search.resolved (s : Search) (specifier : Text) : Resolved :=
  { path := s.hit.getD specifier, isLocal := true, found := s.hit.isSome, probes := s.probes }

/-- Completes a specifier by the first file that exists. -/
def resolve (exists_ : Text → Bool) (baseDir : Text) (extensions : List Text)
    (specifier : Text) : Resolved :=
  if specifier = "." then
    (search exists_ baseDir (extensions.map ("./index" ++ ·))).resolved specifier
  else if !isLocal specifier then
    { path := specifier, isLocal := false, found := false, probes := [] }
  -- A specifier with an extension can only stand for itself.
  else if !Path.endsInSlash specifier && Path.hasExtension specifier then
    let path := Path.join baseDir specifier
    { path := specifier, isLocal := true, found := exists_ path, probes := [path] }
  else
    -- A file goes before a directory of the same name.
    let direct : Search :=
      if Path.endsInSlash specifier then {}
      else search exists_ baseDir (extensions.map (specifier ++ ·))
    (direct.orElse fun _ =>
      search exists_ baseDir (extensions.map (indexFile specifier))).resolved specifier

end ModuleLift.Specifier
