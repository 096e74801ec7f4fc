import ModuleLift.Command.Snapshot

/-! The command line. The files a run may look at are read first, and what it changed is written
afterwards. -/

namespace ModuleLift

/-- Reads what is at some places, and adds it to a tree of files. -/
def load (places : List (List String)) (files : FileTree) : IO FileTree := do
  let here ← IO.currentDir
  let mut files := files
  for place in places.eraseDups do
    let path := here / ("/" ++ "/".intercalate place)
    if ← path.isDir then
      files := files.put place .directory
    else if ← path.pathExists then
      files := files.put place (.file (← IO.FS.readBinFile path).toList)
  return files

/-- Writes the entries of a tree that differ from those of another, directories first. -/
def store (before after : FileTree) : IO Unit := do
  let here ← IO.currentDir
  for (place, entry) in after.entries do
    if entry = .directory && before.get place ≠ some entry then
      IO.FS.createDirAll (here / ("/" ++ "/".intercalate place))
  for (place, entry) in after.entries do
    if let .file bytes := entry then
      if before.get place ≠ some entry then
        IO.FS.writeBinFile (here / ("/" ++ "/".intercalate place)) (ByteArray.mk bytes.toArray)

end ModuleLift

open ModuleLift in
/-- Converts the files that the arguments name. -/
def main (arguments : List String) : IO UInt32 := do
  let here ← IO.currentDir
  let place : Command.Workplace := {
    directory := (Route.ofText here.toString).names, reader := Reader.strict }
  let endpoints ← load (Command.endpoints place arguments) {}
  let files ← load (Command.candidatePlaces place arguments endpoints) endpoints
  let (session, ending) := Command.run place arguments files
  store files session.files
  IO.print (Text.printed session.out)
  IO.eprint (Text.printed session.err)
  match ending with
  | .finished status => return status.toUInt32
  | .stopped status => return status.toUInt32
  | .broken cause =>
    IO.eprintln (Text.printed cause.message)
    return 1
