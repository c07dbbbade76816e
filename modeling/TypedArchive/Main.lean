import TypedArchive.Command.Run

/-! The generator as a program: files are those of the system. -/

namespace TypedArchive.Command

/-- What an action on files gives, or that it failed. -/
def attempt {α : Type} (action : IO α) : IO (Except SchemaError α) := do
  match ← action.toBaseIO with
  | .ok a => return .ok a
  | .error _ => return .error .io

/-- The files below a directory, in the order of their names. Links are not followed. -/
partial def filesBelow (directory : String) (steps : List String) : IO (List (List String)) := do
  let entries ← (← IO.FS.realPath directory).readDir
  let names := (entries.map fun e => e.fileName).qsort (· < ·)
  let mut found := []
  for name in names do
    let path := directory ++ "/" ++ name
    match entries.find? fun e => e.fileName == name with
    | none => pure ()
    | some e =>
      match (← e.path.symlinkMetadata).type with
      | .dir => found := found ++ (← filesBelow path (steps ++ [name]))
      | .file => found := found ++ [steps ++ [name]]
      | _ => pure ()
  return found

/-- The files of the system. -/
def systemStore : FileStore IO where
  read path := attempt do return (← IO.FS.readBinFile path).toList
  walk path := attempt do
    match (← (← IO.FS.realPath path).metadata).type with
    | .dir => filesBelow path []
    | _ => return [[]]
  write path content := attempt (IO.FS.writeBinFile path ⟨content.toArray⟩)
  makeDirectories path := attempt (IO.FS.createDirAll path)

end TypedArchive.Command

open TypedArchive.Command in
def main (words : List String) : IO UInt32 := do
  let outcome ← run systemStore words
  if let .failure (some e) := outcome then IO.eprintln e.message
  return outcome.exitCode.toUInt32
