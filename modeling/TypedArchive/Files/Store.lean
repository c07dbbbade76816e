import TypedArchive.Files.Tree
import TypedArchive.Schema.Bundle
import TypedArchive.Schema.Error

/-! What a program does with files, over a tree in memory or over real ones; and the schema
documents of a directory. -/

namespace TypedArchive

/-- The ways to reach files in a monad. -/
structure FileStore (m : Type → Type) where
  /-- The bytes of a file. -/
  read : (path : String) → m (Except SchemaError (List UInt8))
  /-- The files at or below a path, by the steps that lead to them from there. -/
  walk : (path : String) → m (Except SchemaError (List (List String)))
  write : (path : String) → List UInt8 → m (Except SchemaError Unit)
  makeDirectories : (path : String) → m (Except SchemaError Unit)

namespace FileStore

/-- The text of bytes. -/
def textOf (bytes : List UInt8) : Except SchemaError String :=
  match String.fromUTF8? ⟨bytes.toArray⟩ with
  | some s => .ok s
  | none => .error .io

def bytesOf (s : String) : List UInt8 := s.toUTF8.toList

/-- A tree in memory. -/
def inMemory : FileStore (StateM Files.Tree) where
  read path := do
    match (← get).read? (Files.resolve path) with
    | some content => return .ok content
    | none => return .error .io
  walk path := do
    let tree ← get
    let place := Files.resolve path
    if tree.isDirectory place || (tree.read? place).isSome then
      return .ok (tree.below place)
    else return .error .io
  write path content := do
    let tree ← get
    match if path.endsWith "/" then none else tree.write? (Files.resolve path) content with
    | some tree => set tree; return .ok ()
    | none => return .error .io
  makeDirectories path := do
    match (← get).makeDirectories? (Files.resolve path) with
    | some tree => set tree; return .ok ()
    | none => return .error .io

end FileStore

namespace Bundle

/-- Reads those files of a walk whose names end in `.json`, under their relative paths; `start` is
the path where the walk started. -/
def readDocuments {m : Type → Type} [Monad m] (store : FileStore m) (start : String) :
    (files : List (List String)) → m (Except SchemaError (List (String × String)))
  | [] => return .ok []
  | steps :: rest => do
    let name := (steps.getLast?).getD (((Files.steps start).getLast?).getD "")
    if Files.isJsonName name then
      let relative := "/".intercalate steps
      let content ← store.read (if steps.isEmpty then start else Files.join start relative)
      let others ← readDocuments store start rest
      return do return (relative, ← FileStore.textOf (← content)) :: (← others)
    else readDocuments store start rest

/-- Reads the documents below a directory. -/
def load {m : Type → Type} [Monad m] (store : FileStore m) (path : String) :
    m (Except SchemaError Bundle) := do
  match ← store.walk path with
  | .ok files => return (← readDocuments store path files).map .ofList
  | .error e => return .error e

end Bundle

end TypedArchive
