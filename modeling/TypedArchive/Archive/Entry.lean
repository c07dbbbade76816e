import TypedArchive.Archive.Error
import TypedArchive.Json.Printer
import TypedArchive.Zip.Unpack

/-! The entries of an archive, and how they lie in a container of files. -/

namespace TypedArchive.Archive

open Zip (StoredFile)

inductive EntryContent where
  | json (v : Json)
  | binary (bytes : List UInt8)
  deriving DecidableEq, Repr

structure ArchiveEntry where
  path : String
  content : EntryContent
  deriving DecidableEq, Repr

namespace ArchiveEntry

def kind (e : ArchiveEntry) : EntryKind := .classify e.path

/-- Reads the content of a file according to its path. -/
def ofBytes (path : String) (bytes : List UInt8) : Except ArchiveError ArchiveEntry :=
  if (EntryKind.classify path).isJson then
    match Json.parseBytes bytes with
    | .ok v => .ok ⟨path, .json v⟩
    | .error e => .error (.json path e)
  else .ok ⟨path, .binary bytes⟩

/-- The entry in a file; directories hold none. -/
def ofFile? (f : StoredFile) : Except ArchiveError (Option ArchiveEntry) :=
  match f.content with
  | .error .unreadable => .error .unreadable
  | .error .corrupt => if isDirectory f.path then .ok none else .error (.entry f.path)
  | .ok bytes => if isDirectory f.path then .ok none else (ofBytes f.path bytes).map some

/-- JSON without spaces, and bytes as they are. -/
def bytes (e : ArchiveEntry) : List UInt8 :=
  match e.content with
  | .json v => v.render.toUTF8.toList
  | .binary bytes => bytes

end ArchiveEntry

/-- The files of a container. -/
def unpack (bytes : List UInt8) : Except ArchiveError (List StoredFile) :=
  match Zip.unpack? bytes with
  | some files => .ok files
  | none => .error .notAContainer

/-- Reads the entries of a container, in its order. -/
def readEntries : List StoredFile → Except ArchiveError (List ArchiveEntry)
  | [] => .ok []
  | f :: rest => do
    let e ← ArchiveEntry.ofFile? f
    return e.toList ++ (← readEntries rest)

/-- Writes entries in order; `taken` are the paths that are taken. -/
def writeFrom (taken : List String) : List ArchiveEntry → Except ArchiveError (List StoredFile)
  | [] => .ok []
  | e :: rest =>
    if e.path ∈ taken then .error (.entry e.path)
    else do return ⟨e.path, .ok e.bytes⟩ :: (← writeFrom (e.path :: taken) rest)

/-- Writes entries as files, no two of one path. -/
def writeEntries (entries : List ArchiveEntry) : Except ArchiveError (List StoredFile) :=
  writeFrom [] entries

end TypedArchive.Archive
