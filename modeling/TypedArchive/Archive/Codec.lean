import TypedArchive.Archive.Contents
import TypedArchive.Archive.Entry
import TypedArchive.Binding.Routing

/-! Opening and saving archives: every JSON entry is checked against a catalog of types. -/

namespace TypedArchive.Archive

open Zip (StoredFile)

/-- When references to assets are checked. -/
inductive AssetCheck where
  /-- When an archive is opened and when it is saved. -/
  | eager
  /-- Only when it is saved. -/
  | deferred
  deriving DecidableEq, Repr

structure Options where
  documentType : String := "Document"
  metadataType : String := "Meta"
  pageType : String := "Page"
  /-- The type of per-user state, which otherwise is plain JSON. -/
  userType : Option String := none
  assetCheck : AssetCheck := .eager
  references : ReferenceConvention := {}

structure Codec where
  bindings : Bindings
  options : Options := {}

/-- What has been read of an archive; the document and its metadata may be still to come. -/
structure Draft where
  document : Option Record := none
  metadata : Option Record := none
  user : Option Data := none
  pages : Assoc Record := []
  workspace : Assoc Json := []
  assets : Assoc (List UInt8) := []

namespace Codec

variable (c : Codec)

/-- Reads an entry as a record of the expected type; its class may not select another. -/
def decodeRecord (path : String) (v : Json) (expected : String) : Except ArchiveError Record :=
  match c.bindings.decodeTagged v (some expected) with
  | .error e => .error (.decode path e)
  | .ok (typeName, d) =>
    if typeName ≠ expected then .error (.invalidDocument path (.otherType expected typeName))
    else
      match d with
      | .record typeName fields extra => .ok { typeName, fields, extra }
      | d => .error (.invalidDocument path (.notARecord expected d.kind))

def decodeUser (path : String) (v : Json) : Except ArchiveError Data :=
  match c.options.userType with
  | none => .ok (.unknown v)
  | some typeName => (c.bindings.decode typeName v).mapError (.decode path)

/-- Adds one entry to what has been read. -/
def readEntry (d : Draft) (e : ArchiveEntry) : Except ArchiveError Draft :=
  match e.content with
  | .binary bytes => .ok { d with assets := d.assets.insert e.path bytes }
  | .json v =>
    match e.kind with
    | .document => do
      let r ← c.decodeRecord e.path v c.options.documentType
      return { d with document := some r }
    | .metadata => do
      let r ← c.decodeRecord e.path v c.options.metadataType
      return { d with metadata := some r }
    | .user => do return { d with user := some (← c.decodeUser e.path v) }
    | .page => do
      let r ← c.decodeRecord e.path v c.options.pageType
      return { d with pages := d.pages.insert (entryStem e.path) r }
    | .workspace => .ok { d with workspace := d.workspace.insert (entryStem e.path) v }
    | k => .error (.invalidDocument e.path (.unexpectedJson k))

/-- The contents that have been read, if the document and its metadata are among them. -/
def assemble (d : Draft) : Except ArchiveError Contents :=
  match d.document, d.metadata with
  | none, _ => .error (.missingEntry documentPath)
  | _, none => .error (.missingEntry metaPath)
  | some document, some metadata =>
    .ok { d with document, metadata, references := c.options.references }

/-- Decodes entries into the contents of an archive, and checks that all listed pages are there. -/
def decodeEntries (entries : List ArchiveEntry) : Except ArchiveError Contents := do
  let g ← c.assemble (← entries.foldlM c.readEntry {})
  g.validatePages
  if c.options.assetCheck = .eager then g.validateAssets
  return g

def «open» (files : List StoredFile) : Except ArchiveError Contents := do
  c.decodeEntries (← readEntries files)

def encodeRecord (path typeName : String) (r : Record) : Except ArchiveError ArchiveEntry := do
  let v ← (c.bindings.encode typeName r.toData).mapError (.encode path)
  return ⟨path, .json v⟩

def encodeUser (d : Data) : Except ArchiveError ArchiveEntry :=
  match c.options.userType with
  | none => .ok ⟨userPath, .json d.toJson⟩
  | some typeName => do
    let v ← (c.bindings.encode typeName d).mapError (.encode userPath)
    return ⟨userPath, .json v⟩

def encodePages : List (String × Record) → Except ArchiveError (List ArchiveEntry)
  | [] => .ok []
  | (id, r) :: rest => do
    return (← c.encodeRecord (pagePath id) c.options.pageType r) :: (← encodePages rest)

/-- The entries for contents, in the order of an archive. -/
def encodeEntries (g : Contents) : Except ArchiveError (List ArchiveEntry) := do
  let document ← c.encodeRecord documentPath c.options.documentType g.document
  let metadata ← c.encodeRecord metaPath c.options.metadataType g.metadata
  let user ← match g.user with
    | none => .ok []
    | some d => do pure [← c.encodeUser d]
  let pages ← c.encodePages g.pages
  let workspace := g.workspace.map fun (name, v) => ⟨workspacePath name, .json v⟩
  let assets := g.assets.map fun (path, bytes) => ⟨path, .binary bytes⟩
  return document :: metadata :: user ++ pages ++ workspace ++ assets

/-- Checks contents and encodes them into the files of an archive. -/
def save (g : Contents) : Except ArchiveError (List StoredFile) := do
  g.validate
  writeEntries (← c.encodeEntries g)

end Codec

end TypedArchive.Archive
