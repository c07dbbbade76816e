import TypedArchive.Archive.Error
import TypedArchive.Archive.Reference
import TypedArchive.Archive.Uuid

/-! The decoded contents of an archive. The document lists its pages by reference; the bodies of the
pages are kept apart, by identifier. -/

namespace TypedArchive.Archive

structure Contents where
  document : Record
  metadata : Record
  user : Option Data := none
  pages : Assoc Record := []
  workspace : Assoc Json := []
  /-- The bytes of everything that is no JSON, by path. -/
  assets : Assoc (List UInt8) := []
  references : ReferenceConvention := {}
  deriving DecidableEq

namespace Contents

variable (g : Contents)

/-- The identifier that an item of the page list refers to. -/
def listedId? (conv : ReferenceConvention) (item : Data) : Option String := do
  (← conv.readRecord (← item.asRecord?)).pageId?

/-- The identifiers that the items of a page list refer to, the first at a given index. -/
def listedIds (conv : ReferenceConvention) :
    (index : Nat) → List Data → Except ArchiveError (List String)
  | _, [] => .ok []
  | index, item :: rest =>
    match listedId? conv item with
    | some id => do return id :: (← listedIds conv (index + 1) rest)
    | none => .error (.invalidDocument documentPath (.notAPageReference conv.pagesField index))

/-- The identifiers in the page list of the document, in its order. -/
def pageIds : Except ArchiveError (List String) :=
  match g.document.get? g.references.pagesField with
  | none => .ok []
  | some (.array items) => listedIds g.references 0 items
  | some _ => .error (.invalidDocument documentPath (.notAList g.references.pagesField))

/-- Appends a reference to the page list of the document, which may begin with it. -/
def listPage (id : String) : Contents :=
  let items := ((g.document.get? g.references.pagesField).bind Data.asArray?).getD []
  let items := items ++ [(g.references.pageRef id).toData]
  { g with document := g.document.insert g.references.pagesField (.array items) }

/-- Puts the body of a page, listed or not. -/
def insertBody (id : String) (page : Record) : Contents :=
  { g with pages := g.pages.insert id page }

def insertAsset (path : String) (bytes : List UInt8) : Contents :=
  { g with assets := g.assets.insert path bytes }

def removeAsset (path : String) : Contents := { g with assets := g.assets.erase path }

/-- Puts a page under its own identifier, and lists it unless it is listed. -/
def insertPage (page : Record) : Except ArchiveError (String × Contents) :=
  match page.getString? g.references.pageIdField with
  | none =>
    .error (.invalidDocument (pagePath "<new>") (.noIdentifier g.references.pageIdField))
  | some id => do
    let listed ← g.pageIds
    let g' := if id ∈ listed then g else g.listPage id
    return (id, g'.insertBody id page)

/-- Takes a page out of the page list, wherever it is listed. -/
def unlistPage (id : String) : Contents :=
  match g.document.get? g.references.pagesField with
  | some (.array items) =>
    let kept := items.filter fun item => listedId? g.references item != some id
    { g with document := g.document.insert g.references.pagesField (.array kept) }
  | _ => g

/-- Removes a page: its body, and all references to it in the page list. -/
def removePage (id : String) : Contents :=
  { g.unlistPage id with pages := g.pages.erase id }

/-- The bodies that are not listed. -/
def orphanPages : Except ArchiveError (List String) := do
  let listed ← g.pageIds
  return g.pages.keys.filter fun id => !listed.contains id

/-- Every listed page has a body. -/
def validatePages : Except ArchiveError Unit := do
  match (← g.pageIds).find? fun id => !g.pages.contains id with
  | some id => .error (.missingPage id)
  | none => .ok ()

/-- The assets that are referred to, in order. -/
def assetRefs : List String :=
  let conv := g.references
  Assoc.sortedNames <| conv.recordAssets g.document ++ conv.recordAssets g.metadata ++
    (g.user.map conv.dataAssets).getD [] ++ g.pages.values.flatMap conv.recordAssets ++
    g.workspace.values.flatMap conv.jsonAssets

/-- Every reference to an asset resolves. -/
def validateAssets : Except ArchiveError Unit :=
  match g.assetRefs.find? fun reference => (resolveAsset? g.assets reference).isNone with
  | some reference => .error (.missingAsset reference)
  | none => .ok ()

/-- No asset lies where JSON is expected. -/
def validateAssetPaths : Except ArchiveError Unit :=
  match g.assets.keys.find? fun path => (EntryKind.classify path).isJson with
  | some path => .error (.invalidDocument path .reservedPath)
  | none => .ok ()

def validate : Except ArchiveError Unit := do
  g.validateAssetPaths
  g.validatePages
  g.validateAssets

/-- The identifier of a listed page, as its body says or else the list. -/
def pageUuid (id : String) : Except ArchiveError Uuid :=
  match g.pages.get? id with
  | none => .error (.missingPage id)
  | some page =>
    let text := (page.getString? g.references.pageIdField).getD id
    match Uuid.parse? text with
    | some u => .ok u
    | none => .error (.invalidDocument (pagePath id) (.notAnIdentifier text))

/-- The exclusive or of the identifiers of pages. -/
def xorIds : List String → Except ArchiveError Uuid
  | [] => .ok 0
  | id :: rest => do return (← g.pageUuid id) ^^^ (← xorIds rest)

/-- The identifier of the document: the exclusive or of those of its pages. -/
def objectId : Except ArchiveError String := do
  return (← g.xorIds (← g.pageIds)).text

/-- The page with an identifier. -/
def page? (id : String) : Option Record := g.pages.get? id

/-- Removes a page, and gives its body back. -/
def takePage (id : String) : Option Record × Contents := (g.page? id, g.removePage id)

end Contents

end TypedArchive.Archive
