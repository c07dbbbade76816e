import TypedArchive.Archive.Layout
import TypedArchive.Binding.Data

/-! References from one entry of an archive to another: objects of one class that hold a path. -/

namespace TypedArchive.Archive

/-- The keys and classes that make an object a reference. -/
structure ReferenceConvention where
  /-- The catalog type of references. -/
  typeName : String := "FileRef"
  /-- The class of references. -/
  className : String := "MSJSONFileReference"
  classField : String := "_class"
  /-- The key of the path. -/
  refField : String := "_ref"
  /-- The key of the class of what is referred to. -/
  refClassField : String := "_ref_class"
  /-- The class of pages as things referred to. -/
  pageRefClass : String := "MSImmutablePage"
  /-- The key of the page list in the document. -/
  pagesField : String := "pages"
  /-- The key of a page's identifier in the page. -/
  pageIdField : String := "do_objectID"
  deriving DecidableEq, Repr

structure FileRef where
  refClass : Option String
  path : String
  deriving DecidableEq, Repr

/-- The identifier of the page that a reference's path names: the page directory, a slash, and the
identifier without slashes. -/
def FileRef.pageId? (r : FileRef) : Option String :=
  match pagesDirectory.toList.isPrefixOf r.path.toList,
    r.path.toList.drop pagesDirectory.length with
  | true, '/' :: id => if id.isEmpty || id.contains '/' then none else some (String.ofList id)
  | _, _ => none

namespace ReferenceConvention

variable (conv : ReferenceConvention)

/-- The reference among members that a key gives the text of. -/
def read (textAt : String → Option String) : Option FileRef :=
  if textAt conv.classField = some conv.className then
    (textAt conv.refField).map fun path => ⟨textAt conv.refClassField, path⟩
  else none

/-- The text of a member, declared or not. -/
def textOf (r : Record) (name : String) : Option String :=
  r.getString? name <|> (Assoc.get? r.extra name).bind Json.asString?

/-- The reference that a record is. -/
def readRecord (r : Record) : Option FileRef := conv.read (textOf r)

/-- The reference that a JSON object is. -/
def readJson (v : Json) : Option FileRef :=
  conv.read fun key => (v.get? key).bind Json.asString?

def isPageRef (r : FileRef) : Bool := r.refClass == some conv.pageRefClass

/-- The reference to a page, for the page list. -/
def pageRef (id : String) : Record :=
  { typeName := conv.typeName : Record }
    |>.insert conv.classField (.string conv.className)
    |>.insert conv.refClassField (.string conv.pageRefClass)
    |>.insert conv.refField (.string (pagesDirectory ++ "/" ++ id))

/-- The path of a reference to an asset. -/
def assetPath? (r : Option FileRef) : List String :=
  match r with
  | some r => if conv.isPageRef r then [] else [r.path]
  | none => []

mutual

/-- The paths of all asset references in JSON. -/
def jsonAssets : Json → List String
  | .object members => conv.assetPath? (conv.readJson (.object members)) ++ memberAssets members
  | .array items => itemAssets items
  | _ => []

def itemAssets : List Json → List String
  | [] => []
  | v :: rest => jsonAssets v ++ itemAssets rest

def memberAssets : List (String × Json) → List String
  | [] => []
  | (_, v) :: rest => jsonAssets v ++ memberAssets rest

end

mutual

/-- The paths of all asset references in a value, among members unknown to the schema too. -/
def dataAssets : Data → List String
  | .record typeName fields extra =>
    conv.assetPath? (conv.readRecord { typeName, fields, extra }) ++ entryAssets fields ++
      conv.memberAssets extra
  | .array items => dataItemAssets items
  | .map entries => entryAssets entries
  | .union _ _ _ d => dataAssets d
  | .unknown v => conv.jsonAssets v
  | .null | .boolean _ | .integer _ | .number _ | .string _ | .enumeration .. => []

def dataItemAssets : List Data → List String
  | [] => []
  | d :: rest => dataAssets d ++ dataItemAssets rest

def entryAssets : List (String × Data) → List String
  | [] => []
  | (_, d) :: rest => dataAssets d ++ entryAssets rest

end

def recordAssets (r : Record) : List String := conv.dataAssets r.toData

end ReferenceConvention

/-- Whether a path is another with an extension: a point and what holds no point or slash. -/
def extends? (reference path : List Char) : Bool :=
  match reference.isPrefixOf path, path.drop reference.length with
  | true, '.' :: extension => !extension.contains '.' && !extension.contains '/'
  | _, _ => false

/-- The path among those of assets that a reference means: the same, or else the first that adds
an extension. -/
def resolveAsset? {α : Type} (assets : Assoc α) (reference : String) : Option String :=
  if assets.contains reference then some reference
  else assets.keys.find? fun path => extends? reference.toList path.toList

end TypedArchive.Archive
