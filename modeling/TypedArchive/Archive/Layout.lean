/-! Where things lie in a document archive: what the path of an entry says about its content. -/

namespace TypedArchive.Archive

inductive EntryKind where
  | document | metadata | user | page | workspace | preview | image | other
  deriving DecidableEq, Repr

def documentPath : String := "document.json"

def metaPath : String := "meta.json"

def userPath : String := "user.json"

/-- The directory of pages, one entry each. -/
def pagesDirectory : String := "pages"

def workspaceDirectory : String := "workspace"

def jsonSuffix : List Char := ['.', 'j', 's', 'o', 'n']

/-- A text without a suffix that it ends in. -/
def withoutSuffix? (suffix cs : List Char) : Option (List Char) :=
  if suffix.isSuffixOf cs then some (cs.take (cs.length - suffix.length)) else none

/-- Whether a file name is a stem and `.json`, without further directories. -/
def isFlatJson (file : List Char) : Bool :=
  !file.contains '/' && jsonSuffix.isSuffixOf file && jsonSuffix.length < file.length

namespace EntryKind

/-- The kind of the entry at a path. -/
def classify (path : String) : EntryKind :=
  if path = documentPath then .document
  else if path = metaPath then .metadata
  else if path = userPath then .user
  else
    match path.toList.dropWhile (· != '/') with
    | [] => .other
    | _ :: file =>
      match String.ofList (path.toList.takeWhile (· != '/')) with
      | "pages" => if isFlatJson file then .page else .other
      | "workspace" => if isFlatJson file then .workspace else .other
      | "previews" => .preview
      | "images" => .image
      | _ => .other

/-- Whether entries of the kind hold JSON; all others are assets. -/
def isJson : EntryKind → Bool
  | document | metadata | user | page | workspace => true
  | preview | image | other => false

def isAsset (k : EntryKind) : Bool := !k.isJson

def word : EntryKind → String
  | document => "document"
  | metadata => "meta"
  | user => "user"
  | page => "page"
  | workspace => "workspace"
  | preview => "preview"
  | image => "image"
  | other => "other"

end EntryKind

/-- The path of the entry for a page. -/
def pagePath (id : String) : String := pagesDirectory ++ "/" ++ id ++ ".json"

/-- The path of the entry for a workspace document. -/
def workspacePath (name : String) : String := workspaceDirectory ++ "/" ++ name ++ ".json"

/-- The text after the last slash. -/
def fileName (path : List Char) : List Char := (path.reverse.takeWhile (· != '/')).reverse

/-- The name of a page or workspace document, from the path of its entry. -/
def entryStem (path : String) : String :=
  let file := fileName path.toList
  String.ofList ((withoutSuffix? jsonSuffix file).getD file)

/-- Whether a path stands for a directory. -/
def isDirectory (path : String) : Bool :=
  match path.toList.getLast? with
  | some c => c == '/' || c == '\\'
  | none => false

end TypedArchive.Archive
