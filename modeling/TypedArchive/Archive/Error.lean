import TypedArchive.Archive.Layout
import TypedArchive.Binding.Error
import TypedArchive.Json.Parser

/-! What can go wrong with an archive. -/

namespace TypedArchive.Archive

/-- Why an entry that can be read is no document of its kind. -/
inductive DocumentFault where
  | notAList (field : String)
  | notAPageReference (field : String) (index : Nat)
  | noIdentifier (field : String)
  | reservedPath
  | otherType (expected found : String)
  | notARecord (expected kind : String)
  | notAnIdentifier (text : String)
  | unexpectedJson (kind : EntryKind)
  deriving DecidableEq, Repr

def DocumentFault.message : DocumentFault → String
  | notAList field => field ++ " is not a list"
  | notAPageReference field index =>
    field ++ "[" ++ toString index ++ "] is not a page reference"
  | noIdentifier field => "page has no " ++ field
  | reservedPath => "asset path is reserved for a JSON entry"
  | otherType expected found => "expected a " ++ expected ++ " document, found " ++ found
  | notARecord expected kind => expected ++ " decoded as " ++ kind ++ ", not a record"
  | notAnIdentifier text => text ++ " is not a UUID"
  | unexpectedJson kind => "unexpected JSON content for " ++ kind.word ++ " entry"

inductive ArchiveError where
  /-- The container is damaged as a whole. -/
  | notAContainer
  /-- An entry is stored in a way that is not known. -/
  | unreadable
  /-- The stored bytes of an entry are damaged, or its path is taken. -/
  | entry (path : String)
  | io
  | json (path : String) (error : Json.ParseError)
  | decode (path : String) (error : DecodeError)
  | encode (path : String) (error : EncodeError)
  | missingEntry (path : String)
  | missingPage (id : String)
  | missingAsset (reference : String)
  | invalidDocument (path : String) (fault : DocumentFault)
  deriving DecidableEq, Repr

namespace ArchiveError

def kind : ArchiveError → String
  | notAContainer | unreadable | entry _ => "Zip"
  | io => "Io"
  | json .. | decode .. => "Decode"
  | encode .. => "Encode"
  | missingEntry _ => "MissingEntry"
  | missingPage _ => "MissingPage"
  | missingAsset _ => "MissingAsset"
  | invalidDocument .. => "InvalidDocument"

/-- The path of the entry that the error is about. -/
def path? : ArchiveError → Option String
  | notAContainer | unreadable | io => none
  | entry path | json path _ | decode path _ | encode path _ | missingEntry path
  | missingAsset path | invalidDocument path _ => some path
  | missingPage id => some (pagePath id)

/-- What was expected, beyond the kind. -/
def context? : ArchiveError → Option String
  | notAContainer => some "not a zip archive"
  | missingEntry path => some ("archive has no " ++ path)
  | missingPage id =>
    some ("page " ++ id ++ " is listed in the root document but has no entry")
  | missingAsset reference =>
    some ("file reference " ++ reference ++ " does not resolve to an asset")
  | invalidDocument _ fault => some fault.message
  | unreadable | entry _ | io | json .. | decode .. | encode .. => none

/-- What can be done about it. -/
def help? : ArchiveError → Option String
  | missingPage _ => some "Every page in the document's page list must be stored under pages/"
  | missingAsset _ => some "Add the asset to the document, or remove the layer referencing it"
  | _ => none

/-- The text of the error beneath. -/
def cause? : ArchiveError → Option String
  | json _ error => some error.message
  | decode _ error => some error.message
  | encode _ error => some error.message
  | _ => none

/-- The whole text; for damage of the container and for input and output only its first words are
fixed. -/
def message (e : ArchiveError) : String :=
  e.kind ++ (e.path?.map (" in " ++ ·)).getD "" ++ (e.context?.map (": " ++ ·)).getD "" ++
    (e.cause?.map (": " ++ ·)).getD ""

end ArchiveError

end TypedArchive.Archive
