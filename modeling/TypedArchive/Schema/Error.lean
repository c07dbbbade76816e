import TypedArchive.Json.Parser
import TypedArchive.Json.Printer

/-! What can go wrong between reading a bundle of schema documents and writing bindings. -/

namespace TypedArchive

/-- Why a document is no schema. -/
inductive DocumentFault where
  | json (error : Json.ParseError)
  | notASchema (node kind : String)
  | referenceNotText (node : String)
  | enumNotArray (node : String)
  | branchesNotArray (keyword node : String)
  deriving DecidableEq, Repr

def DocumentFault.message : DocumentFault → String
  | .json error => error.message
  | .notASchema node kind => "expected a schema object at " ++ node ++ ", found " ++ kind
  | .referenceNotText node => "$ref in " ++ node ++ " is not a string"
  | .enumNotArray node => "enum in " ++ node ++ " is not an array"
  | .branchesNotArray keyword node => keyword ++ " in " ++ node ++ " is not an array"

/-- Schema features without a type in the catalog. -/
inductive Feature where
  | typeDeclaration (value : Json)
  | typeName (name : String)
  | enumValue (value : Json)
  | constValue (value : Json)
  | alternativesBesideAllOf
  | alternativesInAllOf
  | allOfBranch (kind : String)
  deriving DecidableEq, Repr

def Feature.text : Feature → String
  | .typeDeclaration value => "type declaration " ++ value.render
  | .typeName name => "type \x60" ++ name ++ "\x60"
  | .enumValue value => "enum value " ++ value.render
  | .constValue value => "const value " ++ value.render
  | .alternativesBesideAllOf => "allOf combined with oneOf/anyOf on one node"
  | .alternativesInAllOf => "oneOf/anyOf inside allOf"
  | .allOfBranch kind => "allOf branch of kind " ++ kind

inductive SchemaError where
  | io
  | parse (document : String) (fault : DocumentFault) (span : Option (Nat × Nat))
  | unresolvedReference (reference node : String)
  | compositionConflict (field node left right : String)
  | ambiguousUnion (node : String) (variant : Nat)
  | circularReference (node : String) (cycle : List String)
  | unsupported (feature : Feature) (node : String)
  | emit (typeName message : String)
  | config (path message : String)
  deriving DecidableEq, Repr

namespace SchemaError

/-- The text of an error; for input and output only its first words are fixed. -/
def message : SchemaError → String
  | io => "IO error"
  | parse document fault _ =>
    "Failed to parse schema document " ++ document ++ ": " ++ fault.message
  | unresolvedReference reference node =>
    "Unresolved reference " ++ reference ++ " in " ++ node
  | compositionConflict field node _ _ =>
    "Conflicting definitions of field \x60" ++ field ++ "\x60 while merging " ++ node
  | ambiguousUnion node variant =>
    "Ambiguous union " ++ node ++ ": variant " ++ toString variant ++ " can never be selected"
  | circularReference node _ => "Circular reference detected at " ++ node
  | unsupported feature _ => "Unsupported feature: " ++ feature.text
  | emit typeName message => "Failed to emit bindings for " ++ typeName ++ ": " ++ message
  | config path message => "Invalid configuration in " ++ path ++ ": " ++ message

/-- The number of bytes in the first lines of a text, line feeds included. -/
def bytesInLines : (lines : Nat) → List UInt8 → Nat
  | 0, _ | _, [] => 0
  | lines + 1, b :: rest =>
    1 + (if b = 10 then bytesInLines lines rest else bytesInLines (lines + 1) rest)

/-- The offset and length of the byte of a text that a reading fault points at. -/
def span (bytes : List UInt8) (e : Json.ParseError) : Option (Nat × Nat) :=
  if e.line = 0 then none
  else some (min (bytesInLines (e.line - 1) bytes + (e.column - 1)) bytes.length, 1)

/-- The error for a document that is no JSON. -/
def ofJson (document : String) (bytes : List UInt8) (e : Json.ParseError) : SchemaError :=
  .parse document (.json e) (span bytes e)

end SchemaError

end TypedArchive
