import TypedArchive.Catalog.Literal
import TypedArchive.Schema.Pointer

/-! Schema nodes: one for each place of a document where a schema stands. -/

namespace TypedArchive

/-- The kind of a schema; a keyword earlier in the list decides over a later one: a reference,
compositions, a constant, an enumeration, the declared type, other keywords. -/
inductive NodeKind where
  | object | array
  | primitive (p : Primitive)
  | ref | composition | enumeration | constant | any
  deriving DecidableEq, Repr

def NodeKind.text : NodeKind → String
  | .object => "Object"
  | .array => "Array"
  | .primitive p => "Primitive(" ++ p.typeName ++ ")"
  | .ref => "Ref"
  | .composition => "Composition"
  | .enumeration => "Enum"
  | .constant => "Const"
  | .any => "Any"

/-- A reference as written, and the node it leads to once it is resolved. -/
structure Reference where
  raw : String
  target : Option Nat := none
  deriving DecidableEq, Repr

/-- A schema and the indices of the schemas inside it. -/
structure Node where
  document : String
  pointer : Pointer
  kind : NodeKind := .any
  properties : Assoc Nat := []
  /-- Keys that must be present, in increasing order. -/
  required : List String := []
  items : Option Nat := none
  /-- The schema of an object's values, whatever their keys. -/
  additional : Option Nat := none
  reference : Option Reference := none
  allOf : List Nat := []
  oneOf : List Nat := []
  anyOf : List Nat := []
  enumValues : Option (List Json) := none
  enumDescriptions : List String := []
  constant : Option Json := none
  anchor : Option String := none
  title : Option String := none
  description : Option String := none
  /-- The schema as written. -/
  schema : Json := .null
  deriving DecidableEq, Repr

namespace Node

/-- The qualified identifier: document, `#` and pointer. -/
def qualify (document : String) (pointer : Pointer) : String :=
  document ++ "#" ++ pointer.text

def id (n : Node) : String := qualify n.document n.pointer

def isRoot (n : Node) : Bool := n.pointer.isEmpty

/-- Whether the node says anything about its values. -/
def hasContent (n : Node) : Bool := n.kind != .any

/-- The last segment of the pointer, unless it is empty. -/
def pointerName (n : Node) : Option String := n.pointer.getLast?.filter fun s => !s.isEmpty

/-- Whether the node stands directly below a keyword for definitions. -/
def isDefinition (n : Node) : Bool :=
  match n.pointer.reverse with
  | _ :: keyword :: _ => keyword == "definitions" || keyword == "$defs"
  | _ => false

end Node

end TypedArchive
