import TypedArchive.Binding.Decode
import TypedArchive.Binding.Encode

/-! Bindings of a catalog: decoding, encoding, and finding the type of a document by its class. -/

namespace TypedArchive

/-- A catalog, the key that holds a document's class, and the record types by class. -/
structure Bindings where
  catalog : Catalog
  classField : String
  classes : Assoc String

namespace Bindings

/-- The key that holds a class unless another is chosen. -/
def defaultClassField : String := "_class"

/-- The text to which a record type fixes a field. -/
def classOfEntry? (classField : String) (e : Entry) : Option String :=
  match e.type with
  | .record fields =>
    match (fields.find? fun f => f.name == classField).map Field.type with
    | some (.literal (.string s)) => some s
    | _ => none
  | _ => none

/-- Indexes the record types that fix the class field to a text; of two with one class the first in
the order of names counts. -/
def ofCatalog (catalog : Catalog) (classField : String := defaultClassField) : Bindings where
  catalog
  classField
  classes := catalog.entries.values.foldl (fun classes e =>
    match classOfEntry? classField e with
    | some s => if classes.contains s then classes else classes.insert s e.name
    | none => classes) []

def typeForClass? (b : Bindings) (name : String) : Option String := b.classes.get? name

/-- The class of a record type. -/
def classOf? (b : Bindings) (typeName : String) : Option String :=
  (b.classes.find? fun p => p.2 == typeName).map Prod.fst

def decode (b : Bindings) (name : String) (v : Json) : Except DecodeError Data :=
  b.catalog.decode name v

def encode (b : Bindings) (name : String) (d : Data) : Except EncodeError Json :=
  b.catalog.encode name d

/-- The type that a document's class selects; one without a class has the fallback's type. -/
def route (b : Bindings) (v : Json) (fallback : Option String) : Except DecodeError String :=
  match (v.get? b.classField).bind Json.asString?, fallback with
  | some name, _ =>
    match b.typeForClass? name with
    | some typeName => .ok typeName
    | none => .error (.unknownTag [] "document" b.classField (Text.quoted name))
  | none, some typeName => .ok typeName
  | none, none => .error (.missingField [.key b.classField])

/-- Reads a document as the type of its class. -/
def decodeTagged (b : Bindings) (v : Json) (fallback : Option String) :
    Except DecodeError (String × Data) := do
  let typeName ← b.route v fallback
  return (typeName, ← b.decode typeName v)

end Bindings

end TypedArchive
