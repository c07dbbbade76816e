import TypedArchive.Binding.Data
import TypedArchive.Binding.Error
import TypedArchive.Catalog.Basic
import TypedArchive.Json.Printer

/-! Reading JSON as a type of the catalog. Structure is strict: members that must be there, kinds,
enum members and tags. Members that a record does not know are kept. -/

namespace TypedArchive

/-- How one JSON value reads as each type, at each path. -/
abbrev Decoder := TypeRef → FieldPath → Except DecodeError Data

/-- The decoders of the values inside a value. -/
structure DecoderParts where
  items : List Decoder := []
  members : Assoc Decoder := []

namespace Decode

def mismatch {α : Type} (expected : String) (v : Json) (path : FieldPath) :
    Except DecodeError α :=
  .error (.typeMismatch path expected v.kind)

def primitive (p : Primitive) (v : Json) (path : FieldPath) : Except DecodeError Data :=
  match p, v with
  | .any, v => .ok (.unknown v)
  | .string, .string s => .ok (.string s)
  | .integer, .number n =>
    match n.toInt64? with
    | some i => .ok (.integer i)
    | none => mismatch p.word v path
  | .number, .number n => .ok (.number n)
  | .boolean, .bool b => .ok (.boolean b)
  | .null, .null => .ok .null
  | p, v => mismatch p.word v path

def literal (l : Literal) (v : Json) (path : FieldPath) : Except DecodeError Data :=
  if l.accepts v then primitive l.primitive v path else mismatch ("literal " ++ l.text) v path

/-- A literal outside the enum is unknown if it is of the first member's kind. -/
def enumeration (typeName : String) (values : List Literal) (v : Json) (path : FieldPath) :
    Except DecodeError Data :=
  match Literal.ofJson? v with
  | none => mismatch "enum literal" v path
  | some l =>
    if l ∈ values then .ok (.enumeration typeName l)
    else if values.head?.all fun first => first.primitive == l.primitive then
      .error (.unknownEnumValue path typeName l.text)
    else mismatch "enum literal" v path

def array (v : Json) (items : List Decoder) (t : TypeRef) (path : FieldPath) :
    Except DecodeError Data :=
  match v with
  | .array _ => .array <$> items.zipIdx.mapM fun (item, i) => item t (path.pushIndex i)
  | v => mismatch "array" v path

def map (v : Json) (members : Assoc Decoder) (t : TypeRef) (path : FieldPath) :
    Except DecodeError Data :=
  match v with
  | .object _ =>
    .map <$> members.mapM fun (key, member) => do return (key, ← member t (path.pushKey key))
  | v => mismatch "object" v path

/-- The declared members that are present, in field order; one that must be there may not be
absent. -/
def fields (members : Assoc Decoder) (declared : List Field) (path : FieldPath) :
    Except DecodeError (List (String × Data)) :=
  declared.foldlM (fun read f =>
    match members.get? f.name with
    | some member => do return read ++ [(f.name, ← member f.type (path.pushKey f.name))]
    | none => if f.optional then .ok read else .error (.missingField (path.pushKey f.name))) []

def declares (declared : List Field) (name : String) : Bool :=
  declared.any fun f => f.name == name

def record (typeName : String) (declared : List Field) (v : Json) (members : Assoc Decoder)
    (path : FieldPath) : Except DecodeError Data :=
  match v with
  | .object all => do
    let read ← fields members declared path
    return .record typeName (Assoc.ofList read) (all.filter fun p => !declares declared p.1)
  | v => mismatch "object" v path

/-- The variant that a value selects, with its tag: by the discriminant, else the first shape that
fits. -/
def selectVariant (typeName : String) (discriminant : Option String) (variants : List Variant)
    (v : Json) (path : FieldPath) : Except DecodeError (Nat × Variant × Option Literal) :=
  match discriminant, v with
  | some name, .object members =>
    match members.lookup name with
    | none => .error (.missingField (path.pushKey name))
    | some raw =>
      match Literal.ofJson? raw with
      | none => .error (.unknownTag path typeName name raw.render)
      | some tag =>
        match variantForTag? variants tag with
        | some (index, variant) => .ok (index, variant, some tag)
        | none => .error (.unknownTag path typeName name raw.render)
  | some _, v => mismatch "object" v path
  | none, v =>
    match variants.zipIdx.find? fun p => p.1.shape.accepts v with
    | some (variant, index) => .ok (index, variant, none)
    | none => .error (.noMatchingVariant path typeName)

/-- Reads a value whose parts have decoders. `steps` bounds the names entered without going into a
part of the value. -/
def typeRef (c : Catalog) (v : Json) (parts : DecoderParts) : (steps : Nat) → Decoder
  | _, .primitive p, path => primitive p v path
  | _, .literal l, path => literal l v path
  | _, .array t, path => array v parts.items t path
  | _, .map t, path => map v parts.members t path
  | 0, .named name, path => .error (.unknownType path name)
  | steps + 1, .named name, path =>
    match c.get? name with
    | none => .error (.unknownType path name)
    | some e =>
      match e.type with
      | .record declared => record e.name declared v parts.members path
      | .enumeration values _ => enumeration e.name values v path
      | .array t => array v parts.items t path
      | .alias t => typeRef c v parts steps t path
      | .union discriminant variants => do
        let (index, variant, tag) ← selectVariant e.name discriminant variants v path
        return .union e.name tag index (← typeRef c v parts steps variant.type path)

mutual

/-- The decoder of a value: going into a part of the value starts the count of names anew. -/
def value (c : Catalog) : Json → Decoder
  | .array items => typeRef c (.array items) { items := itemDecoders c items } (c.size + 1)
  | .object members =>
    typeRef c (.object members) { members := memberDecoders c members } (c.size + 1)
  | .null => typeRef c .null {} (c.size + 1)
  | .bool b => typeRef c (.bool b) {} (c.size + 1)
  | .number n => typeRef c (.number n) {} (c.size + 1)
  | .string s => typeRef c (.string s) {} (c.size + 1)

def itemDecoders (c : Catalog) : List Json → List Decoder
  | [] => []
  | v :: rest => value c v :: itemDecoders c rest

def memberDecoders (c : Catalog) : List (String × Json) → List (String × Decoder)
  | [] => []
  | (k, v) :: rest => (k, value c v) :: memberDecoders c rest

end

end Decode

/-- Reads a value as the type of a name. -/
def Catalog.decode (c : Catalog) (name : String) (v : Json) : Except DecodeError Data :=
  Decode.value c v (.named name) []

end TypedArchive
