import TypedArchive.Binding.Data
import TypedArchive.Binding.Error
import TypedArchive.Catalog.Basic
import TypedArchive.Json.Printer

/-! Writing a value as a type of the catalog. What is written is the value's JSON; the type only
decides whether it may be written. -/

namespace TypedArchive

/-- How one value is written as each type, at each path. -/
abbrev Encoder := TypeRef → FieldPath → Except EncodeError Json

/-- The encoders of the values inside a value; the payload is that of a union. -/
structure EncoderParts where
  items : List Encoder := []
  entries : Assoc Encoder := []
  payload : Option Encoder := none

namespace Encode

def fail {α : Type} (path : FieldPath) (e : Expectation) : Except EncodeError α :=
  .error ⟨path, e⟩

def wrongKind {α : Type} (expected : String) (d : Data) (path : FieldPath) :
    Except EncodeError α :=
  fail path (.kind expected d.kind)

/-- Whether untyped JSON is of a primitive's kind. -/
def isOfKind (p : Primitive) (v : Json) : Bool :=
  match Literal.ofJson? v, v with
  | some l, _ => l.primitive == p
  | none, .number _ => p == .number
  | none, _ => false

def primitive (p : Primitive) (d : Data) (path : FieldPath) : Except EncodeError Json :=
  match p, d with
  | .any, d => .ok d.toJson
  | .string, .string s => .ok (.string s)
  | .integer, .integer i => .ok (.ofInt64 i)
  | .number, .number n => .ok (.number n)
  | .number, .integer i => .ok (.ofInt64 i)
  | .boolean, .boolean b => .ok (.bool b)
  | .null, .null => .ok .null
  | p, .unknown v => if isOfKind p v then .ok v else wrongKind p.word (.unknown v) path
  | p, d => wrongKind p.word d path

def literal (l : Literal) (d : Data) (path : FieldPath) : Except EncodeError Json := do
  let v ← primitive l.primitive d path
  if l.accepts v then return v else fail path (.literal l.text v.render)

def enumeration (typeName : String) (values : List Literal) (d : Data) (path : FieldPath) :
    Except EncodeError Json :=
  match d with
  | .enumeration _ l =>
    if l ∈ values then .ok l.toJson else fail path (.enumMember l.text typeName)
  | d => wrongKind typeName d path

def array (d : Data) (items : List Encoder) (t : TypeRef) (path : FieldPath) :
    Except EncodeError Json :=
  match d with
  | .array _ => .array <$> items.zipIdx.mapM fun (item, i) => item t (path.pushIndex i)
  | d => wrongKind "array" d path

def map (d : Data) (entries : Assoc Encoder) (t : TypeRef) (path : FieldPath) :
    Except EncodeError Json :=
  match d with
  | .map _ =>
    .object <$> entries.mapM fun (key, entry) => do return (key, ← entry t (path.pushKey key))
  | d => wrongKind "map" d path

/-- Writes the declared members over the unknown ones, in field order. -/
def fields (entries : Assoc Encoder) (declared : List Field) (path : FieldPath)
    (extra : Assoc Json) : Except EncodeError (Assoc Json) :=
  declared.foldlM (fun written f =>
    match entries.get? f.name with
    | some entry => do return written.insert f.name (← entry f.type (path.pushKey f.name))
    | none =>
      if f.optional then .ok written else fail (path.pushKey f.name) .requiredField) extra

def record (typeName : String) (declared : List Field) (d : Data) (entries : Assoc Encoder)
    (path : FieldPath) : Except EncodeError Json :=
  match d with
  | .record name present extra =>
    if name ≠ typeName then fail path (.recordType typeName name)
    else match present.find? fun p => !declared.any fun f => f.name == p.1 with
      | some (unknown, _) => fail path (.declaredField unknown typeName)
      | none => .object <$> fields entries declared path extra
  | d => wrongKind typeName d path

/-- The only variant whose type leads through aliases to the entry of a name. -/
def variantNamed? (c : Catalog) (variants : List Variant) (name : String) : Option Nat :=
  match variants.zipIdx.filter fun p =>
      ((p.1.type.asNamed?.bind c.resolveAlias).map Entry.name) == some name with
  | [(_, index)] => some index
  | _ => none

/-- Writes a value whose parts have encoders. `steps` bounds the names entered without going into a
part of the value. A record or enum without its union counts as the variant that names its
type. -/
def typeRef (c : Catalog) (d : Data) (parts : EncoderParts) : (steps : Nat) → Encoder
  | _, .primitive p, path => primitive p d path
  | _, .literal l, path => literal l d path
  | _, .array t, path => array d parts.items t path
  | _, .map t, path => map d parts.entries t path
  | 0, .named name, path => fail path (.unknownType name)
  | steps + 1, .named name, path =>
    match c.get? name with
    | none => fail path (.unknownType name)
    | some e =>
      match e.type with
      | .record declared => record e.name declared d parts.entries path
      | .enumeration values _ => enumeration e.name values d path
      | .array t => array d parts.items t path
      | .alias t => typeRef c d parts steps t path
      | .union _ variants =>
        match d, parts.payload with
        | .union _ _ index _, some payload =>
          match variants[index]? with
          | some variant => payload variant.type path
          | none => fail path (.variant e.name index)
        | d, _ =>
          match d.typeName?.bind (variantNamed? c variants) with
          | none => wrongKind e.name d path
          | some index =>
            match variants[index]? with
            | some variant => typeRef c d parts steps variant.type path
            | none => fail path (.variant e.name index)

mutual

/-- The encoder of a value: going into a part of the value starts the count of names anew. -/
def value (c : Catalog) : Data → Encoder
  | .array items => typeRef c (.array items) { items := itemEncoders c items } (c.size + 1)
  | .map entries => typeRef c (.map entries) { entries := entryEncoders c entries } (c.size + 1)
  | .record typeName fields extra =>
    typeRef c (.record typeName fields extra) { entries := entryEncoders c fields } (c.size + 1)
  | .union typeName tag variant payload =>
    typeRef c (.union typeName tag variant payload) { payload := some (value c payload) }
      (c.size + 1)
  | .null => typeRef c .null {} (c.size + 1)
  | .boolean b => typeRef c (.boolean b) {} (c.size + 1)
  | .integer i => typeRef c (.integer i) {} (c.size + 1)
  | .number n => typeRef c (.number n) {} (c.size + 1)
  | .string s => typeRef c (.string s) {} (c.size + 1)
  | .enumeration typeName l => typeRef c (.enumeration typeName l) {} (c.size + 1)
  | .unknown v => typeRef c (.unknown v) {} (c.size + 1)

def itemEncoders (c : Catalog) : List Data → List Encoder
  | [] => []
  | d :: rest => value c d :: itemEncoders c rest

def entryEncoders (c : Catalog) : List (String × Data) → List (String × Encoder)
  | [] => []
  | (k, d) :: rest => (k, value c d) :: entryEncoders c rest

end

end Encode

/-- Writes a value as the type of a name. -/
def Catalog.encode (c : Catalog) (name : String) (d : Data) : Except EncodeError Json :=
  Encode.value c d (.named name) []

end TypedArchive
