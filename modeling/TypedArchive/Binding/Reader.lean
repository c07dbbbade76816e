import TypedArchive.Binding.Error
import TypedArchive.Emit.Plan
import TypedArchive.Json.Printer

/-! How emitted bindings read and write JSON. Reading moves along one path; a failure inside a list
or a map leaves the path there, and a record steps back by one place. -/

namespace TypedArchive

/-- A value of an emitted type. -/
inductive EmittedValue where
  | string (s : String)
  | integer (i : Int64)
  | number (n : Number)
  | boolean (b : Bool)
  | unit
  | json (v : Json)
  | list (items : List EmittedValue)
  | map (entries : List (String × EmittedValue))
  /-- The declared members by key, and all others. -/
  | record (fields : List (String × Option EmittedValue)) (extra : List (String × Json))
  | member (l : Literal)
  | variant (index : Nat) (payload : EmittedValue)
  deriving Repr

/-- An error, and where the path stands afterwards. -/
abbrev ReadResult (α : Type) := Except (DecodeError × FieldPath) α

/-- How one JSON value reads as each emitted type, from each path. -/
abbrev EmittedReader := EmittedType → FieldPath → ReadResult EmittedValue

namespace EmittedValue

mutual

def toJson : EmittedValue → Json
  | .string s => .string s
  | .integer i => .ofInt64 i
  | .number n => .number n
  | .boolean b => .bool b
  | .unit => .null
  | .json v => v
  | .list items => .array (itemsToJson items)
  | .map entries => .object (entriesToJson entries)
  | .record fields extra => .object (Assoc.ofList (fieldsToJson fields ++ extra))
  | .member l => l.toJson
  | .variant _ payload => payload.toJson

def itemsToJson : List EmittedValue → List Json
  | [] => []
  | x :: rest => x.toJson :: itemsToJson rest

def entriesToJson : List (String × EmittedValue) → List (String × Json)
  | [] => []
  | (k, x) :: rest => (k, x.toJson) :: entriesToJson rest

/-- An absent member is left out. -/
def fieldsToJson : List (String × Option EmittedValue) → List (String × Json)
  | [] => []
  | (k, some x) :: rest => (k, x.toJson) :: fieldsToJson rest
  | (_, none) :: rest => fieldsToJson rest

end

end EmittedValue

namespace Reader

def mismatch {α : Type} (expected : String) (v : Json) (path : FieldPath) : ReadResult α :=
  .error (.typeMismatch path expected v.kind, path)

def string (v : Json) (path : FieldPath) : ReadResult String :=
  match v with
  | .string s => .ok s
  | v => mismatch "string" v path

def integer (v : Json) (path : FieldPath) : ReadResult Int64 :=
  match v with
  | .number n =>
    match n.toInt64? with
    | some i => .ok i
    | none => mismatch "integer" v path
  | v => mismatch "integer" v path

def number (v : Json) (path : FieldPath) : ReadResult Number :=
  match v with
  | .number n => .ok n
  | v => mismatch "number" v path

def boolean (v : Json) (path : FieldPath) : ReadResult Bool :=
  match v with
  | .bool b => .ok b
  | v => mismatch "boolean" v path

def unit (v : Json) (path : FieldPath) : ReadResult Unit :=
  match v with
  | .null => .ok ()
  | v => mismatch "null" v path

def list (v : Json) (items : List EmittedReader) (t : EmittedType) (path : FieldPath) :
    ReadResult EmittedValue :=
  match v with
  | .array _ => .list <$> items.zipIdx.mapM fun (item, i) => item t (path.pushIndex i)
  | v => mismatch "array" v path

def map (v : Json) (members : Assoc EmittedReader) (t : EmittedType) (path : FieldPath) :
    ReadResult EmittedValue :=
  match v with
  | .object _ =>
    .map <$> members.mapM fun (key, member) => do return (key, ← member t (path.pushKey key))
  | v => mismatch "object" v path

/-- The value of a union's discriminant. -/
def unionTag (v : Json) (discriminant : String) (path : FieldPath) : Except DecodeError Json :=
  match v with
  | .object members =>
    match members.lookup discriminant with
    | some tag => .ok tag
    | none => .error (.missingField (path.pushKey discriminant))
  | v => .error (.typeMismatch path "object" v.kind)

end Reader

/-- A record being read member by member. -/
structure RecordReader where
  members : Assoc (Json × EmittedReader)
  path : FieldPath
  /-- The keys asked for so far. -/
  declared : List String := []

namespace RecordReader

/-- Reads a member that has to be there. -/
def required (r : RecordReader) (key : String) (t : EmittedType) :
    Except DecodeError EmittedValue × RecordReader :=
  let r := { r with declared := key :: r.declared }
  match r.members.get? key with
  | none => (.error (.missingField (r.path.pushKey key)), r)
  | some (_, reader) =>
    match reader t (r.path.pushKey key) with
    | .ok x => (.ok x, r)
    | .error (e, path) => (.error e, { r with path := path.pop })

/-- Reads a member that may be absent. -/
def optional (r : RecordReader) (key : String) (t : EmittedType) :
    Except DecodeError (Option EmittedValue) × RecordReader :=
  if r.members.contains key then
    let (result, r) := r.required key t
    (result.map some, r)
  else (.ok none, { r with declared := key :: r.declared })

/-- Whether a member, if present, is the value expected of it. -/
def checkLiteral (r : RecordReader) (key : String) (expected : Json) : Except DecodeError Unit :=
  match r.members.get? key with
  | none => .ok ()
  | some (v, _) =>
    if v.same expected then .ok ()
    else .error (.typeMismatch (r.path.pushKey key) ("literal " ++ expected.render) v.kind)

/-- Reads a member that has to be there and to be one value; another value leaves the key
unasked. -/
def requiredLiteral (r : RecordReader) (key : String) (expected : Json) (t : EmittedType) :
    Except DecodeError EmittedValue × RecordReader :=
  match r.checkLiteral key expected with
  | .ok () => r.required key t
  | .error e => (.error e, r)

/-- Reads a member that may be absent and else has to be one value. -/
def optionalLiteral (r : RecordReader) (key : String) (expected : Json) (t : EmittedType) :
    Except DecodeError (Option EmittedValue) × RecordReader :=
  match r.checkLiteral key expected with
  | .ok () => r.optional key t
  | .error e => (.error e, r)

/-- The members that were not asked for. -/
def finish (r : RecordReader) : Assoc Json :=
  (r.members.filter fun p => !r.declared.contains p.1).map fun p => (p.1, p.2.1)

/-- Reads a member as its plan says. -/
def read (r : RecordReader) (f : FieldRead) :
    Except DecodeError (Option EmittedValue) × RecordReader :=
  match f.optional, f.expected with
  | false, none => let (x, r) := r.required f.key f.type; (x.map some, r)
  | true, none => r.optional f.key f.type
  | false, some l => let (x, r) := r.requiredLiteral f.key l.toJson f.type; (x.map some, r)
  | true, some l => r.optionalLiteral f.key l.toJson f.type

/-- Reads the members of a record in order. -/
def readAll (r : RecordReader) : List FieldRead → ReadResult EmittedValue
  | reads => (go r reads []).map fun (fields, r) => .record fields r.finish
where
  go (r : RecordReader) : List FieldRead → List (String × Option EmittedValue) →
      ReadResult (List (String × Option EmittedValue) × RecordReader)
    | [], fields => .ok (fields, r)
    | f :: rest, fields =>
      match r.read f with
      | (.ok x, r) => go r rest (fields ++ [(f.key, x)])
      | (.error e, r) => .error (e, r.path)

end RecordReader

/-- The readers of the values inside a value. -/
structure ReaderParts where
  items : List EmittedReader := []
  members : Assoc (Json × EmittedReader) := []

namespace Reader

/-- The variant that the tests of a union select, tag by tag or shape by shape. -/
def selectTagged (typeName discriminant : String) (variants : List (Option Literal × EmittedType))
    (v : Json) (path : FieldPath) : Except DecodeError (Nat × EmittedType) := do
  let tag ← unionTag v discriminant path
  match variants.zipIdx.find? fun p => p.1.1.any fun l => tag.same l.toJson with
  | some ((_, t), index) => return (index, t)
  | none => throw (.unknownTag path typeName discriminant tag.render)

def selectShaped (typeName : String) (variants : List (Shape × EmittedType)) (v : Json)
    (path : FieldPath) : Except DecodeError (Nat × EmittedType) :=
  match variants.zipIdx.find? fun p => p.1.1.accepts v with
  | some ((_, t), index) => .ok (index, t)
  | none => .error (.noMatchingVariant path typeName)

/-- Reads a value as a type, given how it reads as each named type. -/
def atType (atName : String → FieldPath → ReadResult EmittedValue) (v : Json)
    (parts : ReaderParts) : EmittedReader
  | .string, path => .string <$> string v path
  | .integer, path => .integer <$> integer v path
  | .number, path => .number <$> number v path
  | .boolean, path => .boolean <$> boolean v path
  | .unit, path => (fun _ => .unit) <$> unit v path
  | .json, _ => .ok (.json v)
  | .boxed t, path => atType atName v parts t path
  | .list t, path => list v parts.items t path
  | .map t, path => map v (parts.members.map fun p => (p.1, p.2.2)) t path
  | .named name, path => atName name path

/-- Reads a value as the type of a name. `steps` bounds the names entered without going into a part
of the value. -/
def atName (plans : Assoc DecodePlan) (v : Json) (parts : ReaderParts) :
    (steps : Nat) → String → FieldPath → ReadResult EmittedValue
  | 0, name, path => .error (.unknownType path name, path)
  | steps + 1, name, path =>
    let variant (selected : Except DecodeError (Nat × EmittedType)) : ReadResult EmittedValue :=
      match selected with
      | .error e => .error (e, path)
      | .ok (index, t) => .variant index <$> atType (atName plans v parts steps) v parts t path
    match plans.get? name with
    | none => .error (.unknownType path name, path)
    | some (.record reads) =>
      match v with
      | .object _ => { members := parts.members, path : RecordReader }.readAll reads
      | v => mismatch "object" v path
    | some (.textEnum values) =>
      match string v path with
      | .error e => .error e
      | .ok s =>
        if s ∈ values then .ok (.member (.string s))
        else .error (.unknownEnumValue path name v.render, path)
    | some (.literalEnum values) =>
      match values.find? fun l => v.same l.toJson with
      | some l => .ok (.member l)
      | none => .error (.unknownEnumValue path name v.render, path)
    | some (.tagged discriminant variants) =>
      variant (selectTagged name discriminant variants v path)
    | some (.shaped variants) => variant (selectShaped name variants v path)
    | some (.same t) => atType (atName plans v parts steps) v parts t path

/-- Reads a value whose parts have readers. -/
def read (plans : Assoc DecodePlan) (v : Json) (parts : ReaderParts) : EmittedReader :=
  atType (atName plans v parts (plans.length + 1)) v parts

mutual

/-- The reader of a value. -/
def value (plans : Assoc DecodePlan) : Json → EmittedReader
  | .array items =>
    read plans (.array items) { items := itemReaders plans items }
  | .object members =>
    read plans (.object members) { members := memberReaders plans members }
  | .null => read plans .null {}
  | .bool b => read plans (.bool b) {}
  | .number n => read plans (.number n) {}
  | .string s => read plans (.string s) {}

def itemReaders (plans : Assoc DecodePlan) : List Json → List EmittedReader
  | [] => []
  | v :: rest => value plans v :: itemReaders plans rest

def memberReaders (plans : Assoc DecodePlan) :
    List (String × Json) → List (String × Json × EmittedReader)
  | [] => []
  | (k, v) :: rest => (k, v, value plans v) :: memberReaders plans rest

end

/-- Starts to read the members of an object. -/
def ofObject (plans : Assoc DecodePlan) (v : Json) (path : FieldPath) :
    Except DecodeError RecordReader :=
  match v with
  | .object members => .ok { members := memberReaders plans members, path }
  | v => .error (.typeMismatch path "object" v.kind)

end Reader

/-- Reads a value as an emitted type. -/
def EmittedType.decode (plans : Assoc DecodePlan) (t : EmittedType) (v : Json)
    (path : FieldPath) : Except DecodeError EmittedValue :=
  (Reader.value plans v t path).mapError Prod.fst

end TypedArchive
