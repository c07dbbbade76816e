import TypedArchive.Emit.Body

/-! What emitted types write: their serializers, derived by the attributes of the members or
implemented by a body, work on what the body that reads the type has made. -/

namespace TypedArchive.Emit

/-- What a serializer is called on. Members and payloads are given as they are written. -/
inductive Held where
  /-- The members of a struct by name, some of them absent, and the pairs of the overflow. -/
  | struct (members : List (String × Option Json)) (overflow : Assoc Json)
  | unit (variant : String)
  | payload (variant : String) (v : Json)
  deriving Repr

/-- The keys for the serializer among attributes. -/
def serdeKeys (attributes : List Attribute) : List (String × Option String) :=
  attributes.flatMap fun
    | .serde keys => keys
    | _ => []

/-- The name under which a member or a variant is written. -/
def writtenName (attributes : List Attribute) (name : String) : String :=
  ((serdeKeys attributes).lookup "rename").join.getD name

def derivesSerialize (attributes : List Attribute) : Bool :=
  attributes.any fun
    | .derive traits => traits.contains (.of ["serde", "Serialize"])
    | _ => false

/-- The pairs that a member of a struct comes to. -/
def FieldItem.written (f : FieldItem) (members : List (String × Option Json))
    (overflow : Assoc Json) : Option (List (String × Json)) :=
  let keys := serdeKeys f.attributes
  if (keys.lookup "flatten").isSome then some overflow
  else do
    match ← members.lookup f.name with
    | some v => return [(writtenName f.attributes f.name, v)]
    | none =>
      if keys.lookup "skip_serializing_if" = some (some "Option::is_none") then return []
      else return [(writtenName f.attributes f.name, .null)]

namespace Item

/-- What the derived serializer of an item writes. -/
def derived (self : Held) : Item → Option Json
  | .struct attributes _ fields =>
    match derivesSerialize attributes, self with
    | true, .struct members overflow => do
      let pairs ← fields.mapM fun f => f.written members overflow
      return .object (Assoc.ofList pairs.flatten)
    | _, _ => none
  | .enumeration attributes _ variants =>
    match derivesSerialize attributes, self with
    | true, .unit variant => do
      let item ← variants.find? fun w => w.name == variant
      return .string (writtenName item.attributes item.name)
    | _, _ => none
  | _ => none

/-- The body of a function in an implementation. -/
def body? (function : String) : Item → Option (List Statement)
  | .implementation _ _ _ members => members.findSome? fun
    | .function f => if f.name = function then some f.body else none
    | .constant .. => none
  | _ => none

/-- The names of the members or variants that an item declares. -/
def declared : Item → List String
  | .struct _ _ fields => fields.map fun f => f.name
  | .enumeration _ _ variants => variants.map fun w => w.name
  | _ => []

end Item

def bodyOf? (items : List Item) (function : String) : Option (List Statement) :=
  items.findSome? fun item => item.body? function

/-- The serializer that another one hands a value on to. -/
def serializePath : CodePath := .of ["serde", "Serialize", "serialize"]

/-- The JSON that a function gives for a variant. -/
def armValue (variant : String) : List Statement → Option Json
  | [.result (.choice _ arms)] => do
    match (← arms.lookup (.path (selfVariant variant))).eval [] with
    | some (.json v) => some v
    | _ => none
  | _ => none

/-- What the body of a serializer writes: the value of the variant, or the payload that an arm
names. -/
def implemented (items : List Item) (self : Held) : Expr → Option Json
  | .call (.path p) [.borrow (.method _ function []), _] =>
    match self with
    | .unit variant =>
      if p = serializePath then do armValue variant (← bodyOf? items function) else none
    | _ => none
  | .choice _ arms =>
    match self with
    | .payload variant v => arms.findSome? fun
      | (.payload p inner, .call (.path q) [.path x, _]) =>
        if p = selfVariant variant ∧ q = serializePath ∧ x = .of [inner] then some v else none
      | _ => none
    | _ => none
  | _ => none

/-- What the items of an entry write. -/
def serialize (items : List Item) (self : Held) : Option Json :=
  match bodyOf? items "serialize" with
  | some [.result e] => implemented items self e
  | some _ => none
  | none => items.findSome? fun item => item.derived self

/-- The variant that an expression makes. -/
def madeVariant : Expr → Option String
  | .call (.path ok) [.path p] =>
    if ok = .of ["Ok"] then
      match p.steps with
      | [self, variant] => if self.name = "Self" then some variant.name else none
      | _ => none
    else none
  | _ => none

/-- The variant that a literal is read as. -/
def variantOf (runtime : CodePath) (items : List Item) (l : Literal) : Option String := do
  match ← runBody runtime (bodyScope l.toJson []) (← bodyOf? items "decode_at") with
  | .ok e => madeVariant e
  | .error _ => none

/-- The variants that the items of an entry declare. -/
def declaredVariants (items : List Item) : List VariantItem :=
  (items.findSome? fun
    | .enumeration _ _ variants => some variants
    | _ => none).getD []

/-- The members that the body of a record reads, in order. -/
def readMembers (items : List Item) : Option (List String) := do
  match ← bodyOf? items "decode_at" with
  | [_, .result (.call _ [.record _ fields])] => return fields.filterMap fun
    | (member, .orReturn _) => some member
    | _ => none
  | _ => none

end TypedArchive.Emit

namespace TypedArchive

open Emit

/-- How a value is written as each emitted type. -/
abbrev Writer := EmittedType → Option Json

/-- The writers of the values inside a value. -/
structure WriterParts where
  items : List Writer := []
  entries : List (String × Writer) := []
  /-- Of the members of a record in the order in which they are read. -/
  members : List (Option Writer) := []
  payload : Option Writer := none

namespace Writer

/-- What the type of an entry holds in place of a value. -/
def held (runtime : CodePath) (items : List Item) (plan : DecodePlan) (x : EmittedValue)
    (parts : WriterParts) : Option Held :=
  match plan, x with
  | .record reads, .record _ overflow => do
    let written ← (reads.zip parts.members).mapM fun (read, member) =>
      match member with
      | some write => (write read.type).map some
      | none => some none
    return .struct ((← readMembers items).zip written) overflow
  | .textEnum _, .member l | .literalEnum _, .member l => (variantOf runtime items l).map .unit
  | .tagged _ variants, .variant index _ => do
    let (_, t) ← variants[index]?
    return .payload (← (declaredVariants items)[index]?).name (← (← parts.payload) t)
  | .shaped variants, .variant index _ => do
    let (_, t) ← variants[index]?
    return .payload (← (declaredVariants items)[index]?).name (← (← parts.payload) t)
  | _, _ => none

/-- Writes a value as a type, given how it is written as each named type. -/
def atType (atName : String → Option Json) (x : EmittedValue) (parts : WriterParts) : Writer
  | .string => match x with
    | .string s => some (.string s)
    | _ => none
  | .integer => match x with
    | .integer i => some (.ofInt64 i)
    | _ => none
  | .number => match x with
    | .number n => some (.number n)
    | _ => none
  | .boolean => match x with
    | .boolean b => some (.bool b)
    | _ => none
  | .unit => match x with
    | .unit => some .null
    | _ => none
  | .json => match x with
    | .json v => some v
    | _ => none
  | .boxed t => atType atName x parts t
  | .list t => match x with
    | .list _ => do return .array (← parts.items.mapM fun write => write t)
    | _ => none
  | .map t => match x with
    | .map _ => do
      return .object (Assoc.ofList (← parts.entries.mapM fun p => do return (p.1, ← p.2 t)))
    | _ => none
  | .named name => atName name

/-- Writes a value as the type of a name, by the items of its entry. `steps` bounds the names
entered without going into a part of the value. -/
def atName (c : Catalog) (runtime : CodePath) (x : EmittedValue) (parts : WriterParts) :
    (steps : Nat) → String → Option Json
  | 0, _ => none
  | steps + 1, name => do
    let e ← c.get? name
    match c.plan e with
    | .same t => atType (atName c runtime x parts steps) x parts t
    | plan =>
      let items ← (c.items runtime e).toOption
      serialize items (← held runtime items plan x parts)

/-- Writes a value whose parts have writers. -/
def write (c : Catalog) (runtime : CodePath) (x : EmittedValue) (parts : WriterParts) : Writer :=
  atType (atName c runtime x parts (c.size + 1)) x parts

mutual

/-- The writer of a value. -/
def value (c : Catalog) (runtime : CodePath) : EmittedValue → Writer
  | .list items => write c runtime (.list items) { items := itemWriters c runtime items }
  | .map entries => write c runtime (.map entries) { entries := entryWriters c runtime entries }
  | .record fields extra =>
    write c runtime (.record fields extra) { members := memberWriters c runtime fields }
  | .variant index payload =>
    write c runtime (.variant index payload) { payload := some (value c runtime payload) }
  | .string s => write c runtime (.string s) {}
  | .integer i => write c runtime (.integer i) {}
  | .number n => write c runtime (.number n) {}
  | .boolean b => write c runtime (.boolean b) {}
  | .unit => write c runtime .unit {}
  | .json v => write c runtime (.json v) {}
  | .member l => write c runtime (.member l) {}

def itemWriters (c : Catalog) (runtime : CodePath) : List EmittedValue → List Writer
  | [] => []
  | x :: rest => value c runtime x :: itemWriters c runtime rest

def entryWriters (c : Catalog) (runtime : CodePath) :
    List (String × EmittedValue) → List (String × Writer)
  | [] => []
  | (k, x) :: rest => (k, value c runtime x) :: entryWriters c runtime rest

def memberWriters (c : Catalog) (runtime : CodePath) :
    List (String × Option EmittedValue) → List (Option Writer)
  | [] => []
  | (_, some x) :: rest => some (value c runtime x) :: memberWriters c runtime rest
  | (_, none) :: rest => none :: memberWriters c runtime rest

end

end Writer

/-- Writes a value as an emitted type. -/
def EmittedType.encode (c : Catalog) (runtime : CodePath) (t : EmittedType) (x : EmittedValue) :
    Option Json :=
  Writer.value c runtime x t

/-- The members of each struct and the variants of each enum have names of their own. -/
def Catalog.unclashed (c : Catalog) (runtime : CodePath) : Bool :=
  c.entries.values.all fun e =>
    match c.items runtime e with
    | .ok items => items.all fun item => decide item.declared.Nodup
    | .error _ => true

end TypedArchive
