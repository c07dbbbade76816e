import TypedArchive.Catalog.Basic

/-! What emitted bindings consist of: the type of each position, and the steps by which an emitted
type reads JSON. -/

namespace TypedArchive

/-- The types of emitted bindings. -/
inductive EmittedType where
  | string | integer | number | boolean | unit | json
  /-- An emitted type of that catalog name. -/
  | named (name : String)
  | boxed (t : EmittedType)
  | list (t : EmittedType)
  | map (t : EmittedType)
  deriving DecidableEq, Repr

namespace EmittedType

def ofPrimitive : Primitive → EmittedType
  | .string => .string
  | .integer => .integer
  | .number => .number
  | .boolean => .boolean
  | .null => .unit
  | .any => .json

/-- The emitted type of an expression; a literal is held as its primitive. -/
def ofRef : TypeRef → EmittedType
  | .named name => .named name
  | .primitive p => ofPrimitive p
  | .literal l => ofPrimitive l.primitive
  | .array t => .list (ofRef t)
  | .map t => .map (ofRef t)

/-- The emitted type of a field: boxed when its type leads back to the record. -/
def ofField (c : Catalog) (owner : String) (t : TypeRef) : EmittedType :=
  match t with
  | .named name =>
    if name = owner ∨ c.reaches name owner then .boxed (ofRef t) else ofRef t
  | t => ofRef t

end EmittedType

/-- How a record reads one member. -/
structure FieldRead where
  key : String
  optional : Bool
  /-- The literal that the member has to be. -/
  expected : Option Literal
  type : EmittedType
  deriving DecidableEq, Repr

/-- How an emitted type reads JSON. -/
inductive DecodePlan where
  | record (reads : List FieldRead)
  /-- An enum of texts compares texts. -/
  | textEnum (values : List String)
  /-- Any other enum compares JSON values. -/
  | literalEnum (values : List Literal)
  /-- Variants in the order of the tests on the discriminant; one without a tag is never tested. -/
  | tagged (discriminant : String) (variants : List (Option Literal × EmittedType))
  /-- Variants in the order of the tests on the shape. -/
  | shaped (variants : List (Shape × EmittedType))
  /-- Another spelling of a type. -/
  | same (t : EmittedType)
  deriving DecidableEq, Repr

/-- The texts of an enum that has no other members. -/
def enumTexts? (values : List Literal) : Option (List String) := values.mapM Literal.asString?

/-- How the emitted type of a record reads a field. -/
def Catalog.fieldRead (c : Catalog) (owner : String) (f : Field) : FieldRead :=
  { key := f.name
    optional := f.optional
    expected := match f.type with
      | .literal l => some l
      | _ => none
    type := EmittedType.ofField c owner f.type }

/-- How the emitted type of an entry reads JSON. -/
def Catalog.plan (c : Catalog) (e : Entry) : DecodePlan :=
  match e.type with
  | .record fields => .record (fields.map (c.fieldRead e.name))
  | .enumeration values _ =>
    match enumTexts? values with
    | some texts => .textEnum texts
    | none => .literalEnum values
  | .union (some discriminant) variants =>
    .tagged discriminant (variants.map fun v => (v.tag, .ofRef v.type))
  | .union none variants => .shaped (variants.map fun v => (v.shape, .ofRef v.type))
  | .array t => .same (.list (.ofRef t))
  | .alias t => .same (.ofRef t)

/-- The plans of all entries by name. -/
def Catalog.plans (c : Catalog) : Assoc DecodePlan :=
  c.entries.map fun p => (p.1, c.plan p.2)

end TypedArchive
