import TypedArchive.Catalog.Basic

/-! The JSON form of a catalog. Members that are absent, or empty descriptions, are left out when
writing; when reading, unknown members are ignored. -/

namespace TypedArchive

/-- A member that is left out when there is no value. -/
def Json.member? (key : String) (value : Option Json) : List (String × Json) :=
  (value.map fun v => (key, v)).toList

/-- The items of an array, each read by `item`. -/
def Json.readItems? {α : Type} (item : Json → Option α) : Json → Option (List α)
  | .array vs => vs.mapM item
  | _ => none

/-- An optional member: absent and null are the same. -/
def Json.readOption? {α : Type} (item : Json → Option α) : Option Json → Option (Option α)
  | none | some .null => some none
  | some v => (item v).map some

namespace TypeRef

def toJson : TypeRef → Json
  | .named name => .object [("kind", .string "named"), ("of", .string name)]
  | .primitive p => .object [("kind", .string "primitive"), ("of", .string p.word)]
  | .literal l => .object [("kind", .string "literal"), ("of", l.toJson)]
  | .array t => .object [("kind", .string "array"), ("of", t.toJson)]
  | .map t => .object [("kind", .string "map"), ("of", t.toJson)]

/-- Reads an expression that has at most `depth` levels. -/
def ofJsonWithin? : (depth : Nat) → Json → Option TypeRef
  | 0, _ => none
  | depth + 1, v => do
    let kind ← (← v.get? "kind").asString?
    let content ← v.get? "of"
    match kind with
    | "named" => content.asString?.map .named
    | "primitive" => (content.asString?.bind Primitive.ofWord?).map .primitive
    | "literal" => (Literal.ofJson? content).map .literal
    | "array" => (ofJsonWithin? depth content).map .array
    | "map" => (ofJsonWithin? depth content).map .map
    | _ => none

end TypeRef

mutual

/-- The number of values nested inside one another. -/
def Json.depth : Json → Nat
  | .array items => itemsDepth items + 1
  | .object members => membersDepth members + 1
  | _ => 1

def Json.itemsDepth : List Json → Nat
  | [] => 0
  | v :: rest => max v.depth (itemsDepth rest)

def Json.membersDepth : List (String × Json) → Nat
  | [] => 0
  | (_, v) :: rest => max v.depth (membersDepth rest)

end

def TypeRef.ofJson? (v : Json) : Option TypeRef := ofJsonWithin? v.depth v

namespace Shape

def word : Shape → String
  | .object _ => "object"
  | .array => "array"
  | .string => "string"
  | .integer => "integer"
  | .number => "number"
  | .boolean => "boolean"
  | .null => "null"
  | .any => "any"

def toJson : Shape → Json
  | .object required =>
    .object [("kind", .string "object"), ("required", .array (required.map .string))]
  | s => .object [("kind", .string s.word)]

def ofJson? (v : Json) : Option Shape := do
  let kind ← (← v.get? "kind").asString?
  if kind = "object" then
    let required ← Json.readItems? Json.asString? (← v.get? "required")
    return .object (Assoc.keys (Assoc.ofList (required.map fun k => (k, ()))))
  else
    [array, string, integer, number, boolean, null, any].find? fun s => s.word == kind

end Shape

def Json.asBool? : Json → Option Bool
  | .bool b => some b
  | _ => none

namespace Field

def toJson (f : Field) : Json :=
  .object ([("name", .string f.name), ("ty", f.type.toJson), ("optional", .bool f.optional)]
    ++ Json.member? "description" (f.description.map .string))

def ofJson? (v : Json) : Option Field := do
  return {
    name := ← (← v.get? "name").asString?
    type := ← TypeRef.ofJson? (← v.get? "ty")
    optional := ← (← v.get? "optional").asBool?
    description := ← Json.readOption? Json.asString? (v.get? "description") }

end Field

namespace Variant

def toJson (u : Variant) : Json :=
  .object (Json.member? "tag" (u.tag.map Literal.toJson)
    ++ [("ty", u.type.toJson), ("shape", u.shape.toJson)])

/-- A tag that is written as null reads as no tag. -/
def ofJson? (v : Json) : Option Variant := do
  return {
    tag := ← Json.readOption? Literal.ofJson? (v.get? "tag")
    type := ← TypeRef.ofJson? (← v.get? "ty")
    shape := ← Shape.ofJson? (← v.get? "shape") }

end Variant

namespace TypeDef

def toJson : TypeDef → Json
  | .record fields =>
    .object [("kind", .string "record"), ("fields", .array (fields.map Field.toJson))]
  | .enumeration values descriptions =>
    .object ([("kind", .string "enum"), ("values", .array (values.map Literal.toJson))]
      ++ Json.member? "descriptions"
        (if descriptions.isEmpty then none else some (.array (descriptions.map .string))))
  | .union discriminant variants =>
    .object ([("kind", .string "union")] ++ Json.member? "discriminant" (discriminant.map .string)
      ++ [("variants", .array (variants.map Variant.toJson))])
  | .array t => .object [("kind", .string "array"), ("element", t.toJson)]
  | .alias t => .object [("kind", .string "alias"), ("target", t.toJson)]

def ofJson? (v : Json) : Option TypeDef := do
  let kind ← (← v.get? "kind").asString?
  match kind with
  | "record" => return .record (← Json.readItems? Field.ofJson? (← v.get? "fields"))
  | "enum" =>
    let values ← Json.readItems? Literal.ofJson? (← v.get? "values")
    match v.get? "descriptions" with
    | none => return .enumeration values []
    | some d => return .enumeration values (← Json.readItems? Json.asString? d)
  | "union" =>
    let discriminant ← Json.readOption? Json.asString? (v.get? "discriminant")
    return .union discriminant (← Json.readItems? Variant.ofJson? (← v.get? "variants"))
  | "array" => return .array (← TypeRef.ofJson? (← v.get? "element"))
  | "alias" => return .alias (← TypeRef.ofJson? (← v.get? "target"))
  | _ => none

end TypeDef

namespace Entry

def toJson (e : Entry) : Json :=
  .object ([("name", .string e.name), ("origin", .string e.origin)]
    ++ Json.member? "description" (e.description.map .string) ++ [("ty", e.type.toJson)])

def ofJson? (v : Json) : Option Entry := do
  return {
    name := ← (← v.get? "name").asString?
    origin := ← (← v.get? "origin").asString?
    description := ← Json.readOption? Json.asString? (v.get? "description")
    type := ← TypeDef.ofJson? (← v.get? "ty") }

end Entry

namespace Catalog

def toJson (c : Catalog) : Json := .object (c.entries.map fun p => (p.1, p.2.toJson))

def ofJson? : Json → Option Catalog
  | .object members => do
    return ⟨← members.mapM fun p => do return (p.1, ← Entry.ofJson? p.2)⟩
  | _ => none

end Catalog

end TypedArchive
