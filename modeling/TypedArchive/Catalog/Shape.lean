import TypedArchive.Json.Basic

/-! Shapes: what tells a union's variants apart when no literal field does. -/

namespace TypedArchive

inductive Shape where
  /-- An object that has the keys, which stand in increasing order. -/
  | object (required : List String)
  | array | string | integer | number | boolean | null | any
  deriving DecidableEq, Repr

namespace Shape

/-- Whether a value has the shape. -/
def accepts : Shape → Json → Bool
  | .any, _ => true
  | .object required, .object members => required.all fun k => Assoc.contains members k
  | .array, .array _ => true
  | .string, .string _ => true
  | .integer, .number n => n.isInteger
  | .number, .number _ => true
  | .boolean, .bool _ => true
  | .null, .null => true
  | _, _ => false

/-- Whether every value of the second shape has the first: then an earlier variant of the first
shape hides a later one of the second. -/
def subsumes : Shape → Shape → Bool
  | .any, _ => true
  | .object a, .object b => a.all fun k => b.contains k
  | .number, .integer => true
  | a, b => a == b

end Shape

end TypedArchive
