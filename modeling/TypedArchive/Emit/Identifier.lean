import TypedArchive.Catalog.Basic
import TypedArchive.Text.Casing

/-! Names of emitted things: identifiers that stand for arbitrary text, and the names of fields and
variants. -/

namespace TypedArchive.Emit

/-- The words that are no plain identifier in emitted code. -/
def reservedWords : List String :=
  ["_", "abstract", "as", "async", "await", "become", "box", "break", "const", "continue", "crate",
   "do", "dyn", "else", "enum", "extern", "false", "final", "fn", "for", "if", "impl", "in", "let",
   "loop", "macro", "match", "mod", "move", "mut", "override", "priv", "pub", "ref", "return",
   "Self", "self", "static", "struct", "super", "trait", "true", "try", "type", "typeof", "unsafe",
   "unsized", "use", "virtual", "where", "while", "yield"]

/-- The reserved words that cannot be written as raw identifiers either. -/
def unmarkableWords : List String := ["_", "self", "Self", "super", "crate"]

/-- The ASCII letters, digits and underscores of a text, with underscores for all else. -/
def identifierText (s : String) : String :=
  let kept := s.toList.map fun c => if c.isAlphanum || c == '_' then c else '_'
  match kept with
  | [] => "unknown"
  | c :: _ => String.ofList (if c.isDigit then '_' :: kept else kept)

/-- The identifier for a text: a reserved word is marked as raw, or else extended. -/
def identifier (s : String) : String :=
  let text := identifierText s
  if text ∈ unmarkableWords then text ++ "_"
  else if text ∈ reservedWords then "r#" ++ text
  else text

/-- The first of the names `name2`, `name3`, … from a number on that is not taken. -/
def firstFree (taken : List String) (name : String) : (tries : Nat) → (number : Nat) → String
  | 0, number => name ++ toString number
  | tries + 1, number =>
    let candidate := name ++ toString number
    if candidate ∈ taken then firstFree taken name tries (number + 1) else candidate

/-- Numbers the names that occurred before; `taken` holds all names given so far. -/
def distinctNames (taken : List String) : List String → List String
  | [] => []
  | name :: rest =>
    let given := if name ∈ taken then firstFree taken name taken.length 2 else name
    given :: distinctNames (given :: taken) rest

/-- The name of the member that holds the keys unknown to the schema. -/
def overflowName : String := "extra_data"

/-- The names of a record's members, in field order. -/
def fieldNames (fields : List Field) : List String :=
  distinctNames [] (fields.map fun f =>
    let name := Text.snakeCase f.name
    if name = overflowName then overflowName ++ "_field" else name)

/-- The name of a variant for a text. -/
def variantName (s : String) : String :=
  let name := Text.pascalCase s
  match name.toList with
  | [] => "Unknown"
  | c :: _ => if c.isDigit then "_" ++ name else name

def literalName : Literal → String
  | .string s => variantName s
  | .integer i =>
    if i.toInt < 0 then "ValueMinus" ++ toString i.toInt.natAbs else "Value" ++ toString i.toInt
  | .boolean b => if b then "True" else "False"
  | .null => "Null"

/-- The names of an enum's variants, from the descriptions if every value has one. -/
def enumNames (values : List Literal) (descriptions : List String) : List String :=
  distinctNames [] (if descriptions.length = values.length then descriptions.map variantName
    else values.map literalName)

/-- The name of a variant that holds a type. -/
def payloadName : TypeRef → String
  | .named name => name
  | .primitive p => p.typeName
  | .literal l => Text.pascalCase (literalName l)
  | .array t => payloadName t ++ "Array"
  | .map t => payloadName t ++ "Map"

/-- The names of a union's variants, in variant order. -/
def unionNames (variants : List Variant) : List String :=
  distinctNames [] (variants.map fun v => payloadName v.type)

end TypedArchive.Emit
