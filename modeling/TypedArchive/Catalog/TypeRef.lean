import TypedArchive.Catalog.Literal

/-! Type expressions: what a field, an element or a variant holds. -/

namespace TypedArchive

inductive TypeRef where
  /-- The catalog entry of that name. -/
  | named (name : String)
  | primitive (p : Primitive)
  /-- Exactly one literal. -/
  | literal (l : Literal)
  | array (element : TypeRef)
  /-- An object with any keys and values of one type. -/
  | map (value : TypeRef)
  deriving DecidableEq, Repr

namespace TypeRef

/-- Unconstrained JSON. -/
abbrev any : TypeRef := .primitive .any

def asNamed? : TypeRef → Option String
  | .named name => some name
  | _ => none

/-- The catalog name mentioned in the expression, if any. -/
def namedRef? : TypeRef → Option String
  | .named name => some name
  | .array t | .map t => t.namedRef?
  | .primitive _ | .literal _ => none

def namedRefs (t : TypeRef) : List String := t.namedRef?.toList

def isAny (t : TypeRef) : Bool := t == .any

def text : TypeRef → String
  | .named name => name
  | .primitive p => p.typeName
  | .literal l => "const " ++ l.text
  | .array t => "[" ++ t.text ++ "]"
  | .map t => "\x7bstring: " ++ t.text ++ "\x7d"

end TypeRef

end TypedArchive
