import TypedArchive.Json.Basic
import TypedArchive.Text.Quoted

/-! Primitive types, and the literals that can be an enum member, a fixed field or a union tag. -/

namespace TypedArchive

inductive Primitive where
  | string | integer | number | boolean | null
  /-- JSON without any constraint. -/
  | any
  deriving DecidableEq, Repr

namespace Primitive

/-- The word for the primitive in schemas and messages. -/
def word : Primitive → String
  | .string => "string"
  | .integer => "integer"
  | .number => "number"
  | .boolean => "boolean"
  | .null => "null"
  | .any => "any"

/-- The name of the primitive as a type. -/
def typeName : Primitive → String
  | .string => "String"
  | .integer => "Integer"
  | .number => "Number"
  | .boolean => "Boolean"
  | .null => "Null"
  | .any => "Any"

def ofWord? (word : String) : Option Primitive :=
  [string, integer, number, boolean, null, any].find? fun p => p.word == word

end Primitive

inductive Literal where
  | boolean (b : Bool)
  | integer (i : Int64)
  | string (s : String)
  | null
  deriving DecidableEq, Repr

namespace Literal

/-- The literal that a value is; containers and doubles are none. -/
def ofJson? : Json → Option Literal
  | .null => some .null
  | .bool b => some (.boolean b)
  | .number n => n.toInt64?.map .integer
  | .string s => some (.string s)
  | _ => none

def toJson : Literal → Json
  | .null => .null
  | .boolean b => .bool b
  | .integer i => .ofInt64 i
  | .string s => .string s

def accepts (l : Literal) (v : Json) : Bool := ofJson? v == some l

def asString? : Literal → Option String
  | .string s => some s
  | _ => none

def primitive : Literal → Primitive
  | .null => .null
  | .boolean _ => .boolean
  | .integer _ => .integer
  | .string _ => .string

def text : Literal → String
  | .null => "null"
  | .boolean b => if b then "true" else "false"
  | .integer i => toString i.toInt
  | .string s => Text.quoted s

@[simp] theorem ofJson?_toJson (l : Literal) : ofJson? l.toJson = some l := by
  cases l <;> simp [toJson, ofJson?, Json.ofInt64]

end Literal

end TypedArchive
