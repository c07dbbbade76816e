import TypedArchive.Binding.Reader
import TypedArchive.Emit.Items

/-! What the emitted bodies that read unions and enums do with a value: tests are made one after the
other, up to the first that returns. -/

namespace TypedArchive

namespace Number

/-- Whether the number is a whole number of the signed 64-bit range. -/
def isInt64 (n : Number) : Bool := n.toInt64?.isSome

/-- Whether the number is a whole number of the unsigned 64-bit range. -/
def isUInt64 : Number → Bool
  | .integer i _ => 0 ≤ i
  | .double _ => false

end Number

namespace Emit

/-- What an expression in a test stands for. A reference stands for what it refers to. -/
inductive Operand where
  | json (v : Json)
  | text (s : String)
  | integer (i : Int64)
  | flag (b : Bool)
  /-- A value as an object, if it is one. -/
  | object (members : Option (Assoc Json))
  | map (members : Assoc Json)
  /-- A path, and the text that shows it. -/
  | place (path : FieldPath)
  deriving Repr

/-- What the names in sight stand for; of two with one name the first counts. -/
abbrev Scope := List (String × Operand)

namespace Operand

/-- A function of one argument. -/
def apply (function : CodePath) (x : Operand) : Option Operand :=
  if function = .of ["serde_json", "Value", "from"] then
    match x with
    | .text s => some (.json (.string s))
    | .integer i => some (.json (.ofInt64 i))
    | _ => none
  else if function = .of ["serde_json", "Value", "Bool"] then
    match x with
    | .flag b => some (.json (.bool b))
    | _ => none
  else if function = .of ["smol_str", "SmolStr", "new_static"] then
    match x with
    | .text s => some (.text s)
    | _ => none
  else none

def isNumber (test : Number → Bool) : Json → Bool
  | .number n => test n
  | _ => false

/-- A method without arguments. -/
def method (x : Operand) (name : String) : Option Operand :=
  match x, name with
  | .json v, "is_object" => some (.flag (v matches .object _))
  | .json v, "is_array" => some (.flag (v matches .array _))
  | .json v, "is_string" => some (.flag (v matches .string _))
  | .json v, "is_boolean" => some (.flag (v matches .bool _))
  | .json v, "is_null" => some (.flag (v matches .null))
  | .json v, "is_number" => some (.flag (isNumber (fun _ => true) v))
  | .json v, "is_i64" => some (.flag (isNumber Number.isInt64 v))
  | .json v, "is_u64" => some (.flag (isNumber Number.isUInt64 v))
  | .json v, "as_object" =>
    match v with
    | .object members => some (.object (some members))
    | _ => some (.object none)
  | .json v, "to_string" => some (.text v.render)
  | .text s, "as_str" => some (.text s)
  | .place path, "to_string" => some (.place path)
  | _, _ => none

def containsKey (x key : Operand) : Option Operand :=
  match x, key with
  | .map members, .text s => some (.flag (members.contains s))
  | _, _ => none

/-- The right operand counts only if the left one leaves the result open. -/
def binary (left : Operand) (operator : String) (right : Option Operand) : Option Operand :=
  match left, operator, right with
  | .flag false, "&&", _ => some (.flag false)
  | .flag true, "&&", some (.flag b) => some (.flag b)
  | .flag true, "||", _ => some (.flag true)
  | .flag false, "||", some (.flag b) => some (.flag b)
  | .json v, "==", some (.json w) => some (.flag (v.same w))
  | _, _, _ => none

end Operand

namespace Expr

/-- What an expression stands for, if it is one of the forms that tests consist of. -/
def eval : Expr → Scope → Option Operand
  | .path p, scope =>
    if p = .of ["serde_json", "Value", "Null"] then some (.json .null)
    else match p.steps with
      | [step] => scope.lookup step.name
      | _ => none
  | .text s, _ => some (.text s)
  | .integer i, _ => some (.integer i)
  | .boolean b, _ => some (.flag b)
  | .borrow e, scope | .deref e, scope => e.eval scope
  | .call (.path function) [e], scope => do (← e.eval scope).apply function
  | .method e "is_some_and" [.closure parameter body], scope => do
    match ← e.eval scope with
    | .object (some members) => body.eval ((parameter, .map members) :: scope)
    | .object none => some (.flag false)
    | _ => none
  | .method e "contains_key" [key], scope => do (← e.eval scope).containsKey (← key.eval scope)
  | .method e function [], scope => do (← e.eval scope).method function
  | .binary left operator right, scope => do (← left.eval scope).binary operator (right.eval scope)
  | _, _ => none

end Expr

/-- The error that a record of one of its kinds is. -/
def errorOf (runtime : CodePath) (scope : Scope) (kind : CodePath) (fields : List (String × Expr)) :
    Option DecodeError :=
  let field (name : String) : Option Operand := do (← fields.lookup name).eval scope
  if kind = runtime.binding ["DecodeError", "UnknownTag"] then
    match field "path", field "type_name", field "discriminant", field "tag" with
    | some (.place path), some (.text typeName), some (.text discriminant), some (.text tag) =>
      some (.unknownTag path typeName discriminant tag)
    | _, _, _, _ => none
  else if kind = runtime.binding ["DecodeError", "NoMatchingVariant"] then
    match field "path", field "type_name" with
    | some (.place path), some (.text typeName) => some (.noMatchingVariant path typeName)
    | _, _ => none
  else if kind = runtime.binding ["DecodeError", "UnknownEnumValue"] then
    match field "path", field "type_name", field "value" with
    | some (.place path), some (.text typeName), some (.text value) =>
      some (.unknownEnumValue path typeName value)
    | _, _, _ => none
  else none

/-- What a body comes to with an expression: an error, or else that expression, which then makes a
variant or reads one. -/
def answer (runtime : CodePath) (scope : Scope) : Expr → Option (Except DecodeError Expr)
  | .call (.path p) [.record kind fields] =>
    if p = .of ["Err"] then (errorOf runtime scope kind fields).map .error else none
  | e => some (.ok e)

/-- Whether a text fits a pattern. -/
def Pattern.fits (s : String) : Pattern → Bool
  | .text t => s == t
  | .wildcard => true
  | _ => false

/-- What a body comes to with its last expression, which may choose one by a text. -/
def conclude (runtime : CodePath) (scope : Scope) : Expr → Option (Except DecodeError Expr)
  | .choice e arms =>
    match e.eval scope with
    | some (.text s) => do answer runtime scope (← arms.find? fun arm => arm.1.fits s).2
    | _ => none
  | e => answer runtime scope e

/-- The value of a call that can fail: a discriminant, or a text. -/
def fallible (runtime : CodePath) (scope : Scope) : Expr → Option (Except DecodeError Operand)
  | .call (.path p) [value, discriminant, path] =>
    if p = runtime.binding ["union_tag"] then
      match value.eval scope, discriminant.eval scope, path.eval scope with
      | some (.json v), some (.text s), some (.place path) =>
        some ((Reader.unionTag v s path).map .json)
      | _, _, _ => none
    else none
  | .call (.traitItem (.path type []) trait "decode_at") [value, path] =>
    if type = .of ["smol_str", "SmolStr"] ∧ trait = runtime.binding ["DecodeJson"] then
      match value.eval scope, path.eval scope with
      | some (.json v), some (.place path) =>
        some (((Reader.string v path).mapError Prod.fst).map .text)
      | _, _ => none
    else none
  | _ => none

/-- Runs the statements of a body in order. -/
def runBody (runtime : CodePath) : Scope → List Statement → Option (Except DecodeError Expr)
  | _, [] => none
  | scope, .bind _ x (.orReturn e) :: rest =>
    match fallible runtime scope e with
    | some (.ok a) => runBody runtime ((x, a) :: scope) rest
    | some (.error err) => some (.error err)
    | none => none
  | _, .bind .. :: _ => none
  | scope, .returnIf condition e :: rest =>
    match condition.eval scope with
    | some (.flag true) => answer runtime scope e
    | some (.flag false) => runBody runtime scope rest
    | _ => none
  | scope, .result e :: _ => conclude runtime scope e

/-- The names in sight at the start of a body. -/
def bodyScope (v : Json) (path : FieldPath) : Scope := [("value", .json v), ("path", .place path)]

/-- The body that reads a union whose variants have the names. -/
def unionBody (runtime : CodePath) (entry : String) (discriminant : Option String)
    (variants : List Variant) (names : List String) : List Statement :=
  let payloads := variants.map fun v => EmittedType.ofRef v.type
  match discriminant with
  | some key => tagStatements runtime entry key
      (names.zip ((variants.map fun v => v.tag).zip payloads))
  | none => shapeStatements runtime entry
      (names.zip ((variants.map fun v => v.shape).zip payloads))

end Emit

end TypedArchive
