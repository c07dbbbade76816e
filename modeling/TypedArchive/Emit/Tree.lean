import TypedArchive.Emit.RuntimePath

/-! Emitted code as a tree: types, expressions, statements and items. -/

namespace TypedArchive.Emit

inductive CodeType where
  | path (p : CodePath) (args : List CodeType)
  /-- A lifetime among the arguments of a path. -/
  | lifetime (name : String)
  | borrowed (lifetime : Option String) (t : CodeType)
  | exclusive (t : CodeType)
  | unit
  deriving Repr

inductive Pattern where
  | path (p : CodePath)
  /-- A variant whose payload gets a name. -/
  | payload (p : CodePath) (name : String)
  | text (s : String)
  | wildcard
  deriving DecidableEq, Repr

inductive Expr where
  | path (p : CodePath)
  /-- A function of a trait at a type. -/
  | traitItem (t : CodeType) (trait : CodePath) (name : String)
  | text (s : String)
  | integer (i : Int64)
  | boolean (b : Bool)
  | borrow (e : Expr)
  | deref (e : Expr)
  | call (function : Expr) (args : List Expr)
  | method (receiver : Expr) (name : String) (args : List Expr)
  /-- The value, or else a return with the error. -/
  | orReturn (e : Expr)
  | binary (left : Expr) (operator : String) (right : Expr)
  | closure (parameter : String) (body : Expr)
  | record (p : CodePath) (fields : List (String × Expr))
  | choice (e : Expr) (arms : List (Pattern × Expr))
  deriving Repr

inductive Statement where
  | bind (mutable : Bool) (name : String) (e : Expr)
  | returnIf (condition value : Expr)
  /-- The value of the block. -/
  | result (e : Expr)
  deriving Repr

inductive Attribute where
  /-- One line of documentation; a fixed line is written raw. -/
  | doc (line : String) (fixed : Bool)
  | derive (traits : List CodePath)
  /-- Keys, some with a value, for the serializer. -/
  | serde (keys : List (String × Option String))
  deriving DecidableEq, Repr

structure FieldItem where
  attributes : List Attribute
  name : String
  type : CodeType
  deriving Repr

structure VariantItem where
  attributes : List Attribute
  name : String
  payload : Option CodeType
  deriving Repr

/-- A function of an implementation. -/
structure Function where
  visible : Bool := false
  name : String
  /-- A type parameter and the trait that bounds it. -/
  parameter : Option (String × CodeType) := none
  receiver : Bool := false
  arguments : List (String × CodeType)
  /-- Whether each argument stands on a line of its own, and so ends in a comma. -/
  spread : Bool := false
  result : CodeType
  body : List Statement
  deriving Repr

inductive Member where
  | function (f : Function)
  | constant (name : String) (type : CodeType) (value : Expr)
  deriving Repr

inductive Item where
  | alias (attributes : List Attribute) (name : String) (type : CodeType)
  | struct (attributes : List Attribute) (name : String) (fields : List FieldItem)
  | enumeration (attributes : List Attribute) (name : String) (variants : List VariantItem)
  /-- An implementation, of a trait if there is one. -/
  | implementation (lifetime : Option String) (trait : Option CodeType) (name : String)
      (members : List Member)
  deriving Repr

end TypedArchive.Emit
