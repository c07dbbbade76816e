/-! Documents in KDL: nodes with a name, ordered arguments and properties, and children in braces. -/

namespace TypedArchive.Kdl

inductive Value where
  | text (s : String)
  /-- A number as it was written. -/
  | number (digits : String)
  | boolean (b : Bool)
  | null
  deriving DecidableEq, Repr

def Value.asText? : Value → Option String
  | .text s => some s
  | _ => none

/-- An argument, or a property if it has a key. -/
structure Entry where
  key : Option String
  value : Value
  deriving DecidableEq, Repr

structure Node where
  name : String
  entries : List Entry
  /-- The nodes in braces; an empty pair of braces is not the same as none. -/
  children : Option (List Node)
  deriving Repr

end TypedArchive.Kdl
