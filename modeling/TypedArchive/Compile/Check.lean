import TypedArchive.Catalog.Basic
import TypedArchive.Schema.Error

/-! Checks on a finished catalog: every mentioned name has an entry, and no circle of mentions
consists of arrays and aliases only. -/

namespace TypedArchive.Catalog

/-- Arrays and aliases add no type of their own, so one may not lead back to itself. -/
def isTransparent : TypeDef → Bool
  | .array _ | .alias _ => true
  | _ => false

/-- The name that an array or alias mentions. -/
def transparentNext? (c : Catalog) (name : String) : Option String :=
  match (c.get? name).map Entry.type with
  | some (.array t) | some (.alias t) => t.namedRef?
  | _ => none

/-- Walks on from a name through arrays and aliases until it is back at `start`. -/
def pathBack (c : Catalog) (start : String) : (steps : Nat) → String → Option (List String)
  | 0, _ => none
  | steps + 1, name =>
    match c.transparentNext? name with
    | none => none
    | some next =>
      if next = start then some [name, next]
      else (pathBack c start steps next).map fun path => name :: path

/-- The circle of arrays and aliases through a name, from it back to it. -/
def transparentCycle? (c : Catalog) (name : String) : Option (List String) :=
  c.pathBack name (c.size + 1) name

def checkMentions (c : Catalog) : Except SchemaError Unit :=
  c.entries.values.forM fun e =>
    match e.type.namedRefs.find? fun name => !c.contains name with
    | some name => .error (.unresolvedReference name e.origin)
    | none => .ok ()

def checkCycles (c : Catalog) : Except SchemaError Unit :=
  c.entries.values.forM fun e =>
    match if isTransparent e.type then c.transparentCycle? e.name else none with
    | some cycle => .error (.circularReference e.origin cycle)
    | none => .ok ()

def validate (c : Catalog) : Except SchemaError Unit := do
  c.checkMentions
  c.checkCycles

end TypedArchive.Catalog
