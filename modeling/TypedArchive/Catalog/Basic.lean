import TypedArchive.Catalog.Shape
import TypedArchive.Catalog.TypeRef

/-! The type catalog: named types that refer to one another by name only, so that recursive types
need no form of their own. -/

namespace TypedArchive

structure Field where
  /-- The key in JSON. -/
  name : String
  type : TypeRef
  optional : Bool
  description : Option String := none
  deriving DecidableEq, Repr

structure Variant where
  /-- The value of the discriminant that selects the variant. -/
  tag : Option Literal := none
  type : TypeRef
  shape : Shape
  deriving DecidableEq, Repr

/-- What a catalog entry stands for. -/
inductive TypeDef where
  | record (fields : List Field)
  /-- The literals, and names for them that are absent or stand beside them one by one. -/
  | enumeration (values : List Literal) (descriptions : List String)
  /-- Variants in order; with a discriminant, the value of that key selects one. -/
  | union (discriminant : Option String) (variants : List Variant)
  | array (element : TypeRef)
  | alias (target : TypeRef)
  deriving DecidableEq, Repr

namespace TypeDef

def word : TypeDef → String
  | .record _ => "record"
  | .enumeration .. => "enum"
  | .union .. => "union"
  | .array _ => "array"
  | .alias _ => "alias"

/-- Every catalog name that the type mentions, in order and with repetitions. -/
def namedRefs : TypeDef → List String
  | .record fields => fields.flatMap fun f => f.type.namedRefs
  | .enumeration .. => []
  | .union _ variants => variants.flatMap fun v => v.type.namedRefs
  | .array t | .alias t => t.namedRefs

end TypeDef

/-- The fields fixed to one literal, in field order. -/
def literalFields (fields : List Field) : List (String × Literal) :=
  fields.filterMap fun f =>
    match f.type with
    | .literal l => some (f.name, l)
    | _ => none

/-- The names of the fields that must be present, in increasing order. -/
def requiredNames (fields : List Field) : List String :=
  Assoc.sortedNames ((fields.filter fun f => !f.optional).map Field.name)

/-- The index of the first variant with the tag, and the variant. -/
def variantForTag? (variants : List Variant) (tag : Literal) : Option (Nat × Variant) :=
  (variants.zipIdx.find? fun p => p.1.tag == some tag).map fun p => (p.2, p.1)

structure Entry where
  name : String
  /-- The identifier of the schema node that the entry was compiled from. -/
  origin : String
  description : Option String := none
  type : TypeDef
  deriving DecidableEq, Repr

/-- Entries by key. In a compiled catalog each key is its entry's name. -/
structure Catalog where
  entries : Assoc Entry := []
  deriving DecidableEq, Repr

namespace Catalog

def insert (c : Catalog) (e : Entry) : Catalog := ⟨c.entries.insert e.name e⟩

def get? (c : Catalog) (name : String) : Option Entry := c.entries.get? name

def contains (c : Catalog) (name : String) : Bool := c.entries.contains name

def names (c : Catalog) : List String := c.entries.keys

def size (c : Catalog) : Nat := c.entries.length

/-- Follows aliases of named types for at most `steps` entries. -/
def followAliases (c : Catalog) : (steps : Nat) → String → Option Entry
  | 0, _ => none
  | steps + 1, name =>
    match c.get? name with
    | none => none
    | some e =>
      match e.type with
      | .alias (.named next) => followAliases c steps next
      | _ => some e

/-- The entry at the end of the chain of aliases that starts at a name; none if the chain dangles or
runs in a circle. -/
def resolveAlias (c : Catalog) (name : String) : Option Entry := c.followAliases (c.size + 1) name

/-- The number of mentions of names in the catalog. -/
def mentions (c : Catalog) : Nat := (c.entries.flatMap fun e => e.2.type.namedRefs).length

/-- Searches from the names on the stack for one that mentions the target. The names that an entry
mentions are put on the stack one by one. No answer is given if the rounds are used up. -/
def mentionsFrom (c : Catalog) (target : String) :
    (rounds : Nat) → (stack seen : List String) → Option Bool
  | 0, _, _ => none
  | _ + 1, [], _ => some false
  | rounds + 1, name :: stack, seen =>
    if name ∈ seen then mentionsFrom c target rounds stack seen
    else match c.get? name with
      | none => mentionsFrom c target rounds stack (name :: seen)
      | some e =>
        let next := e.type.namedRefs
        if target ∈ next then some true
        else mentionsFrom c target rounds (next.reverse ++ stack) (name :: seen)

/-- Whether a chain of at least one mention leads from the first name to the second. -/
def reaches (c : Catalog) (source target : String) : Bool :=
  (c.mentionsFrom target (c.mentions + 2) [source] []).getD false

end Catalog

end TypedArchive
