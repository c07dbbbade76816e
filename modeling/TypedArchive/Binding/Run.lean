import TypedArchive.Binding.Routing
import TypedArchive.Catalog.Json

/-! Decoding as it goes, round by round. Nothing keeps types from handing a value round in a circle,
and then no number of rounds gives a result. -/

namespace TypedArchive

/-- Steps that come to a result or an error, or are cut short. -/
abbrev Reading := ExceptT DecodeError Option

namespace Decode

def ended {α : Type} (x : Except DecodeError α) : Reading α := some x

section Round

variable (read : TypeRef → Json → FieldPath → Reading Data)

def roundArray (t : TypeRef) (v : Json) (path : FieldPath) : Reading Data :=
  match v with
  | .array items => do
    let ds ← items.zipIdx.mapM fun p => read t p.1 (path.pushIndex p.2)
    return .array ds
  | v => ended (mismatch "array" v path)

def roundMap (t : TypeRef) (v : Json) (path : FieldPath) : Reading Data :=
  match v with
  | .object members => do
    let entries ← members.mapM fun p => do return (p.1, ← read t p.2 (path.pushKey p.1))
    return .map entries
  | v => ended (mismatch "object" v path)

def roundField (members : Assoc Json) (path : FieldPath) (ds : List (String × Data)) (f : Field) :
    Reading (List (String × Data)) :=
  match members.get? f.name with
  | some w => do return ds ++ [(f.name, ← read f.type w (path.pushKey f.name))]
  | none => ended (if f.optional then .ok ds else .error (.missingField (path.pushKey f.name)))

def roundRecord (typeName : String) (declared : List Field) (v : Json) (path : FieldPath) :
    Reading Data :=
  match v with
  | .object members => do
    let ds ← declared.foldlM (roundField read members path) []
    return .record typeName (Assoc.ofList ds) (members.filter fun p => !declares declared p.1)
  | v => ended (mismatch "object" v path)

/-- Reads a value as a type, when `read` reads the parts of the value, and the whole value as the
target of an alias or as a variant of a union. -/
def round (c : Catalog) (t : TypeRef) (v : Json) (path : FieldPath) : Reading Data :=
  match t with
  | .primitive p => ended (primitive p v path)
  | .literal l => ended (literal l v path)
  | .array t => roundArray read t v path
  | .map t => roundMap read t v path
  | .named name =>
    match c.get? name with
    | none => throw (.unknownType path name)
    | some e =>
      match e.type with
      | .record declared => roundRecord read e.name declared v path
      | .enumeration values _ => ended (enumeration e.name values v path)
      | .array t => roundArray read t v path
      | .alias t => read t v path
      | .union discriminant variants => do
        let (index, variant, tag) ← ended (selectVariant e.name discriminant variants v path)
        return .union e.name tag index (← read variant.type v path)

end Round

/-- Reads a value as a type in rounds, at most so many one inside the other. -/
def run (c : Catalog) : (rounds : Nat) → TypeRef → Json → FieldPath → Reading Data
  | 0, _, _, _ => Option.none
  | rounds + 1, t, v, path => round (run c rounds) c t v path

end Decode

/-- Reads a value as the type of a name, in more rounds than names of types can be met one inside the
other without meeting one again for the same value; no result means that reading goes on for ever. -/
def Catalog.run (c : Catalog) (name : String) (v : Json) : Option (Except DecodeError Data) :=
  Decode.run c ((c.size + 1) * (v.depth + 1)) (.named name) v []

namespace Bindings

/-- Reads a value as the type of a name. -/
def run (b : Bindings) (name : String) (v : Json) : Option (Except DecodeError Data) :=
  b.catalog.run name v

/-- Reads a document as the type of its class. -/
def runTagged (b : Bindings) (v : Json) (fallback : Option String) :
    Option (Except DecodeError (String × Data)) :=
  match b.route v fallback with
  | .error e => some (.error e)
  | .ok typeName => (b.run typeName v).map fun r => r.map fun d => (typeName, d)

end Bindings

end TypedArchive
