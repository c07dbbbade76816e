import TypedArchive.Binding.Routing

/-! Encoding as it goes, round by round. Nothing keeps types from handing a value round in a circle,
over aliases and as the variant that a bare record or enum counts as, and then no number of rounds
gives a result. -/

namespace TypedArchive

/-- Steps that come to a result or an error, or are cut short. -/
abbrev Writing := ExceptT EncodeError Option

namespace Data

mutual

/-- How deep a value is; the value of a union is inside it. -/
def depth : Data → Nat
  | .array items => itemsDepth items + 1
  | .map entries => entriesDepth entries + 1
  | .record _ fields _ => entriesDepth fields + 1
  | .union _ _ _ d => d.depth + 1
  | _ => 0

def itemsDepth : List Data → Nat
  | [] => 0
  | d :: rest => max d.depth (itemsDepth rest)

def entriesDepth : List (String × Data) → Nat
  | [] => 0
  | (_, d) :: rest => max d.depth (entriesDepth rest)

end

end Data

namespace Encode

def ended {α : Type} (x : Except EncodeError α) : Writing α := some x

section Round

variable (write : TypeRef → Data → FieldPath → Writing Json)

def roundArray (t : TypeRef) (d : Data) (path : FieldPath) : Writing Json :=
  match d with
  | .array items => do
    let vs ← items.zipIdx.mapM fun p => write t p.1 (path.pushIndex p.2)
    return .array vs
  | d => ended (wrongKind "array" d path)

def roundMap (t : TypeRef) (d : Data) (path : FieldPath) : Writing Json :=
  match d with
  | .map entries => do
    let members ← entries.mapM fun p => do return (p.1, ← write t p.2 (path.pushKey p.1))
    return .object members
  | d => ended (wrongKind "map" d path)

def roundField (present : Assoc Data) (path : FieldPath) (written : Assoc Json) (f : Field) :
    Writing (Assoc Json) :=
  match present.get? f.name with
  | some d => do return written.insert f.name (← write f.type d (path.pushKey f.name))
  | none =>
    ended (if f.optional then .ok written else fail (path.pushKey f.name) .requiredField)

def roundRecord (typeName : String) (declared : List Field) (d : Data) (path : FieldPath) :
    Writing Json :=
  match d with
  | .record name present extra =>
    if name ≠ typeName then ended (fail path (.recordType typeName name))
    else match present.find? fun p => !declared.any fun f => f.name == p.1 with
      | some (unknown, _) => ended (fail path (.declaredField unknown typeName))
      | none => do
        let members ← declared.foldlM (roundField write present path) extra
        return .object members
  | d => ended (wrongKind typeName d path)

/-- The variant as which a value is written, and what is written: the value in a union, and a record
or enum itself as the variant that names its type. -/
def selectVariant (c : Catalog) (typeName : String) (variants : List Variant) (d : Data)
    (path : FieldPath) : Except EncodeError (Variant × Data) := do
  let (index, inner) ← match d with
    | .union _ _ index payload => .ok (index, payload)
    | d =>
      match d.typeName?.bind (variantNamed? c variants) with
      | some index => .ok (index, d)
      | none => wrongKind typeName d path
  match variants[index]? with
  | some variant => .ok (variant, inner)
  | none => fail path (.variant typeName index)

/-- Writes a value as a type, when `write` writes the parts of the value, and the whole value as the
target of an alias or as the variant of a union. -/
def round (c : Catalog) (t : TypeRef) (d : Data) (path : FieldPath) : Writing Json :=
  match t with
  | .primitive p => ended (primitive p d path)
  | .literal l => ended (literal l d path)
  | .array t => roundArray write t d path
  | .map t => roundMap write t d path
  | .named name =>
    match c.get? name with
    | none => ended (fail path (.unknownType name))
    | some e =>
      match e.type with
      | .record declared => roundRecord write e.name declared d path
      | .enumeration values _ => ended (enumeration e.name values d path)
      | .array t => roundArray write t d path
      | .alias t => write t d path
      | .union _ variants => do
        let (variant, inner) ← ended (selectVariant c e.name variants d path)
        write variant.type inner path

end Round

/-- Writes a value as a type in rounds, at most so many one inside the other. -/
def run (c : Catalog) : (rounds : Nat) → TypeRef → Data → FieldPath → Writing Json
  | 0, _, _, _ => Option.none
  | rounds + 1, t, d, path => round (run c rounds) c t d path

end Encode

/-- Writes a value as the type of a name, in more rounds than names of types can be met one inside
the other without meeting one again for the same value; no result means that writing goes on for
ever. -/
def Catalog.write (c : Catalog) (name : String) (d : Data) : Option (Except EncodeError Json) :=
  Encode.run c ((c.size + 1) * (d.depth + 1)) (.named name) d []

/-- Writes a value as the type of a name. -/
def Bindings.write (b : Bindings) (name : String) (d : Data) : Option (Except EncodeError Json) :=
  b.catalog.write name d

end TypedArchive
