import TypedArchive.Binding.Run

/-! Decoding with one path for the whole walk through a value: a segment is put on before a part of
the value is read and taken off after it, and an error tells the path as it then stands. -/

namespace TypedArchive

/-- Readings that share one path. -/
abbrev Walk := StateT FieldPath Reading

namespace Walk

variable {α : Type}

def enter (s : Segment) : Walk Unit := modify fun path => path.push s

def leave : Walk Unit := modify FieldPath.pop

/-- Reads a part of the value with its segment on the path. -/
def inside (s : Segment) (walk : Walk α) : Walk α := do
  enter s
  let a ← walk
  leave
  return a

/-- A check asks for the path only to tell it. -/
def check (x : FieldPath → Except DecodeError α) : Walk α := do
  let path ← get
  StateT.lift (Decode.ended (x path))

section Round

variable (read : TypeRef → Json → Walk Data)

def array (t : TypeRef) (v : Json) : Walk Data :=
  match v with
  | .array items => do
    let ds ← items.zipIdx.mapM fun p => inside (.index p.2) (read t p.1)
    return .array ds
  | v => check (Decode.mismatch "array" v)

def map (t : TypeRef) (v : Json) : Walk Data :=
  match v with
  | .object members => do
    let entries ← members.mapM fun p => do return (p.1, ← inside (.key p.1) (read t p.2))
    return .map entries
  | v => check (Decode.mismatch "object" v)

/-- The key of a field is on the path before the member is looked up, also if that is absent. -/
def field (members : Assoc Json) (ds : List (String × Data)) (f : Field) :
    Walk (List (String × Data)) :=
  inside (.key f.name) <|
    match members.get? f.name with
    | some w => do return ds ++ [(f.name, ← read f.type w)]
    | none => check fun path => if f.optional then .ok ds else .error (.missingField path)

def record (typeName : String) (declared : List Field) (v : Json) : Walk Data :=
  match v with
  | .object members => do
    let ds ← declared.foldlM (field read members) []
    return .record typeName (Assoc.ofList ds)
      (members.filter fun p => !Decode.declares declared p.1)
  | v => check (Decode.mismatch "object" v)

end Round

/-- A discriminant that is absent is on the path only while its error is made. -/
def selectVariant (typeName : String) (discriminant : Option String) (variants : List Variant)
    (v : Json) : Walk (Nat × Variant × Option Literal) :=
  match discriminant, v with
  | some key, .object members =>
    if (members.lookup key).isSome then
      check (Decode.selectVariant typeName discriminant variants v)
    else do
      let absent ← inside (.key key) get
      StateT.lift (throw (.missingField absent))
  | _, _ => check (Decode.selectVariant typeName discriminant variants v)

def round (read : TypeRef → Json → Walk Data) (c : Catalog) (t : TypeRef) (v : Json) : Walk Data :=
  match t with
  | .primitive p => check (Decode.primitive p v)
  | .literal l => check (Decode.literal l v)
  | .array t => array read t v
  | .map t => map read t v
  | .named name =>
    match c.get? name with
    | none => check fun path => .error (.unknownType path name)
    | some e =>
      match e.type with
      | .record declared => record read e.name declared v
      | .enumeration values _ => check (Decode.enumeration e.name values v)
      | .array t => array read t v
      | .alias t => read t v
      | .union discriminant variants => do
        let (index, variant, tag) ← selectVariant e.name discriminant variants v
        return .union e.name tag index (← read variant.type v)

/-- Walks through a value in rounds, at most so many one inside the other. -/
def run (c : Catalog) : (rounds : Nat) → TypeRef → Json → Walk Data
  | 0, _, _ => fun _ => Option.none
  | rounds + 1, t, v => round (run c rounds) c t v

end Walk

/-- Reads a value as the type of a name, on a walk that starts with the path of the document; the
path at the end comes with the result. -/
def Catalog.walk (c : Catalog) (name : String) (v : Json) :
    Option (Except DecodeError (Data × FieldPath)) :=
  Walk.run c ((c.size + 1) * (v.depth + 1)) (.named name) v []

end TypedArchive
