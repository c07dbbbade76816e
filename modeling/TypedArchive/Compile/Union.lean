import TypedArchive.Compile.Build

/-! Unions. Branches that are unions themselves are put inline; a field that every branch fixes to a
literal of its own selects the variant, and without one the shapes have to tell the variants
apart. -/

namespace TypedArchive.Compile

/-- The branches of the unions that are still pending, by union name. -/
abbrev Branches := List (String × List TypeRef)

/-- Replaces branches that name a pending union by its branches and drops repetitions. `seen` holds
the unions entered so far, `leaves` the types found. -/
def flattenInto (unions : Branches) :
    (depth : Nat) → List TypeRef → (seen : List String) → (leaves : List TypeRef) →
      List String × List TypeRef
  | 0, _, seen, leaves => (seen, leaves)
  | depth + 1, branches, seen, leaves =>
    branches.foldl (fun (seen, leaves) t =>
      match t.asNamed?.bind fun name => (unions.lookup name).map fun inner => (name, inner) with
      | some (name, inner) =>
        if name ∈ seen then (seen, leaves)
        else flattenInto unions depth inner (name :: seen) leaves
      | none => if t ∈ leaves then (seen, leaves) else (seen, leaves ++ [t]))
      (seen, leaves)

/-- The branches of a union in which no branch names a pending union. -/
def flattenBranches (unions : Branches) (name : String) (branches : List TypeRef) :
    List TypeRef :=
  (flattenInto unions (unions.length + 1) branches [name] []).2

def primitiveShape : Primitive → Shape
  | .string => .string
  | .integer => .integer
  | .number => .number
  | .boolean => .boolean
  | .null => .null
  | .any => .any

/-- The shape of an expression that names no entry. -/
def plainShape : TypeRef → Shape
  | .named _ => .any
  | .primitive p => primitiveShape p
  | .literal l => primitiveShape l.primitive
  | .array _ => .array
  | .map _ => .object []

/-- The shape that the values of a type have. -/
def shapeOf (c : Catalog) : TypeRef → Shape
  | .named name =>
    match (c.resolveAlias name).map Entry.type with
    | some (.record fields) => .object (requiredNames fields)
    | some (.enumeration values _) =>
      match (values.map Literal.primitive).eraseDups with
      | [p] => primitiveShape p
      | _ => .any
    | some (.array _) => .array
    | some (.alias target) => plainShape target
    | some (.union ..) | none => .any
  | t => plainShape t

/-- The fields of the record that a type names. -/
def recordOf? (c : Catalog) (t : TypeRef) : Option (List Field) :=
  match (t.asNamed?.bind c.resolveAlias).map Entry.type with
  | some (.record fields) => some fields
  | _ => none

/-- The literal to which a record fixes a field. -/
def fixedTo? (fields : List Field) (name : String) : Option Literal :=
  match (fields.find? fun f => f.name == name).map Field.type with
  | some (.literal l) => some l
  | _ => none

/-- The first field that every record fixes to a literal of its own, and the literals. -/
def discriminant? (records : List (List Field)) : Option (String × List Literal) :=
  (literalFields (records.head?.getD [])).findSome? fun (name, _) =>
    match records.mapM fun fields => fixedTo? fields name with
    | some tags => if tags.Nodup then some (name, tags) else none
    | none => none

/-- The union with tags over the branches, if there is a field to tell them. -/
def discriminated? (c : Catalog) (branches : List TypeRef) : Option TypeDef := do
  let records ← branches.mapM (recordOf? c)
  let (name, tags) ← discriminant? records
  return .union (some name)
    ((branches.zip tags).map fun (type, tag) => { tag := some tag, type, shape := shapeOf c type })

/-- The index of the first shape that an earlier one subsumes. -/
def firstHidden? (shapes : List Shape) : Option Nat :=
  (List.range shapes.length).find? fun j =>
    match shapes[j]? with
    | some later => (shapes.take j).any fun earlier => earlier.subsumes later
    | none => false

/-- Tags if possible, with inner unions inline or else left as they are; otherwise shapes. -/
def resolveUnion (g : Graph) (c : Catalog) (unions : Branches) (u : PendingUnion) :
    Except SchemaError TypeDef :=
  let flat := flattenBranches unions u.name u.branches
  let inlined := if flat = u.branches then none else discriminated? c flat
  match inlined <|> discriminated? c u.branches with
  | some type => .ok type
  | none =>
    match firstHidden? (u.branches.map (shapeOf c)) with
    | some j => .error (.ambiguousUnion (node g u.node).id j)
    | none =>
      .ok (.union none (u.branches.map fun type => { type, shape := shapeOf c type }))

/-- Resolves one pending union and enters it into the catalog. -/
def finishUnion (g : Graph) (unions : Branches) (c : Catalog) (u : PendingUnion) :
    Except SchemaError Catalog := do
  let n := node g u.node
  let type ← resolveUnion g c unions u
  return c.insert { name := u.name, origin := n.id, description := n.description, type }

/-- Resolves the pending unions in order; each sees those resolved before it. -/
def finishUnions (g : Graph) (c : Catalog) (pending : List PendingUnion) :
    Except SchemaError Catalog :=
  let unions := pending.map fun u => (u.name, u.branches)
  pending.foldlM (finishUnion g unions) c

end TypedArchive.Compile
