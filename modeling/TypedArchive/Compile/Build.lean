import TypedArchive.Compile.TypeName
import TypedArchive.Compile.Unify
import TypedArchive.Schema.Graph

/-! From schema nodes to catalog entries. A node with a name is mentioned by name, without a look at
what it holds, so recursive schemas need one pass. Unions wait until all records exist. -/

namespace TypedArchive.Compile

/-- A union whose branches have types but no tags or shapes yet. -/
structure PendingUnion where
  name : String
  node : Nat
  branches : List TypeRef
  deriving DecidableEq, Repr

structure State where
  /-- The names of the nodes that own an entry. -/
  names : List (Nat × String) := []
  taken : List String := []
  catalog : Catalog := {}
  /-- Unions in the order in which they were met. -/
  pending : List PendingUnion := []
  deriving Repr

abbrev Build := StateT State (Except SchemaError)

def fail {α : Type} (e : SchemaError) : Build α := throw e

/-- The node at an index of the graph. -/
def node (g : Graph) (index : Nat) : Node := (g.node? index).getD { document := "", pointer := [] }

/-- Gives a node the first free name made from `base`. -/
def reserveName (index : Nat) (base : String) : Build String := do
  let s ← get
  let name := TypeName.firstFree s.taken base
  set { s with names := (index, name) :: s.names, taken := name :: s.taken }
  return name

/-- The indices of the nodes that own an entry from the start: document roots that say something,
definitions, and targets of references, in the order of identifiers. -/
def namedNodes (g : Graph) : List Nat :=
  let targets := g.inIdOrder.filterMap g.refTarget?
  g.inIdOrder.filter fun i =>
    let n := node g i
    (n.isRoot && n.hasContent) || n.isDefinition || targets.contains i

/-- Names the nodes that own an entry from the start. -/
def reserveNames (g : Graph) : Build (List (Nat × String)) :=
  (namedNodes g).mapM fun i => do return (i, ← reserveName i (TypeName.preferred (node g i)))

/-- The only branch of a composition that does nothing else. -/
def singleBranch (n : Node) : Option Nat :=
  if n.kind = .composition ∧ n.properties.isEmpty then
    match n.allOf, n.oneOf, n.anyOf with
    | [b], [], [] | [], [b], [] | [], [], [b] => some b
    | _, _, _ => none
  else none

def refTarget (g : Graph) (index : Nat) : Except SchemaError Nat :=
  match g.refTarget? index with
  | some target => .ok target
  | none =>
    let n := node g index
    .error (.unresolvedReference ((n.reference.map Reference.raw).getD "") n.id)

/-- The distinct literals of an enumeration, and their descriptions if there is one for each. -/
def enumOf (n : Node) : Except SchemaError (List Literal × List String) := do
  let literals ← (n.enumValues.getD []).mapM fun v =>
    match Literal.ofJson? v with
    | some l => .ok l
    | none => .error (.unsupported (.enumValue v) n.id)
  let values := literals.eraseDups
  return (values, if n.enumDescriptions.length = values.length then n.enumDescriptions else [])

def constantOf (n : Node) : Except SchemaError Literal :=
  let v := n.constant.getD .null
  match Literal.ofJson? v with
  | some l => .ok l
  | none => .error (.unsupported (.constValue v) n.id)

/-- The fields gathered from the branches of an `allOf`, and the keys any of them requires. -/
structure Merged where
  fields : Assoc Field := []
  required : List String := []

/-- Adds a field, or narrows the one that is there. -/
def Merged.add (m : Merged) (root name : String) (type : TypeRef) (description : Option String) :
    Except SchemaError Merged :=
  match m.fields.get? name with
  | none =>
    .ok { m with fields := m.fields.insert name { name, type, optional := true, description } }
  | some old =>
    match old.type.unify type with
    | some type =>
      .ok { m with
        fields := m.fields.insert name
          { old with type, description := old.description <|> description } }
    | none => .error (.compositionConflict name root old.type.text type.text)

def Merged.toFields (m : Merged) : List Field :=
  m.fields.values.map fun f => { f with optional := !m.required.contains f.name }

mutual

/-- Compiles a node that owns the entry of a name. -/
def compileNamed (g : Graph) : (budget : Nat) → Nat → String → Build Unit
  | 0, index, _ => fail (.circularReference (node g index).id [])
  | budget + 1, index, name => do
    let n := node g index
    let type? ← match n.kind with
      | .ref => some <$> TypeDef.alias <$> typeRef g budget (← refTarget g index) name
      | .composition =>
        match singleBranch n with
        | some branch => some <$> TypeDef.alias <$> typeRef g budget branch name
        | none =>
          if !n.allOf.isEmpty then
            if !n.oneOf.isEmpty || !n.anyOf.isEmpty then
              fail (.unsupported .alternativesBesideAllOf n.id)
            else do
              let merged ← collectFields g budget n.id index name [] {}
              pure (some (.record merged.toFields))
          else do
            deferUnion g budget index name
            pure none
      | .object =>
        match n.properties, n.additional with
        | [], some additional =>
          some <$> TypeDef.alias <$> TypeRef.map <$> typeRef g budget additional (name ++ "Value")
        | _, _ => some <$> TypeDef.record <$> recordFields g budget n name n.properties
      | .array => some <$> TypeDef.array <$> itemsRef g budget n name
      | .enumeration => do
        let (values, descriptions) ← enumOf n
        pure (some (.enumeration values descriptions))
      | .constant => do pure (some (.alias (.literal (← constantOf n))))
      | .primitive p => pure (some (.alias (.primitive p)))
      | .any => pure (some (.alias .any))
    match type? with
    | some type =>
      modify fun s => { s with
        catalog := s.catalog.insert
          { name, origin := n.id, description := n.description, type } }
    | none => pure ()

/-- The type of a node that stands inside another type. A node that needs an entry of its own gets
one, named after the hint. -/
def typeRef (g : Graph) : (budget : Nat) → Nat → String → Build TypeRef
  | 0, index, _ => fail (.circularReference (node g index).id [])
  | budget + 1, index, hint => do
    match (← get).names.lookup index with
    | some name => return .named name
    | none =>
      let n := node g index
      match singleBranch n with
      | some branch => typeRef g budget branch hint
      | none =>
        let hoist : Build TypeRef := do
          let name ← reserveName index (TypeName.sanitize hint)
          compileNamed g budget index name
          return .named name
        match n.kind with
        | .ref => typeRef g budget (← refTarget g index) hint
        | .primitive p => return .primitive p
        | .any => return .any
        | .constant => return .literal (← constantOf n)
        | .enumeration =>
          if (n.enumValues.getD []).length = 1 then
            match (← enumOf n).1 with
            | l :: _ => return .literal l
            | [] => hoist
          else hoist
        | .array => return .array (← itemsRef g budget n hint)
        | .object =>
          if n.properties.isEmpty then
            match n.additional with
            | some additional => return .map (← typeRef g budget additional (hint ++ "Value"))
            | none => return .map .any
          else hoist
        | .composition => hoist

/-- The type of an array's items; unconstrained JSON when the schema says nothing of them. -/
def itemsRef (g : Graph) : (budget : Nat) → Node → String → Build TypeRef
  | 0, n, _ => fail (.circularReference n.id [])
  | budget + 1, n, owner =>
    match n.items with
    | some items => typeRef g budget items (owner ++ "Item")
    | none => return .any

def recordFields (g : Graph) : (budget : Nat) → Node → String → Assoc Nat → Build (List Field)
  | 0, n, _, _ => fail (.circularReference n.id [])
  | _, _, _, [] => return []
  | budget + 1, n, owner, (name, property) :: rest => do
    let type ← typeRef g budget property (owner ++ Text.pascalCase name)
    let field : Field :=
      { name, type
        optional := !n.required.contains name
        description := (node g property).description }
    return field :: (← recordFields g budget n owner rest)

/-- Adds the fields of a node and of its branches. `visiting` is the path down to the node. -/
def collectFields (g : Graph) :
    (budget : Nat) → (root : String) → Nat → String → (visiting : List Nat) → Merged → Build Merged
  | 0, root, _, _, _, _ => fail (.circularReference root [])
  | budget + 1, root, index, owner, visiting, merged => do
    let n := node g index
    if visiting.contains index then
      fail (.circularReference root ((visiting ++ [index]).map fun i => (node g i).id))
    let visiting := visiting ++ [index]
    let merged := { merged with required := merged.required ++ n.required }
    match n.kind with
    | .ref => collectFields g budget root (← refTarget g index) owner visiting merged
    | .composition =>
      if !n.oneOf.isEmpty || !n.anyOf.isEmpty then
        fail (.unsupported .alternativesInAllOf n.id)
      let merged ← mergeProperties g budget root owner n.properties merged
      collectBranches g budget root n.allOf owner visiting merged
    | .object => mergeProperties g budget root owner n.properties merged
    | .any => return merged
    | kind => fail (.unsupported (.allOfBranch kind.text) n.id)

def collectBranches (g : Graph) :
    (budget : Nat) → (root : String) → List Nat → String → (visiting : List Nat) → Merged →
      Build Merged
  | 0, root, _, _, _, _ => fail (.circularReference root [])
  | _, _, [], _, _, merged => return merged
  | budget + 1, root, branch :: rest, owner, visiting, merged => do
    let merged ← collectFields g budget root branch owner visiting merged
    collectBranches g budget root rest owner visiting merged

def mergeProperties (g : Graph) :
    (budget : Nat) → (root owner : String) → Assoc Nat → Merged → Build Merged
  | 0, root, _, _, _ => fail (.circularReference root [])
  | _, _, _, [], merged => return merged
  | budget + 1, root, owner, (name, property) :: rest, merged => do
    let type ← typeRef g budget property (owner ++ Text.pascalCase name)
    let merged ← merged.add root name type (node g property).description
    mergeProperties g budget root owner rest merged

/-- Compiles the branches of a union and queues it. -/
def deferUnion (g : Graph) : (budget : Nat) → Nat → String → Build Unit
  | 0, index, _ => fail (.circularReference (node g index).id [])
  | budget + 1, index, name => do
    let n := node g index
    let schemas := if n.oneOf.isEmpty then n.anyOf else n.oneOf
    let branches ← branchRefs g budget name 0 schemas
    modify fun s => { s with pending := s.pending ++ [{ name, node := index, branches }] }

def branchRefs (g : Graph) :
    (budget : Nat) → String → (place : Nat) → List Nat → Build (List TypeRef)
  | 0, name, _, _ => fail (.circularReference name [])
  | _, _, _, [] => return []
  | budget + 1, name, place, branch :: rest => do
    let hint := match (node g branch).title with
      | some title => Text.pascalCase title
      | none => name ++ "Variant" ++ toString place
    let type ← typeRef g budget branch hint
    return type :: (← branchRefs g budget name (place + 1) rest)

end

/-- A bound on the length of every chain of calls above. Between two nodes that are given a name a
chain passes each node and each list of children at most once, and it names no node twice. -/
def budget (g : Graph) : Nat := (g.size + 2) * (8 * g.size + 16)

/-- Names and compiles every node that owns an entry from the start. -/
def buildEntries (g : Graph) : Build Unit := do
  let reserved ← reserveNames g
  reserved.forM fun p => compileNamed g (budget g) p.1 p.2

end TypedArchive.Compile
