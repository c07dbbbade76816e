import TypedArchive.Catalog.Json
import TypedArchive.Schema.Bundle
import TypedArchive.Schema.Error
import TypedArchive.Schema.Node

/-! The graph of all schema nodes of a bundle. Loading places the schemas inside a schema before the
schema itself, then resolves references to edges; cycles stay edges. -/

namespace TypedArchive

structure Graph where
  nodes : Array Node := #[]
  /-- Node indices by qualified identifier. -/
  byId : Assoc Nat := []
  /-- Root nodes by document. -/
  roots : Assoc Nat := []
  /-- Anchors with their document and node, in loading order; the first use of a name in a
  document counts. -/
  anchors : List ((String × String) × Nat) := []
  deriving Repr

namespace Graph

def node? (g : Graph) (index : Nat) : Option Node := g.nodes[index]?

def get? (g : Graph) (id : String) : Option Nat := g.byId.get? id

def root? (g : Graph) (document : String) : Option Nat := g.roots.get? document

def size (g : Graph) : Nat := g.nodes.size

/-- The node indices in the order of their identifiers. -/
def inIdOrder (g : Graph) : List Nat := g.byId.values

/-- Appends a node and enters its identifier and its anchor. -/
def push (g : Graph) (n : Node) : Graph :=
  let index := g.nodes.size
  { g with
    nodes := g.nodes.push n
    byId := g.byId.insert n.id index
    anchors := match n.anchor with
      | some anchor =>
        if g.anchors.any fun a => a.1 == (n.document, anchor) then g.anchors
        else g.anchors ++ [((n.document, anchor), index)]
      | none => g.anchors }

/-- Loading steps: they extend the graph or fail. -/
abbrev Load := StateT Graph (Except SchemaError)

def fail {α : Type} (e : SchemaError) : Load α := throw e

def place (n : Node) : Load Nat := do
  let g ← get
  set (g.push n)
  return g.size

/-- The texts among the items of an array. -/
def texts : Option Json → List String
  | some (.array items) => items.filterMap Json.asString?
  | _ => []

/-- The keywords of a schema that hold no schemas. -/
def readKeywords (document : String) (pointer : Pointer) (schema : Json) (members : Assoc Json) :
    Except SchemaError Node := do
  let id := Node.qualify document pointer
  let parseError (f : DocumentFault) := SchemaError.parse document f none
  let reference ← match members.get? "$ref" with
    | none => pure none
    | some (.string raw) => pure (some { raw : Reference })
    | some _ => throw (parseError (.referenceNotText id))
  let enumValues ← match members.get? "enum" with
    | none => pure none
    | some (.array values) => pure (some values)
    | some _ => throw (parseError (.enumNotArray id))
  return {
    document, pointer, schema, reference, enumValues
    title := (members.get? "title").bind Json.asString?
    description := (members.get? "description").bind Json.asString?
    anchor := ((members.get? "$id").bind Json.asString?).bind fun s =>
      match s.toList with
      | '#' :: rest => some (String.ofList rest)
      | _ => none
    required := Assoc.keys (Assoc.ofList ((texts (members.get? "required")).map fun k => (k, ())))
    enumDescriptions := texts (members.get? "enumDescriptions")
    constant := members.get? "const" }

/-- The declared type: a name, or a list of one name. -/
def readDeclaredType (id : String) (members : Assoc Json) :
    Except SchemaError (Option String) :=
  match members.get? "type" with
  | none => .ok none
  | some (.string s) => .ok (some s)
  | some (.array [v]) => .ok v.asString?
  | some v => .error (.unsupported (.typeDeclaration v) id)

/-- The kind of a node whose children are known. -/
def kindOf (n : Node) (declared : Option String) : Except SchemaError NodeKind :=
  if n.reference.isSome then .ok .ref
  else if !n.allOf.isEmpty || !n.oneOf.isEmpty || !n.anyOf.isEmpty then .ok .composition
  else if n.constant.isSome then .ok .constant
  else if n.enumValues.isSome then .ok .enumeration
  else match declared with
    | some "object" => .ok .object
    | some "array" => .ok .array
    | some other =>
      match [Primitive.string, .integer, .number, .boolean, .null].find?
          fun p => p.word == other with
      | some p => .ok (.primitive p)
      | none => .error (.unsupported (.typeName other) n.id)
    | none =>
      if !n.properties.isEmpty || n.additional.isSome then .ok .object
      else if n.items.isSome then .ok .array
      else .ok .any

/-- Visits the schemas that are the values of an object, below a keyword. -/
def visitMembers (visit : Pointer → Json → Load Nat) (pointer : Pointer) (keyword : String) :
    Option Json → Load (Assoc Nat)
  | some (.object members) =>
    members.mapM fun p => do return (p.1, ← visit (pointer ++ [keyword, p.1]) p.2)
  | _ => return []

/-- Visits the schemas in the array of a composition keyword. -/
def visitBranches (visit : Pointer → Json → Load Nat) (document : String) (pointer : Pointer)
    (keyword : String) : Option Json → Load (List Nat)
  | some (.array schemas) =>
    schemas.zipIdx.mapM fun p => visit (pointer ++ [keyword, toString p.2]) p.1
  | some _ =>
    fail (.parse document (.branchesNotArray keyword (Node.qualify document pointer)) none)
  | none => return []

/-- Visits the schema of array items; anything but a schema there says nothing. -/
def visitItems (visit : Pointer → Json → Load Nat) (pointer : Pointer) :
    Option Json → Load (Option Nat)
  | some (.object members) => some <$> visit (pointer ++ ["items"]) (.object members)
  | some (.bool b) => some <$> visit (pointer ++ ["items"]) (.bool b)
  | _ => return none

/-- Visits the schema of further members; without one, the schemas of key patterns, of which the
first stands for all. -/
def visitAdditional (visit : Pointer → Json → Load Nat) (pointer : Pointer)
    (members : Assoc Json) : Load (Option Nat) := do
  match members.get? "additionalProperties" with
  | some (.object schema) => some <$> visit (pointer ++ ["additionalProperties"]) (.object schema)
  | _ =>
    let patterns ←
      visitMembers visit pointer "patternProperties" (members.get? "patternProperties")
    return patterns.head?.map Prod.snd

/-- Places the schemas inside a schema, then the schema, whose keywords are given. -/
def visitKeywords (visit : Pointer → Json → Load Nat) (document : String) (pointer : Pointer)
    (schema : Json) (members : Assoc Json) : Load Nat := do
  let keywords ← readKeywords document pointer schema members
  let declared ← readDeclaredType (Node.qualify document pointer) members
  let _ ← visitMembers visit pointer "definitions" (members.get? "definitions")
  let _ ← visitMembers visit pointer "$defs" (members.get? "$defs")
  let properties ← visitMembers visit pointer "properties" (members.get? "properties")
  let items ← visitItems visit pointer (members.get? "items")
  let additional ← visitAdditional visit pointer members
  let branches (keyword : String) :=
    visitBranches visit document pointer keyword (members.get? keyword)
  let allOf ← branches "allOf"
  let oneOf ← branches "oneOf"
  let anyOf ← branches "anyOf"
  let n := { keywords with properties, items, additional, allOf, oneOf, anyOf }
  place { n with kind := ← kindOf n declared }

/-- Places a schema and the schemas inside it; a schema that is true or false says nothing. -/
def visit (document : String) : (depth : Nat) → Pointer → Json → Load Nat
  | depth + 1, pointer, .object members =>
    visitKeywords (visit document depth) document pointer (.object members) members
  | depth + 1, pointer, .bool b =>
    visitKeywords (visit document depth) document pointer (.bool b) []
  | _, pointer, v =>
    fail (.parse document (.notASchema (Node.qualify document pointer) v.kind) none)

/-- The part of a text before the first mark and the part after it. -/
def splitAtMark (mark : Char) (s : List Char) : List Char × Option (List Char) :=
  match s.dropWhile (· != mark) with
  | [] => (s, none)
  | _ :: rest => (s.takeWhile (· != mark), some rest)

/-- The part after the last slash, and the part before it if there is one. -/
def splitDirectory (path : String) : Option String × String :=
  let reversed := path.toList.reverse
  let base := String.ofList (reversed.takeWhile (· != '/')).reverse
  match reversed.dropWhile (· != '/') with
  | [] => (none, base)
  | _ :: directory => (some (String.ofList directory.reverse), base)

/-- Drops every leading `./`. -/
def dropDotSlashes : List Char → List Char
  | '.' :: '/' :: rest => dropDotSlashes rest
  | s => s

/-- The document that a name means inside a document: the one of that name, else the one beside the
document, else the only one whose last path segment is that of the name. -/
def resolveDocument (g : Graph) (source name : String) : Option String :=
  let beside := (splitDirectory source).1.map fun directory =>
    directory ++ "/" ++ String.ofList (dropDotSlashes name.toList)
  if g.roots.contains name then some name
  else match beside.filter fun path => g.roots.contains path with
    | some path => some path
    | none =>
      match g.roots.keys.filter fun d => (splitDirectory d).2 == (splitDirectory name).2 with
      | [d] => some d
      | _ => none

/-- The node that a reference means inside a document: a root, a pointer or an anchor, which without
a document name may stand in any document. -/
def resolve (g : Graph) (document reference : String) : Option Nat := do
  let (name, fragment) := splitAtMark '#' reference.toList
  let fragment := fragment.getD []
  let target ←
    if name.isEmpty then pure document else g.resolveDocument document (String.ofList name)
  match fragment with
  | [] => g.roots.get? target
  | '/' :: _ => g.get? (target ++ "#" ++ String.ofList fragment)
  | _ =>
    let anchor := String.ofList fragment
    match g.anchors.find? fun a => a.1 == (target, anchor) with
    | some a => some a.2
    | none =>
      if name.isEmpty then (g.anchors.find? fun a => a.1.2 == anchor).map Prod.snd else none

/-- Enters the target of a node's reference. -/
def link (g : Graph) (n : Node) : Except SchemaError Node :=
  match n.reference with
  | none => .ok n
  | some r =>
    match g.resolve n.document r.raw with
    | some target => .ok { n with reference := some { r with target := some target } }
    | none => .error (.unresolvedReference r.raw n.id)

/-- Reads a document and places its schemas. -/
def loadDocument (name text : String) : Load Unit := do
  let bytes := text.toUTF8.toList
  match Json.parseBytes bytes with
  | .error e => fail (.ofJson name bytes e)
  | .ok v =>
    let root ← visit name (v.depth + 1) [] v
    modify fun g => { g with roots := g.roots.insert name root }

/-- Reads the documents in the order of their names and resolves every reference. -/
def load (b : Bundle) : Except SchemaError Graph := do
  let (_, g) ← (b.documents.forM fun p => loadDocument p.1 p.2).run {}
  let nodes ← g.nodes.mapM g.link
  return { g with nodes }

/-- The target of a node's reference. -/
def refTarget? (g : Graph) (index : Nat) : Option Nat :=
  (g.node? index).bind fun n => n.reference.bind Reference.target

/-- Follows references; `seen` holds the nodes that were left on the way. At a node that was left
before, the chain runs in a circle. No answer is given if the steps are used up. -/
def followFrom (g : Graph) : (steps : Nat) → (seen : List Nat) → Nat → Option (Option Nat)
  | 0, _, _ => none
  | steps + 1, seen, index =>
    match g.refTarget? index with
    | none => some (some index)
    | some target =>
      if index ∈ seen then some none else g.followFrom steps (index :: seen) target

/-- The node at the end of the chain of references from a node; none if the chain comes to a
circle. -/
def followRefs (g : Graph) (index : Nat) : Option Nat :=
  (g.followFrom (g.size + 1) [] index).join

end Graph

end TypedArchive
