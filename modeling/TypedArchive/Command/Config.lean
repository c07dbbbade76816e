import TypedArchive.Files.Store
import TypedArchive.Kdl.Parser

/-! The configuration of the generator: a KDL document with one `codegen` block. -/

namespace TypedArchive.Command

structure Config where
  /-- The directory with the schema documents. -/
  schemas : String
  /-- The file that gets the bindings. -/
  output : String
  /-- The file that gets the catalog. -/
  catalog : Option String
  runtime : Option String
  deriving DecidableEq, Repr

/-- What can be wrong with a configuration. -/
inductive ConfigFault where
  | notKdl
  | unknownNode (name : String)
  | repeatedBlock
  | noBlock
  | noChildren
  | noText (name : String)
  | unknownField (name : String)
  | noSchemas
  | noOutput
  deriving DecidableEq, Repr

def ConfigFault.message : ConfigFault → String
  | .notKdl => "failed to parse KDL: Failed to parse KDL document"
  | .unknownNode name => "unknown config node: " ++ name
  | .repeatedBlock => "multiple codegen blocks found"
  | .noBlock => "missing codegen block"
  | .noChildren => "codegen block has no children"
  | .noText name => name ++ " expects a string value"
  | .unknownField name => "unknown codegen field: " ++ name
  | .noSchemas => "missing schemas directory"
  | .noOutput => "missing output file"

namespace Config

/-- The only node of a document, which is the block. -/
def block (found : Option Kdl.Node) : List Kdl.Node → Except ConfigFault Kdl.Node
  | [] =>
    match found with
    | some node => .ok node
    | none => .error .noBlock
  | node :: rest =>
    if node.name = "codegen" then
      if found.isSome then .error .repeatedBlock else block (some node) rest
    else .error (.unknownNode node.name)

/-- The settings of a block so far. -/
structure Draft where
  schemas : Option String := none
  output : Option String := none
  catalog : Option String := none
  runtime : Option String := none

/-- Takes a setting over; a later one replaces an earlier one. -/
def Draft.add (d : Draft) (node : Kdl.Node) : Except ConfigFault Draft :=
  match node.entries.head?.bind fun e => e.value.asText? with
  | none => .error (.noText node.name)
  | some s =>
    match node.name with
    | "schemas" => .ok { d with schemas := some s }
    | "output" => .ok { d with output := some s }
    | "catalog" => .ok { d with catalog := some s }
    | "runtime-crate" => .ok { d with runtime := some s }
    | other => .error (.unknownField other)

def Draft.finish (d : Draft) : Except ConfigFault Config :=
  match d.schemas, d.output with
  | none, _ => .error .noSchemas
  | _, none => .error .noOutput
  | some schemas, some output =>
    .ok { schemas, output, catalog := d.catalog, runtime := d.runtime }

/-- The configuration that a text describes. -/
def ofText (s : String) : Except ConfigFault Config := do
  let nodes ← match Kdl.parse? s with
    | some nodes => .ok nodes
    | none => .error .notKdl
  match (← block none nodes).children with
  | none => .error .noChildren
  | some settings => (← settings.foldlM Draft.add {}).finish

/-- The same, with the path that errors name. -/
def parse (path s : String) : Except SchemaError Config :=
  (ofText s).mapError fun fault => .config path fault.message

/-- The paths as seen from a directory. -/
def relativeTo (directory : String) (c : Config) : Config :=
  { c with
    schemas := Files.join directory c.schemas
    output := Files.join directory c.output
    catalog := c.catalog.map (Files.join directory) }

/-- Reads a file; its paths are seen from its own directory. -/
def load {m : Type → Type} [Monad m] (store : FileStore m) (path : String) :
    m (Except SchemaError Config) := do
  match ← store.read path with
  | .error e => return .error e
  | .ok content =>
    return do
      let config ← parse path (← FileStore.textOf content)
      return config.relativeTo (Files.parent path)

end Config

end TypedArchive.Command
