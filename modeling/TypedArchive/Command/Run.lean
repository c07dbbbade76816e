import TypedArchive.Command.Arguments
import TypedArchive.Command.Config
import TypedArchive.Compile.Basic
import TypedArchive.Emit.Basic

/-! A run of the generator: schema documents in, bindings and perhaps the catalog out. -/

namespace TypedArchive.Command

/-- How a run ends. -/
inductive Outcome where
  | success
  /-- Something failed; an error says what, unless an argument is missing. -/
  | failure (error : Option SchemaError)
  | misuse
  deriving DecidableEq, Repr

def Outcome.exitCode : Outcome → Nat
  | success => 0
  | failure _ => 1
  | misuse => 2

/-- A step of a run: a failure may have an error that says what failed. -/
abbrev Step (m : Type → Type) := ExceptT (Option SchemaError) m

variable {m : Type → Type} [Monad m]

def Step.ofExcept {α : Type} (r : Except SchemaError α) : Step m α :=
  ExceptT.mk (pure (r.mapError some))

/-- A step that touches files. -/
def Step.lift {α : Type} (action : m (Except SchemaError α)) : Step m α :=
  ExceptT.mk do return (← action).mapError some

/-- A setting that has to be given in some way. -/
def Step.require {α : Type} (a : Option α) : Step m α :=
  match a with
  | some a => pure a
  | none => throw none

/-- The catalog as a file. -/
def catalogText (c : Catalog) : String := c.toJson.renderIndented 0

/-- Reads the schema documents, compiles them and writes the results. The configuration fills in
what the arguments leave open; the catalog is written before the bindings. -/
def generate (store : FileStore m) (a : Arguments) : Step m Unit := do
  let config ← match a.config with
    | some path => do pure (some (← Step.lift (Config.load store path)))
    | none => pure none
  let input ← Step.require (a.input <|> config.map (·.schemas))
  let output ← Step.require (a.output <|> config.map (·.output))
  let bundle ← Step.lift (Bundle.load store input)
  let catalog ← Step.ofExcept bundle.compile
  if let some path := a.catalog <|> config.bind (·.catalog) then
    Step.lift (store.write path (FileStore.bytesOf (catalogText catalog)))
  let runtime ← match config.bind (·.runtime) with
    | some path => Step.ofExcept (Emit.runtimePath path)
    | none => pure Emit.defaultRuntime
  let items ← Step.ofExcept (catalog.allItems runtime)
  let source ← Step.ofExcept (Emit.sourceText runtime items)
  let directory := Files.parent output
  if !directory.isEmpty then Step.lift (store.makeDirectories directory)
  Step.lift (store.write output (FileStore.bytesOf source))

/-- Does what the words of a command line ask for. -/
def run (store : FileStore m) (words : List String) : m Outcome :=
  match Request.ofWords words with
  | .information => pure .success
  | .misuse => pure .misuse
  | .run a => do
    match ← (generate store a).run with
    | .ok _ => return .success
    | .error e => return .failure e

end TypedArchive.Command
