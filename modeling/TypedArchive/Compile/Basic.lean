import TypedArchive.Compile.Check
import TypedArchive.Compile.Union

/-! Compiling a schema graph into a type catalog. -/

namespace TypedArchive

/-- The catalog of all types of a graph: entries first, then unions, then the checks. -/
def Graph.compile (g : Graph) : Except SchemaError Catalog := do
  let (_, s) ← (Compile.buildEntries g).run {}
  let catalog ← Compile.finishUnions g s.catalog s.pending
  catalog.validate
  return catalog

/-- Loads a bundle and compiles it. -/
def Bundle.compile (b : Bundle) : Except SchemaError Catalog := do (← Graph.load b).compile

end TypedArchive
