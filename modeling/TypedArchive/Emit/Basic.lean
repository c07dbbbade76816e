import TypedArchive.Emit.Items
import TypedArchive.Emit.Source
import TypedArchive.Emit.Token

/-! Bindings for a catalog: the items of all its entries, as tokens or as a source file. -/

namespace TypedArchive

namespace Emit

/-- Where emitted code finds its runtime unless told otherwise. -/
def defaultRuntime : CodePath := ⟨true, [{ name := "sketch_schema" }]⟩

/-- The runtime path of a configuration. -/
def runtimePath (s : String) : Except SchemaError CodePath :=
  match CodePath.parse? s with
  | some p => .ok p
  | none => .error (.emit "<config>" ("invalid runtime crate path \x60" ++ s ++ "\x60"))

/-- The text of the tokens of items. -/
def tokenText (items : List Item) : String := renderTokens (items.flatMap Item.tokens)

def Item.isImplementation : Item → Bool
  | .implementation .. => true
  | _ => false

/-- The source file that holds items for a runtime. Implementations mention the runtime both in
types and in expressions. -/
def sourceText (runtime : CodePath) (items : List Item) : Except SchemaError String :=
  if items.any Item.isImplementation && !runtime.isVersatile then
    .error (.emit "<output>" "generated tokens do not form a valid Rust file")
  else .ok (renderSource items)

end Emit

/-- The items of all entries, in key order. -/
def Catalog.allItems (c : Catalog) (runtime : Emit.CodePath) :
    Except SchemaError (List Emit.Item) := do
  let items ← c.entries.mapM fun (_, e) => c.items runtime e
  return items.flatten

end TypedArchive
