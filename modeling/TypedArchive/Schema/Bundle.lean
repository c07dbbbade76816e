import TypedArchive.Assoc

/-! The documents given to the compiler. References between documents use their names. -/

namespace TypedArchive

/-- Document texts by name. -/
structure Bundle where
  documents : Assoc String := []
  deriving DecidableEq, Repr

namespace Bundle

/-- Adds a document; one of the same name is replaced. -/
def insert (b : Bundle) (name text : String) : Bundle := ⟨b.documents.insert name text⟩

def ofList (pairs : List (String × String)) : Bundle := ⟨Assoc.ofList pairs⟩

def get? (b : Bundle) (name : String) : Option String := b.documents.get? name

def size (b : Bundle) : Nat := b.documents.length

end Bundle

end TypedArchive
