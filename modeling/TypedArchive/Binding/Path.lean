/-! The place of a value inside a JSON document. -/

namespace TypedArchive

inductive Segment where
  | key (name : String)
  | index (i : Nat)
  deriving DecidableEq, Repr

/-- The keys and indices from the document down to a value. -/
abbrev FieldPath := List Segment

def Segment.text : Segment → String
  | .key name => "." ++ name
  | .index i => "[" ++ toString i ++ "]"

namespace FieldPath

def push (p : FieldPath) (s : Segment) : FieldPath := p ++ [s]

def pushKey (p : FieldPath) (name : String) : FieldPath := p ++ [.key name]

def pushIndex (p : FieldPath) (i : Nat) : FieldPath := p ++ [.index i]

def pop (p : FieldPath) : FieldPath := p.dropLast

/-- The document is `$`, a member `.key` and an item `[index]`. -/
def text (p : FieldPath) : String := "$" ++ String.join (p.map Segment.text)

end FieldPath

end TypedArchive
