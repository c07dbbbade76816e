import TypedArchive.Schema.Node
import TypedArchive.Text.Casing

/-! Names of catalog entries: ASCII identifiers that start with no digit, each given out once. -/

namespace TypedArchive.TypeName

/-- Whether a character may stand in a type name. -/
def allowed (c : Char) : Bool := c.isAlphanum || c == '_'

/-- The type name nearest to a text: other characters are dropped. -/
def sanitize (name : String) : String :=
  match name.toList.filter allowed with
  | [] => "Unnamed"
  | c :: rest =>
    let cleaned := String.ofList (c :: rest)
    if c.isDigit then "T" ++ cleaned
    else if cleaned = "Self" then "SelfType"
    else cleaned

def dropEnd (suffix text : List Char) : List Char :=
  if suffix.isSuffixOf text then text.take (text.length - suffix.length) else text

/-- The last segment of a document's path without `.json` and then without `.schema`. -/
def documentStem (document : String) : String :=
  let base := (document.toList.reverse.takeWhile (· != '/')).reverse
  String.ofList (dropEnd ".schema".toList (dropEnd ".json".toList base))

/-- The name that a node asks for: its anchor, else its title, else its key, else its document. -/
def preferred (n : Node) : String :=
  let raw := n.anchor <|> n.title <|> n.pointerName
  sanitize (Text.pascalCase (raw.getD (documentStem n.document)))

/-- The first of `base2`, `base3`, … from a suffix on that is not taken. -/
def numbered (taken : List String) (base : String) : (tries suffix : Nat) → String
  | 0, suffix => base ++ toString suffix
  | tries + 1, suffix =>
    let candidate := base ++ toString suffix
    if candidate ∈ taken then numbered taken base tries (suffix + 1) else candidate

/-- The name itself if it is free, else the first free numbered one. -/
def firstFree (taken : List String) (base : String) : String :=
  if base ∈ taken then numbered taken base taken.length 2 else base

end TypedArchive.TypeName
