import TypedArchive.Kdl.Basic
import TypedArchive.Kdl.Number

/-! Reading KDL documents. -/

namespace TypedArchive.Kdl

/-- The value of a keyword without its number sign. -/
def keyword? (word : String) : Option Value :=
  match word with
  | "true" => some (.boolean true)
  | "false" => some (.boolean false)
  | "null" => some .null
  | "inf" | "-inf" | "nan" => some (.number word)
  | _ => none

/-- The rest of a text after a type in parentheses, if it begins with one. -/
def skipType? (cs : List Char) : Option (List Char) :=
  match cs with
  | '(' :: rest => do
    let (_, rest) ← string? (← skipInNode rest)
    match ← skipInNode rest with
    | ')' :: rest => skipInNode rest
    | _ => none
  | _ => some cs

/-- A value without its type. -/
def bareValue? (cs : List Char) : Option (Value × List Char) :=
  match cs with
  | '#' :: rest =>
    match rest with
    | '"' :: _ | '#' :: _ => (quotedString? cs).map fun (s, rest) => (.text s, rest)
    | _ => (keyword? (String.ofList (rest.takeWhile isWordChar))).map fun v =>
        (v, rest.dropWhile isWordChar)
  | _ =>
    let word := cs.takeWhile isWordChar
    if beginsNumber word then
      if isNumber word then some (.number (String.ofList word), cs.dropWhile isWordChar) else none
    else (string? cs).map fun (s, rest) => (.text s, rest)

def value? (cs : List Char) : Option (Value × List Char) :=
  (skipType? cs).bind bareValue?

/-- An argument or property. -/
def entry? (cs : List Char) : Option (Entry × List Char) := do
  let (v, rest) ← value? cs
  match v, cs with
  | _, '(' :: _ => return (⟨none, v⟩, rest)
  | .text key, _ =>
    match ← skipInNode rest with
    | '=' :: rest =>
      let (v, rest) ← value? (← skipInNode rest)
      return (⟨some key, v⟩, rest)
    | _ => return (⟨none, v⟩, rest)
  | _, _ => return (⟨none, v⟩, rest)

/-- What a node holds besides its name. -/
structure Content where
  entries : List Entry := []
  children : Option (List Node) := none
  /-- Whether braces were met: then no more entries follow. -/
  closed : Bool := false

/-- The rest of a text after the end of a node; before a closing brace none is needed. -/
def afterTerminator? (inBraces : Bool) (cs : List Char) : Option (List Char) :=
  match cs with
  | [] => some []
  | ';' :: rest => some rest
  | '/' :: '/' :: rest => some (afterLine rest)
  | '\x7d' :: _ => if inBraces then some cs else none
  | _ => afterNewline? cs

/-- Whether a text goes on with what ends a node. -/
def atEnd (cs : List Char) : Bool :=
  match cs with
  | [] | ';' :: _ | '\x7d' :: _ | '/' :: '/' :: _ => true
  | c :: _ => isNewline c

mutual

/-- Nodes up to the end of the text or, in braces, up to the closing brace. -/
def nodes? (inBraces : Bool) : (budget : Nat) → List Char → Option (List Node × List Char)
  | 0, _ => none
  | budget + 1, cs =>
    match skipLines cs with
    | none => none
    | some [] => if inBraces then none else some ([], [])
    | some ('\x7d' :: rest) => if inBraces then some ([], rest) else none
    | some ('/' :: '-' :: rest) =>
      match (skipLines rest).bind (node? inBraces budget) with
      | none => none
      | some (_, rest) => nodes? inBraces budget rest
    | some cs =>
      match node? inBraces budget cs with
      | none => none
      | some (node, rest) =>
        match nodes? inBraces budget rest with
        | none => none
        | some (more, rest) => some (node :: more, rest)

/-- A node and its end. -/
def node? (inBraces : Bool) : (budget : Nat) → List Char → Option (Node × List Char)
  | 0, _ => none
  | budget + 1, cs =>
    match (skipType? cs).bind string? with
    | none => none
    | some (name, rest) =>
      match content? budget {} rest with
      | none => none
      | some (content, rest) =>
        (afterTerminator? inBraces rest).map fun rest =>
          (⟨name, content.entries, content.children⟩, rest)

/-- The rest of a node up to its end. -/
def content? : (budget : Nat) → Content → List Char → Option (Content × List Char)
  | 0, _, _ => none
  | budget + 1, content, cs =>
    match skipInNode cs with
    | none => none
    | some rest =>
      if atEnd rest then some (content, rest)
      else match rest with
        | '\x7b' :: inner =>
          if content.children.isSome then none
          else match nodes? true budget inner with
            | none => none
            | some (children, rest) =>
              content? budget { content with children := some children, closed := true } rest
        | '/' :: '-' :: hidden =>
          match skipLines hidden with
          | none => none
          | some ('\x7b' :: inner) =>
            match nodes? true budget inner with
            | none => none
            | some (_, rest) => content? budget { content with closed := true } rest
          | some hidden =>
            if content.closed then none
            else match entry? hidden with
              | none => none
              | some (_, rest) => content? budget content rest
        | _ =>
          if content.closed ∨ rest.length = cs.length then none
          else match entry? rest with
            | none => none
            | some (e, rest) =>
              content? budget { content with entries := content.entries ++ [e] } rest

end

/-- Reads a document, whose first character may be a byte order mark. -/
def parse? (text : String) : Option (List Node) :=
  let cs := match text.toList with
    | '\ufeff' :: rest => rest
    | cs => cs
  (nodes? false (2 * cs.length + 2) cs).map (·.1)

end TypedArchive.Kdl
