import TypedArchive.Text.Comment

/-! Characters of KDL, and the blanks, comments and line ends between its tokens. -/

namespace TypedArchive.Kdl

/-- Line ends other than the pair of carriage return and line feed, which is one line end. -/
def isNewline (c : Char) : Bool :=
  [0xA, 0xB, 0xC, 0xD, 0x85, 0x2028, 0x2029].contains c.toNat

def isSpace (c : Char) : Bool := Text.isBlank c && !isNewline c

/-- Characters that may stand in a document in escaped form only. -/
def isForbidden (c : Char) : Bool :=
  [(0x0, 0x8), (0xE, 0x1F), (0x7F, 0x7F), (0x200E, 0x200F), (0x202A, 0x202E), (0x2066, 0x2069),
    (0xFEFF, 0xFEFF)].any fun r => r.1 ≤ c.toNat && c.toNat ≤ r.2

/-- The rest of a text after the line end that it begins with. -/
def afterNewline? : List Char → Option (List Char)
  | '\r' :: '\n' :: rest => some rest
  | c :: rest => if isNewline c then some rest else none
  | [] => none

/-- The rest of a text after its first line. -/
def afterLine : List Char → List Char
  | [] => []
  | '\r' :: '\n' :: rest => rest
  | c :: rest => if isNewline c then rest else afterLine rest

/-- The rest of a text after spaces and block comments; none if a comment does not end. -/
def skipSpaces : (budget : Nat) → List Char → Option (List Char)
  | 0, cs => some cs
  | budget + 1, cs =>
    match cs with
    | '/' :: '*' :: rest => (Text.afterComment 1 rest).bind (skipSpaces budget)
    | c :: rest => if isSpace c then skipSpaces budget rest else some cs
    | [] => some []

/-- The rest of a text after the backslash that continues a line and the end of that line. -/
def afterContinuation? (cs : List Char) : Option (List Char) :=
  match skipSpaces cs.length cs with
  | some [] => some []
  | some ('/' :: '/' :: rest) => some (afterLine rest)
  | some rest => afterNewline? rest
  | none => none

/-- The rest of a text after the blanks and comments within a node, or between nodes; none if one
of them does not end. -/
def skipBlanks (betweenNodes : Bool) : (budget : Nat) → List Char → Option (List Char)
  | 0, cs => some cs
  | budget + 1, cs =>
    match cs with
    | [] => some []
    | '/' :: '*' :: rest => (Text.afterComment 1 rest).bind (skipBlanks betweenNodes budget)
    | '\\' :: rest => (afterContinuation? rest).bind (skipBlanks betweenNodes budget)
    | '/' :: '/' :: rest =>
      if betweenNodes then skipBlanks betweenNodes budget (afterLine rest) else some cs
    | c :: rest =>
      if isSpace c || betweenNodes && isNewline c then skipBlanks betweenNodes budget rest
      else some cs

/-- Skips blanks within a node. -/
def skipInNode (cs : List Char) : Option (List Char) := skipBlanks false cs.length cs

/-- Skips blanks between nodes. -/
def skipLines (cs : List Char) : Option (List Char) := skipBlanks true cs.length cs

end TypedArchive.Kdl
