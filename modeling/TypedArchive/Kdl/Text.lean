import TypedArchive.Kdl.Space

/-! Strings of KDL: bare words, quoted strings and raw strings, on one line or several. -/

namespace TypedArchive.Kdl

/-- Characters of bare words and numbers. -/
def isWordChar (c : Char) : Bool :=
  !(['\\', '/', '(', ')', '\x7b', '\x7d', ';', '[', ']', '"', '#', '='].contains c ||
    isSpace c || isNewline c || isForbidden c)

/-- Words that would be mistaken for keywords. -/
def keywordWords : List String := ["true", "false", "null", "inf", "-inf", "nan"]

/-- Whether a word begins as a number does: a sign or a point at most, then a digit. -/
def beginsNumber (word : List Char) : Bool :=
  let unsigned := match word with
    | '+' :: rest | '-' :: rest => rest
    | _ => word
  match unsigned with
  | '.' :: c :: _ => c.isDigit
  | c :: _ => c.isDigit
  | [] => false

def hexValue? (c : Char) : Option Nat :=
  if c.isDigit then some (c.toNat - 48)
  else if 'a' ≤ c ∧ c ≤ 'f' then some (c.toNat - 87)
  else if 'A' ≤ c ∧ c ≤ 'F' then some (c.toNat - 55)
  else none

/-- The character with a code of one to six hexadecimal digits. -/
def charOfHex? (digits : List Char) : Option Char :=
  if digits.isEmpty ∨ 6 < digits.length then none
  else
    match digits.foldlM (fun n c => (hexValue? c).map fun d => 16 * n + d) 0 with
    | some n => if h : n.isValidChar then some (Char.ofNatAux n h) else none
    | none => none

/-- A character of a string, and whether it stands there as itself. -/
structure Letter where
  char : Char
  plain : Bool

/-- What a backslash and the text after it stand for: a character, or nothing if blanks are
swallowed; and the rest. -/
def unescape? : List Char → Option (Option Char × List Char)
  | '"' :: rest => some (some '"', rest)
  | '\\' :: rest => some (some '\\', rest)
  | 'b' :: rest => some (some '\x08', rest)
  | 'f' :: rest => some (some '\x0c', rest)
  | 'n' :: rest => some (some '\n', rest)
  | 'r' :: rest => some (some '\r', rest)
  | 't' :: rest => some (some '\t', rest)
  | 's' :: rest => some (some ' ', rest)
  | 'u' :: '\x7b' :: rest =>
    match rest.dropWhile (· != '\x7d') with
    | _ :: after => (charOfHex? (rest.takeWhile (· != '\x7d'))).map fun c => (some c, after)
    | [] => none
  | c :: rest =>
    if isSpace c || isNewline c then
      some (none, rest.dropWhile fun c => isSpace c || isNewline c)
    else none
  | [] => none

/-- The closing marks of a string and the rest after them, if the text begins with them. -/
def afterMarks? (marks cs : List Char) : Option (List Char) :=
  if marks.isPrefixOf cs then some (cs.drop marks.length) else none

/-- The letters up to the closing marks, with the rest after those. In a raw string a backslash is
a plain character. A line end that stands as itself becomes a line feed. -/
def letters? (raw : Bool) (marks : List Char) :
    (budget : Nat) → List Char → Option (List Letter × List Char)
  | 0, _ => none
  | budget + 1, cs =>
    match afterMarks? marks cs with
    | some rest => some ([], rest)
    | none =>
      match afterNewline? cs with
      | some rest => (letters? raw marks budget rest).map fun (ls, r) => (⟨'\n', true⟩ :: ls, r)
      | none =>
        match cs with
        | [] => none
        | c :: rest =>
          if c = '\\' ∧ !raw then
            match unescape? rest with
            | none => none
            | some (c?, rest) => (letters? raw marks budget rest).map fun (ls, r) =>
                ((c?.map fun c => Letter.mk c false).toList ++ ls, r)
          else if isForbidden c then none
          else (letters? raw marks budget rest).map fun (ls, r) => (⟨c, true⟩ :: ls, r)

/-- Whether a letter ends a line. -/
def Letter.endsLine (l : Letter) : Bool := l.plain && l.char == '\n'

/-- The lines of a string over several lines. -/
def letterLines : List Letter → List (List Letter)
  | [] => [[]]
  | l :: rest =>
    if l.endsLine then [] :: letterLines rest
    else
      match letterLines rest with
      | line :: more => (l :: line) :: more
      | [] => [[l]]

def isBlankLine (line : List Letter) : Bool := line.all fun l => l.plain && isSpace l.char

/-- A line without the indentation of the closing marks; a blank line is left empty. -/
def unindent? (indentation line : List Letter) : Option (List Char) :=
  if isBlankLine line then some []
  else
    let start := line.take indentation.length
    if start.all (·.plain) && start.map (·.char) == indentation.map (·.char) then
      some ((line.drop indentation.length).map (·.char))
    else none

/-- The text of a string over several lines. -/
def multiline? (letters : List Letter) : Option (List Char) :=
  let lines := letterLines letters
  match lines.getLast? with
  | none => none
  | some indentation =>
    if isBlankLine indentation then
      (lines.dropLast.mapM (unindent? indentation)).map fun ls => ['\n'].intercalate ls
    else none

/-- The text after the opening quote or quotes, which `marks` follow in a raw string. -/
def stringBody? (raw : Bool) (marks cs : List Char) : Option (String × List Char) :=
  match cs with
  | '"' :: '"' :: rest =>
    match afterNewline? rest with
    | some body =>
      match letters? raw (['"', '"', '"'] ++ marks) (body.length + 1) body with
      | some (ls, rest) => (multiline? ls).map fun text => (String.ofList text, rest)
      | none => none
    | none => oneLine cs
  | _ => oneLine cs
where
  /-- A string on one line. -/
  oneLine (cs : List Char) : Option (String × List Char) :=
    match letters? raw ('"' :: marks) (cs.length + 1) cs with
    | some (ls, rest) =>
      if ls.any Letter.endsLine then none else some (String.ofList (ls.map (·.char)), rest)
    | none => none

/-- A string that begins with a quote or with number signs. -/
def quotedString? (cs : List Char) : Option (String × List Char) :=
  let marks := cs.takeWhile (· == '#')
  match cs.dropWhile (· == '#') with
  | '"' :: body => stringBody? (!marks.isEmpty) marks body
  | _ => none

/-- A string of any form. -/
def string? (cs : List Char) : Option (String × List Char) :=
  match cs with
  | '"' :: _ | '#' :: _ => quotedString? cs
  | _ =>
    let word := cs.takeWhile isWordChar
    if word.isEmpty || beginsNumber word || keywordWords.contains (String.ofList word) then none
    else some (String.ofList word, cs.dropWhile isWordChar)

end TypedArchive.Kdl
