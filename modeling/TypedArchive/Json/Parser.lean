import TypedArchive.Json.NumberText
import TypedArchive.Text.Utf8

/-! Reading JSON text. A fault carries the line, counted from one, and the number of bytes read
on that line. -/

namespace TypedArchive.Json

inductive Fault where
  | eofValue | eofList | eofObject | eofString
  | expectedColon | expectedListEnd | expectedObjectEnd | expectedIdent | expectedValue
  | invalidEscape | invalidNumber | numberOutOfRange | invalidCodePoint | controlCharacter
  | keyMustBeString | loneSurrogate | trailingComma | trailingCharacters | hexEscapeEnd
  | recursionLimit
  deriving DecidableEq, Repr

def Fault.message : Fault → String
  | .eofValue => "EOF while parsing a value"
  | .eofList => "EOF while parsing a list"
  | .eofObject => "EOF while parsing an object"
  | .eofString => "EOF while parsing a string"
  | .expectedColon => "expected \x60:\x60"
  | .expectedListEnd => "expected \x60,\x60 or \x60]\x60"
  | .expectedObjectEnd => "expected \x60,\x60 or \x60\x7d\x60"
  | .expectedIdent => "expected ident"
  | .expectedValue => "expected value"
  | .invalidEscape => "invalid escape"
  | .invalidNumber => "invalid number"
  | .numberOutOfRange => "number out of range"
  | .invalidCodePoint => "invalid unicode code point"
  | .controlCharacter => "control character (\\u0000-\\u001F) found while parsing a string"
  | .keyMustBeString => "key must be a string"
  | .loneSurrogate => "lone leading surrogate in hex escape"
  | .trailingComma => "trailing comma"
  | .trailingCharacters => "trailing characters"
  | .hexEscapeEnd => "unexpected end of hex escape"
  | .recursionLimit => "recursion limit exceeded"

/-- A fault and the place where reading stopped. -/
structure ParseError where
  fault : Fault
  line : Nat
  column : Nat
  deriving DecidableEq, Repr

def ParseError.message (e : ParseError) : String :=
  s!"{e.fault.message} at line {e.line} column {e.column}"

/-- The bytes still to be read and the place reached so far. -/
structure Cursor where
  rest : List UInt8
  line : Nat
  column : Nat

namespace Cursor

def ofBytes (bytes : List UInt8) : Cursor := ⟨bytes, 1, 0⟩

/-- Steps over one byte; a line feed starts a new line. -/
def next : Cursor → Cursor
  | ⟨[], line, column⟩ => ⟨[], line, column⟩
  | ⟨b :: rest, line, column⟩ =>
    if b = 10 then ⟨rest, line + 1, 0⟩ else ⟨rest, line, column + 1⟩

/-- Steps over bytes none of which is a line feed. -/
def skip (c : Cursor) (n : Nat) : Cursor := ⟨c.rest.drop n, c.line, c.column + n⟩

/-- A fault at the place reached. -/
def fault (c : Cursor) (f : Fault) : ParseError := ⟨f, c.line, c.column⟩

/-- A fault at the byte to be read next. -/
def faultAhead (c : Cursor) (f : Fault) : ParseError := c.next.fault f

/-- Steps over the leading blanks of `bytes`. -/
def blanksFrom (line column : Nat) : (bytes : List UInt8) → Cursor
  | [] => ⟨[], line, column⟩
  | b :: rest =>
    if b = 10 then blanksFrom (line + 1) 0 rest
    else if b = 32 ∨ b = 9 ∨ b = 13 then blanksFrom line (column + 1) rest
    else ⟨b :: rest, line, column⟩

def skipBlanks (c : Cursor) : Cursor := blanksFrom c.line c.column c.rest

def isDigit (b : UInt8) : Bool := 48 ≤ b && b ≤ 57

/-- The digits at the front, as numbers. -/
def digits (c : Cursor) : List Nat := (c.rest.takeWhile isDigit).map fun b => b.toNat - 48

def afterDigits (c : Cursor) : Cursor := c.skip (c.rest.takeWhile isDigit).length

end Cursor

def readIdent (c : Cursor) (value : Json) : List UInt8 → Except ParseError (Json × Cursor)
  | [] => .ok (value, c)
  | expected :: more =>
    match c.rest with
    | [] => .error (c.fault .eofValue)
    | b :: _ => if b = expected then readIdent c.next value more
      else .error (c.next.fault .expectedIdent)

/-- The optional exponent of a number, and the fault that its digits alone raise. -/
def readExponent (c : Cursor) : Except ParseError ((Option (Bool × List Nat)) × Cursor) :=
  match c.rest with
  | e :: _ =>
    if e = 101 ∨ e = 69 then
      let afterE := c.next
      let (down, start) := match afterE.rest with
        | 43 :: _ => (false, afterE.next)
        | 45 :: _ => (true, afterE.next)
        | _ => (false, afterE)
      match start.rest with
      | [] => .error (start.fault .eofValue)
      | b :: _ =>
        if Cursor.isDigit b then .ok (some (down, start.digits), start.afterDigits)
        else .error (start.next.fault .invalidNumber)
    else .ok (none, c)
  | [] => .ok (none, c)

def readFraction (c : Cursor) : Except ParseError ((Option (List Nat)) × Cursor) :=
  match c.rest with
  | 46 :: _ =>
    let start := c.next
    match start.digits with
    | [] => match start.rest with
      | [] => .error (start.faultAhead .eofValue)
      | _ => .error (start.faultAhead .invalidNumber)
    | ds => .ok (some ds, start.afterDigits)
  | _ => .ok (none, c)

/-- A number without its sign. -/
def readNumber (negative : Bool) (c : Cursor) : Except ParseError (Json × Cursor) :=
  match c.rest with
  | [] => .error (c.fault .eofValue)
  | b :: _ =>
    if !Cursor.isDigit b then .error (c.next.fault .invalidNumber)
    else
      let first := c.next
      let (whole, afterWhole) :=
        if b = 48 then ([0], first) else (c.digits, c.afterDigits)
      if b = 48 ∧ (first.rest.head?.any Cursor.isDigit) then
        .error (first.faultAhead .invalidNumber)
      else do
        let (fraction, afterFraction) ← readFraction afterWhole
        let (exponent, afterNumber) ← readExponent afterFraction
        match NumberText.evaluate? ⟨negative, whole, fraction, exponent⟩ with
        | some n => .ok (.number n, afterNumber)
        | none =>
          let unread := NumberText.unreadDigits exponent
          .error ⟨.numberOutOfRange, afterNumber.line, afterNumber.column - unread⟩

def hexValue? (b : UInt8) : Option Nat :=
  if 48 ≤ b ∧ b ≤ 57 then some (b.toNat - 48)
  else if 97 ≤ b ∧ b ≤ 102 then some (b.toNat - 87)
  else if 65 ≤ b ∧ b ≤ 70 then some (b.toNat - 55)
  else none

def hexUnit? (a b c d : UInt8) : Option Nat := do
  return ((← hexValue? a) * 16 + (← hexValue? b)) * 256
    + ((← hexValue? c) * 16 + (← hexValue? d))

/-- The bytes of a code point, last byte first. -/
def utf8Reversed (code : Nat) : List UInt8 :=
  (String.singleton (Char.ofNat code)).toUTF8.toList.reverse

def simpleEscape? (b : UInt8) : Option UInt8 :=
  if b = 34 ∨ b = 92 ∨ b = 47 then some b
  else if b = 98 then some 8
  else if b = 102 then some 12
  else if b = 110 then some 10
  else if b = 114 then some 13
  else if b = 116 then some 9
  else none

/-- A fault at the place reached by stepping over `bytes`. -/
def faultAfter (f : Fault) (line column : Nat) : (bytes : List UInt8) → ParseError
  | [] => ⟨f, line, column⟩
  | b :: rest =>
    if b = 10 then faultAfter f (line + 1) 0 rest else faultAfter f line (column + 1) rest

/-- The text up to the closing quote; `read` holds its bytes so far, last byte first. -/
def stringBody (line column : Nat) (read : List UInt8) :
    (bytes : List UInt8) → Except ParseError (String × Cursor)
  | [] => .error ⟨.eofString, line, column⟩
  | 34 :: rest =>
    match String.fromUTF8? ⟨read.reverse.toArray⟩ with
    | some s => .ok (s, ⟨rest, line, column + 1⟩)
    | none => .error ⟨.invalidCodePoint, line, column + 1⟩
  | [92] => .error ⟨.eofString, line, column + 1⟩
  | 92 :: 117 :: a :: b :: c :: d :: rest =>
    match hexUnit? a b c d with
    | none => .error (faultAfter .invalidEscape line (column + 2) [a, b, c, d])
    | some unit =>
      if 0xDC00 ≤ unit ∧ unit ≤ 0xDFFF then .error ⟨.loneSurrogate, line, column + 6⟩
      else if 0xD800 ≤ unit ∧ unit ≤ 0xDBFF then
        match rest with
        | 92 :: 117 :: e :: f :: g :: h :: rest =>
          match hexUnit? e f g h with
          | none => .error (faultAfter .invalidEscape line (column + 8) [e, f, g, h])
          | some low =>
            if 0xDC00 ≤ low ∧ low ≤ 0xDFFF then
              let code := (unit - 0xD800) * 1024 + (low - 0xDC00) + 0x10000
              stringBody line (column + 12) (utf8Reversed code ++ read) rest
            else .error ⟨.loneSurrogate, line, column + 12⟩
        | 92 :: 117 :: short => .error (faultAfter .eofString line (column + 8) short)
        | [92] => .error ⟨.eofString, line, column + 7⟩
        | 92 :: other :: _ => .error (faultAfter .hexEscapeEnd line (column + 7) [other])
        | other :: _ => .error (faultAfter .hexEscapeEnd line (column + 6) [other])
        | [] => .error ⟨.eofString, line, column + 6⟩
      else stringBody line (column + 6) (utf8Reversed unit ++ read) rest
  | 92 :: 117 :: short => .error (faultAfter .eofString line (column + 2) short)
  | 92 :: b :: rest =>
    match simpleEscape? b with
    | some b => stringBody line (column + 2) (b :: read) rest
    | none => .error (faultAfter .invalidEscape line (column + 1) [b])
  | b :: rest =>
    if b < 32 then .error (faultAfter .controlCharacter line column [b])
    else stringBody line (column + 1) (b :: read) rest

/-- A quoted string whose opening quote has been read. Bytes that are no text are reported at the
first of them. -/
def readString (c : Cursor) : Except ParseError (String × Cursor) :=
  match stringBody c.line c.column [] c.rest with
  | .error ⟨.invalidCodePoint, line, _⟩ =>
    .error ⟨.invalidCodePoint, line, c.column + Text.Utf8.validLength none 0 c.rest + 1⟩
  | result => result

/-- The items of a list up to its closing bracket; `read` holds the items so far, last first. -/
def readItems (element : Cursor → Except ParseError (Json × Cursor)) :
    (budget : Nat) → (first : Bool) → List Json → Cursor → Except ParseError (List Json × Cursor)
  | 0, _, _, c => .error (c.fault .eofList)
  | budget + 1, first, read, c => do
    let c := c.skipBlanks
    match c.rest with
    | [] => .error (c.faultAhead .eofList)
    | 93 :: _ => .ok (read.reverse, c.next)
    | b :: _ =>
      if first then
        let (v, c) ← element c
        readItems element budget false (v :: read) c
      else if b = 44 then
        let c := c.next.skipBlanks
        match c.rest with
        | [] => .error (c.faultAhead .eofValue)
        | 93 :: _ => .error (c.faultAhead .trailingComma)
        | _ =>
          let (v, c) ← element c
          readItems element budget false (v :: read) c
      else .error (c.faultAhead .expectedListEnd)

/-- A key, its colon and its value; the cursor stands at the key's opening quote. -/
def readMember (element : Cursor → Except ParseError (Json × Cursor)) (c : Cursor) :
    Except ParseError ((String × Json) × Cursor) := do
  let (key, c) ← readString c.next
  let c := c.skipBlanks
  match c.rest with
  | [] => .error (c.faultAhead .eofObject)
  | b :: _ =>
    if b = 58 then
      let (v, c) ← element c.next
      .ok ((key, v), c)
    else .error (c.faultAhead .expectedColon)

/-- The members of an object up to its closing brace; a repeated key keeps its last value. -/
def readMembers (element : Cursor → Except ParseError (Json × Cursor)) :
    (budget : Nat) → (first : Bool) → Assoc Json → Cursor → Except ParseError (Assoc Json × Cursor)
  | 0, _, _, c => .error (c.fault .eofObject)
  | budget + 1, first, read, c => do
    let c := c.skipBlanks
    match c.rest with
    | [] => .error (c.faultAhead .eofObject)
    | b :: _ =>
      if b = 125 then .ok (read, c.next)
      else if first then
        if b = 34 then
          let ((k, v), c) ← readMember element c
          readMembers element budget false (read.insert k v) c
        else .error (c.faultAhead .keyMustBeString)
      else if b = 44 then
        let c := c.next.skipBlanks
        match c.rest with
        | [] => .error (c.faultAhead .eofValue)
        | b :: _ =>
          if b = 34 then
            let ((k, v), c) ← readMember element c
            readMembers element budget false (read.insert k v) c
          else if b = 125 then .error (c.faultAhead .trailingComma)
          else .error (c.faultAhead .keyMustBeString)
      else .error (c.faultAhead .expectedObjectEnd)

/-- A value that may hold fewer than `depth` containers inside one another. -/
def readValue : (depth : Nat) → Cursor → Except ParseError (Json × Cursor)
  | 0, c => .error (c.fault .recursionLimit)
  | depth + 1, c =>
    let c := c.skipBlanks
    match c.rest with
    | [] => .error (c.faultAhead .eofValue)
    | b :: rest =>
      if b = 110 then readIdent c.next .null [117, 108, 108]
      else if b = 116 then readIdent c.next (.bool true) [114, 117, 101]
      else if b = 102 then readIdent c.next (.bool false) [97, 108, 115, 101]
      else if b = 45 then readNumber true c.next
      else if Cursor.isDigit b then readNumber false c
      else if b = 34 then (readString c.next).map fun p => (.string p.1, p.2)
      else if b = 91 then
        if depth = 0 then .error (c.faultAhead .recursionLimit)
        else (readItems (readValue depth) (rest.length + 1) true [] c.next).map
          fun p => (.array p.1, p.2)
      else if b = 123 then
        if depth = 0 then .error (c.faultAhead .recursionLimit)
        else (readMembers (readValue depth) (rest.length + 1) true [] c.next).map
          fun p => (.object p.1, p.2)
      else .error (c.faultAhead .expectedValue)

/-- The depth of nested containers at which reading stops. -/
def depthLimit : Nat := 128

/-- Reads one value and the blanks around it. -/
def parseBytes (bytes : List UInt8) : Except ParseError Json := do
  let (v, c) ← readValue depthLimit (.ofBytes bytes)
  let c := c.skipBlanks
  match c.rest with
  | [] => .ok v
  | _ => .error (c.faultAhead .trailingCharacters)

def parse (text : String) : Except ParseError Json := parseBytes text.toUTF8.toList

end TypedArchive.Json
