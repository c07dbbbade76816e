import TypedArchive.Decimal.Shortest
import TypedArchive.Json.Basic

/-! JSON text of a value: a compact form, and one indented by two blanks for each level. -/

namespace TypedArchive

def Number.render : Number → String
  | .integer i _ => toString i
  | .double x => Decimal.render x

namespace Json

def hexDigit (n : Nat) : Char :=
  if n < 10 then Char.ofNat (48 + n) else Char.ofNat (87 + n)

/-- A character inside a quoted string; control characters have an escape. -/
def escapeChar (c : Char) : List Char :=
  if c = '"' then ['\\', '"']
  else if c = '\\' then ['\\', '\\']
  else if 32 ≤ c.toNat then [c]
  else if c.toNat = 8 then ['\\', 'b']
  else if c.toNat = 12 then ['\\', 'f']
  else if c = '\n' then ['\\', 'n']
  else if c = '\r' then ['\\', 'r']
  else if c = '\t' then ['\\', 't']
  else ['\\', 'u', '0', '0', hexDigit (c.toNat / 16), hexDigit (c.toNat % 16)]

def quote (s : String) : String :=
  "\"" ++ String.ofList (s.toList.flatMap escapeChar) ++ "\""

mutual

/-- The text of a value without blanks. -/
def render : Json → String
  | .null => "null"
  | .bool b => if b then "true" else "false"
  | .number n => n.render
  | .string s => quote s
  | .array items => "[" ++ renderItems items ++ "]"
  | .object members => "\x7b" ++ renderMembers members ++ "\x7d"

def renderItems : List Json → String
  | [] => ""
  | [v] => v.render
  | v :: rest => v.render ++ "," ++ renderItems rest

def renderMembers : List (String × Json) → String
  | [] => ""
  | [(k, v)] => quote k ++ ":" ++ v.render
  | (k, v) :: rest => quote k ++ ":" ++ v.render ++ "," ++ renderMembers rest

end

def lineBreak (indent : Nat) : String := "\n" ++ String.ofList (List.replicate indent ' ')

mutual

/-- The text of a value with one item or member on a line; empty containers stay on theirs. -/
def renderIndented (indent : Nat) : Json → String
  | .array [] => "[]"
  | .array (v :: rest) =>
    "[" ++ lineBreak (indent + 2) ++ v.renderIndented (indent + 2)
      ++ renderIndentedItems (indent + 2) rest ++ lineBreak indent ++ "]"
  | .object [] => "\x7b\x7d"
  | .object ((k, v) :: rest) =>
    "\x7b" ++ lineBreak (indent + 2) ++ quote k ++ ": " ++ v.renderIndented (indent + 2)
      ++ renderIndentedMembers (indent + 2) rest ++ lineBreak indent ++ "\x7d"
  | .null => "null"
  | .bool b => if b then "true" else "false"
  | .number n => n.render
  | .string s => quote s

def renderIndentedItems (indent : Nat) : List Json → String
  | [] => ""
  | v :: rest =>
    "," ++ lineBreak indent ++ v.renderIndented indent ++ renderIndentedItems indent rest

def renderIndentedMembers (indent : Nat) : List (String × Json) → String
  | [] => ""
  | (k, v) :: rest =>
    "," ++ lineBreak indent ++ quote k ++ ": " ++ v.renderIndented indent
      ++ renderIndentedMembers indent rest

end

end Json

end TypedArchive
