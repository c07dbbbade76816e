import TypedArchive.Text.Quoted

/-! Literals of emitted code. -/

namespace TypedArchive.Emit

/-- A text between double quotes. A zero before an octal digit is written in two digits. -/
def escapeChars : List Char → List Char
  | [] => []
  | c :: rest =>
    (if c.toNat = 0 then
      match rest with
      | next :: _ => if '0' ≤ next ∧ next ≤ '7' then ['\\', 'x', '0', '0'] else ['\\', '0']
      | [] => ['\\', '0']
    else Text.visibleChar ['"'] c) ++ escapeChars rest

def textLiteral (s : String) : String :=
  "\"" ++ String.ofList (escapeChars s.toList) ++ "\""

/-- The digits of an integer with the name of its type; a sign stands before it as an operator. -/
def integerLiteral (i : Int64) : String := toString i.toInt.natAbs ++ "i64"

end TypedArchive.Emit
