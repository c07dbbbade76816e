import TypedArchive.Kdl.Text

/-! Numbers of KDL: decimal with fraction and exponent, and integers to other bases. Underscores may
stand between digits. -/

namespace TypedArchive.Kdl

/-- The value of digits to a base, the first of which is no underscore. -/
def digitsValue? (base : Nat) (digits : List Char) : Option Nat :=
  match digits with
  | [] | '_' :: _ => none
  | _ => digits.foldlM (fun n c =>
      if c = '_' then some n
      else match hexValue? c with
        | some d => if d < base then some (base * n + d) else none
        | none => none) 0

/-- Integers are held in 128 bits. -/
def isInteger (base : Nat) (digits : List Char) : Bool :=
  (digitsValue? base digits).any (· < 1 <<< 127)

def isDecimal (digits : List Char) : Bool := (digitsValue? 10 digits).isSome

def withoutSign : List Char → List Char
  | '+' :: rest | '-' :: rest => rest
  | cs => cs

/-- Whether a word is a number. -/
def isNumber (word : List Char) : Bool :=
  match withoutSign word with
  | '0' :: 'x' :: digits => isInteger 16 digits
  | '0' :: 'o' :: digits => isInteger 8 digits
  | '0' :: 'b' :: digits => isInteger 2 digits
  | cs =>
    let isDigit (c : Char) : Bool := c.isDigit || c == '_'
    let whole := cs.takeWhile isDigit
    let isExponent (cs : List Char) : Bool :=
      match cs with
      | [] => true
      | c :: rest => (c == 'e' || c == 'E') && isDecimal (withoutSign rest)
    match cs.dropWhile isDigit with
    | [] => isInteger 10 whole
    | '.' :: rest =>
      isDecimal whole && isDecimal (rest.takeWhile isDigit) && isExponent (rest.dropWhile isDigit)
    | rest => isDecimal whole && isExponent rest

end TypedArchive.Kdl
