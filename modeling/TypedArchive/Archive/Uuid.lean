/-! Identifiers of 128 bits, in hexadecimal digits. -/

namespace TypedArchive.Archive

abbrev Uuid := BitVec 128

namespace Uuid

def digitValue? (c : Char) : Option Nat :=
  if '0' ≤ c ∧ c ≤ '9' then some (c.toNat - '0'.toNat)
  else if 'a' ≤ c ∧ c ≤ 'f' then some (c.toNat - 'a'.toNat + 10)
  else if 'A' ≤ c ∧ c ≤ 'F' then some (c.toNat - 'A'.toNat + 10)
  else none

/-- The number that hexadecimal digits spell. -/
def value (digits : List Nat) : Nat := digits.foldl (fun n d => n * 16 + d) 0

/-- The number of at most 128 bits that digits spell, one digit at least. -/
def unsigned? (cs : List Char) : Option Nat :=
  if cs = [] then none else ((cs.mapM digitValue?).map value).filter (· < 1 <<< 128)

/-- The same, after a plus or without one. -/
def number? : List Char → Option Nat
  | '+' :: cs => unsigned? cs
  | cs => unsigned? cs

/-- The characters of a text besides hyphens. -/
def bare (text : String) : List Char := text.toList.filter (· != '-')

/-- Reads what is left of a text without its hyphens as a number, if it takes 32 bytes. -/
def parse? (text : String) : Option Uuid :=
  if (String.ofList (bare text)).utf8ByteSize = 32 then
    (number? (bare text)).map (BitVec.ofNat 128)
  else none

def digit (n : Nat) : Char :=
  if n < 10 then Char.ofNat ('0'.toNat + n) else Char.ofNat ('A'.toNat + (n - 10))

/-- Writes 32 digits, capitals among them, without hyphens. -/
def text (u : Uuid) : String :=
  String.ofList ((List.range 32).map fun i => digit ((u.toNat >>> (4 * (31 - i))) % 16))

end Uuid

end TypedArchive.Archive
