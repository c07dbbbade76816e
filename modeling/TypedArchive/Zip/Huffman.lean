/-! Prefix codes that are given by the lengths of their words. -/

namespace TypedArchive.Zip

/-- Why reading stops before its end. -/
inductive Halt where
  /-- The bits are used up. -/
  | short
  /-- The bits are no code. -/
  | invalid
  deriving DecidableEq, Repr

abbrev Bits := List Bool

/-- The bits of bytes, the least significant of each first. -/
def bitsOf (bytes : List UInt8) : Bits :=
  bytes.flatMap fun b => (List.range 8).map fun i => b.toNat.testBit i

/-- Reads a number of a given width, the least significant bit first. -/
def readNumber : (width : Nat) → Bits → Except Halt (Nat × Bits)
  | 0, bits => .ok (0, bits)
  | _ + 1, [] => .error .short
  | width + 1, b :: rest => do
    let (n, rest) ← readNumber width rest
    return (b.toNat + 2 * n, rest)

/-- A code: how many words there are of each length from one on, and the symbols in the order of
their words. -/
structure Code where
  counts : List Nat
  symbols : List Nat
  deriving Repr

namespace Code

def maxLength : Nat := 15

/-- The symbols that have words of a length, where a symbol is an index among the lengths. -/
def symbolsOf (lengths : List Nat) (n : Nat) : List Nat :=
  (lengths.zipIdx.filter fun p => p.1 == n).map Prod.snd

/-- The code whose words have these lengths, zero for none. Unless it has at most one word, it has
to use up all the words there can be. -/
def ofLengths? (lengths : List Nat) : Option Code :=
  let groups := (List.range maxLength).map fun i => symbolsOf lengths (i + 1)
  let code : Code := ⟨groups.map List.length, groups.flatten⟩
  let used := code.counts.foldl (fun n count => 2 * n + count) 0
  if code.symbols.length ≤ 1 ∨ used = 1 <<< maxLength then some code else none

/-- Reads a word of the remaining lengths. It has the given distance from the first word of its
length so far, and the symbols are those of the remaining words. -/
def readFrom : (counts symbols : List Nat) → (distance : Nat) → Bits → Except Halt (Nat × Bits)
  | [], _, _, _ => .error .invalid
  | _ :: _, _, _, [] => .error .short
  | count :: counts, symbols, distance, b :: rest =>
    let distance := 2 * distance + b.toNat
    if distance < count then
      match symbols[distance]? with
      | some symbol => .ok (symbol, rest)
      | none => .error .invalid
    else readFrom counts (symbols.drop count) (distance - count) rest

def read (code : Code) (bits : Bits) : Except Halt (Nat × Bits) :=
  readFrom code.counts code.symbols 0 bits

end Code

end TypedArchive.Zip
