import TypedArchive.Zip.Huffman

/-! Unpacking of deflated bytes. Blocks hold plain bytes, or words of two prefix codes: one for
bytes and the lengths of repetitions, one for the distances back to what is repeated. -/

namespace TypedArchive.Zip

/-- The bits that remain, and the bytes so far. -/
structure Inflation where
  bits : Bits
  output : Array UInt8 := #[]

/-- Steps of the unpacking. A halt keeps the bytes so far. -/
abbrev Step := Except (Halt × Array UInt8) Inflation

def Inflation.push (s : Inflation) (b : UInt8) : Inflation := { s with output := s.output.push b }

/-- The symbol that ends a block. -/
def endOfBlock : Nat := 256

/-- The bases of the lengths from symbol 257 on, and how many bits are added to each. -/
def lengthRows : List (Nat × Nat) :=
  [(3, 0), (4, 0), (5, 0), (6, 0), (7, 0), (8, 0), (9, 0), (10, 0), (11, 1), (13, 1), (15, 1),
    (17, 1), (19, 2), (23, 2), (27, 2), (31, 2), (35, 3), (43, 3), (51, 3), (59, 3), (67, 4),
    (83, 4), (99, 4), (115, 4), (131, 5), (163, 5), (195, 5), (227, 5), (258, 0)]

/-- The bases of the distances, and how many bits are added to each. -/
def distanceRows : List (Nat × Nat) :=
  [(1, 0), (2, 0), (3, 0), (4, 0), (5, 1), (7, 1), (9, 2), (13, 2), (17, 3), (25, 3), (33, 4),
    (49, 4), (65, 5), (97, 5), (129, 6), (193, 6), (257, 7), (385, 7), (513, 8), (769, 8),
    (1025, 9), (1537, 9), (2049, 10), (3073, 10), (4097, 11), (6145, 11), (8193, 12), (12289, 12),
    (16385, 13), (24577, 13)]

/-- A base and the bits that are added to it. -/
def readRow (rows : List (Nat × Nat)) (i : Nat) (bits : Bits) : Except Halt (Nat × Bits) :=
  match rows[i]? with
  | none => .error .invalid
  | some (base, width) => do
    let (n, bits) ← readNumber width bits
    return (base + n, bits)

/-- Repeats bytes from a distance back; before the first byte there are zeros. -/
def repeatBytes (distance : Nat) : (length : Nat) → Array UInt8 → Array UInt8
  | 0, output => output
  | n + 1, output =>
    let b := if distance ≤ output.size then output[output.size - distance]?.getD 0 else 0
    repeatBytes distance n (output.push b)

/-- What a word of the first code stands for. -/
inductive Token where
  | byte (b : UInt8)
  | repetition (distance length : Nat)
  | blockEnd

def readToken (literals distances : Code) (bits : Bits) : Except Halt (Token × Bits) := do
  let (symbol, bits) ← literals.read bits
  if symbol < endOfBlock then return (.byte (.ofNat symbol), bits)
  if symbol = endOfBlock then return (.blockEnd, bits)
  let (length, bits) ← readRow lengthRows (symbol - (endOfBlock + 1)) bits
  let (i, bits) ← distances.read bits
  let (distance, bits) ← readRow distanceRows i bits
  return (.repetition distance length, bits)

/-- Reads the tokens of a block. Each takes a bit at least. -/
def inflateTokens (literals distances : Code) : (fuel : Nat) → Inflation → Step
  | 0, s => .error (.short, s.output)
  | fuel + 1, s =>
    match readToken literals distances s.bits with
    | .error halt => .error (halt, s.output)
    | .ok (.blockEnd, bits) => .ok { s with bits }
    | .ok (.byte b, bits) => inflateTokens literals distances fuel ⟨bits, s.output.push b⟩
    | .ok (.repetition distance length, bits) =>
      inflateTokens literals distances fuel ⟨bits, repeatBytes distance length s.output⟩

/-- Copies plain bytes. -/
def inflatePlain : (length : Nat) → Inflation → Step
  | 0, s => .ok s
  | n + 1, s =>
    match readNumber 8 s.bits with
    | .error halt => .error (halt, s.output)
    | .ok (b, bits) => inflatePlain n ⟨bits, s.output.push (.ofNat b)⟩

/-- A plain block starts at a byte; its length stands there twice, the second time complemented. -/
def plainLength (bits : Bits) : Except Halt (Nat × Bits) := do
  let (length, bits) ← readNumber 16 (bits.drop (bits.length % 8))
  let (complement, bits) ← readNumber 16 bits
  if length + complement = 0xFFFF then return (length, bits) else .error .invalid

/-- The code for bytes and lengths that needs no description. -/
def fixedLiterals : List Nat :=
  List.replicate 144 8 ++ List.replicate 112 9 ++ List.replicate 24 7 ++ List.replicate 8 8

def fixedDistances : List Nat := List.replicate 32 5

/-- The order in which the lengths of the words for lengths are given. -/
def lengthOrder : List Nat := [16, 17, 18, 0, 8, 7, 9, 6, 10, 5, 11, 4, 12, 3, 13, 2, 14, 1, 15]

def readNumbers (width : Nat) : (count : Nat) → Bits → Except Halt (List Nat × Bits)
  | 0, bits => .ok ([], bits)
  | count + 1, bits => do
    let (n, bits) ← readNumber width bits
    let (rest, bits) ← readNumbers width count bits
    return (n :: rest, bits)

/-- Reads lengths until there are `total`; some symbols repeat the last length or zero. -/
def readLengths (code : Code) (total : Nat) :
    (fuel : Nat) → (lengths : Array Nat) → Bits → Except Halt (List Nat × Bits)
  | 0, _, _ => .error .short
  | fuel + 1, lengths, bits =>
    if total < lengths.size then .error .invalid
    else if lengths.size = total then .ok (lengths.toList, bits)
    else do
      let (symbol, bits) ← code.read bits
      if symbol < 16 then readLengths code total fuel (lengths.push symbol) bits
      else
        let (width, base) := if symbol = 16 then (2, 3) else if symbol = 17 then (3, 3) else (7, 11)
        let (n, bits) ← readNumber width bits
        match if symbol = 16 then lengths.back? else some 0 with
        | none => .error .invalid
        | some length =>
          readLengths code total fuel (lengths ++ Array.replicate (base + n) length) bits

def codeOf (lengths : List Nat) : Except Halt Code :=
  match Code.ofLengths? lengths with
  | some code => .ok code
  | none => .error .invalid

/-- Reads the two codes of a block that describes them. -/
def readCodes (bits : Bits) : Except Halt ((Code × Code) × Bits) := do
  let (literals, bits) ← readNumber 5 bits
  let (distances, bits) ← readNumber 5 bits
  let (described, bits) ← readNumber 4 bits
  let literals := literals + 257
  let distances := distances + 1
  if 286 < literals ∨ 30 < distances then .error .invalid
  let (given, bits) ← readNumbers 3 (described + 4) bits
  let code ← codeOf ((List.range 19).map fun i => (given[lengthOrder.idxOf i]?).getD 0)
  let (lengths, bits) ← readLengths code (literals + distances) (bits.length + 1) #[] bits
  let literalCode ← codeOf (lengths.take literals)
  let distanceCode ← codeOf (lengths.drop literals)
  return ((literalCode, distanceCode), bits)

/-- Runs a reader, keeping the bytes so far. -/
def Inflation.reading {α : Type} (s : Inflation) (read : Bits → Except Halt (α × Bits)) :
    Except (Halt × Array UInt8) (α × Inflation) :=
  match read s.bits with
  | .ok (a, bits) => .ok (a, { s with bits })
  | .error halt => .error (halt, s.output)

/-- Unpacks a block of a kind. -/
def inflateBlock (kind : Nat) (s : Inflation) : Step :=
  match kind with
  | 0 => do
    let (length, s) ← s.reading plainLength
    inflatePlain length s
  | 1 => do
    let (codes, s) ← s.reading fun bits => do
      return ((← codeOf fixedLiterals, ← codeOf fixedDistances), bits)
    inflateTokens codes.1 codes.2 (s.bits.length + 1) s
  | 2 => do
    let (codes, s) ← s.reading readCodes
    inflateTokens codes.1 codes.2 (s.bits.length + 1) s
  | _ => .error (.invalid, s.output)

/-- Unpacks blocks up to the last one. Each takes three bits at least. -/
def inflateBlocks : (fuel : Nat) → Inflation → Step
  | 0, s => .error (.short, s.output)
  | fuel + 1, s => do
    let (last, s) ← s.reading (readNumber 1)
    let (kind, s) ← s.reading (readNumber 2)
    let s ← inflateBlock kind s
    if last = 1 then return s else inflateBlocks fuel s

/-- Unpacks bytes. Where they end too early, what has been unpacked counts. -/
def inflate? (bytes : List UInt8) : Option (List UInt8) :=
  let bits := bitsOf bytes
  match inflateBlocks (bits.length + 1) ⟨bits, #[]⟩ with
  | .ok s => some s.output.toList
  | .error (.short, output) => some output.toList
  | .error (.invalid, _) => none

end TypedArchive.Zip
