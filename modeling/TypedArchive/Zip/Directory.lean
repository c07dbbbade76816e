import TypedArchive.Text.Utf8
import TypedArchive.Zip.Basic
import TypedArchive.Zip.Checksum
import TypedArchive.Zip.Name

/-! The directory at the end of a container. A trailer says where it lies and how long it is. -/

namespace TypedArchive.Zip

def localSignature : List UInt8 := [0x50, 0x4B, 3, 4]

def headerSignature : List UInt8 := [0x50, 0x4B, 1, 2]

def trailerSignature : List UInt8 := [0x50, 0x4B, 5, 6]

/-- The signature of a trailer with wide fields. -/
def wideTrailerSignature : List UInt8 := [0x50, 0x4B, 6, 6]

/-- The signature of the record that leads to a wide trailer. -/
def locatorSignature : List UInt8 := [0x50, 0x4B, 6, 7]

/-- Where the headers of a directory start, how many there are, and how far everything in the
container has been moved by bytes before it. -/
structure Directory where
  start : Nat
  count : Nat
  shift : Nat
  deriving Repr

/-- Looks for a signature from a position up to an end. -/
def findFrom (signature bytes : List UInt8) (start stop : Nat) : List Nat :=
  (occurrences signature start (bytes.drop start)).filter fun p => p + signature.length ≤ stop

/-- The directory that a wide trailer between two positions describes. -/
def wideDirectory? (bytes : List UInt8) (start stop disk : Nat) : Option Directory :=
  (findFrom wideTrailerSignature bytes start stop).findSome? fun p => do
    let trailer ← recordAt? wideTrailerSignature 56 bytes p
    let count := numberAt trailer 32 8
    let offset := numberAt trailer 48 8
    guard (numberAt trailer 4 8 + 12 = stop - p ∧ 56 ≤ stop - p)
    guard (numberAt trailer 20 4 = disk)
    guard (count * 46 + offset ≤ p)
    guard (numberAt trailer 24 8 ≤ count ∧ numberAt trailer 14 2 ≤ numberAt trailer 12 2)
    guard (numberAt trailer 16 4 = disk)
    return ⟨offset + (p - start), count, p - start⟩

/-- The record before a trailer that leads to a wide one: its position, the offset of the wide
trailer and its disk. It is looked for only where a field of the trailer does not suffice. -/
def locatorBefore? (bytes trailer : List UInt8) (position : Nat) : Option (Nat × List UInt8) := do
  guard (numberAt trailer 10 2 = 0xFFFF ∨ numberAt trailer 16 4 = 0xFFFFFFFF)
  guard (20 ≤ position)
  return (position - 20, ← recordAt? locatorSignature 20 bytes (position - 20))

/-- The directory that a trailer describes. Its first header may lie later than stated, by bytes
before the container. -/
def directoryAt? (bytes : List UInt8) (position : Nat) : Option Directory := do
  let trailer ← recordAt? trailerSignature 22 bytes position
  guard ((bytes.drop (position + 22)).length ≥ numberAt trailer 20 2)
  match locatorBefore? bytes trailer position with
  | some (stop, locator) =>
    guard (numberAt locator 8 8 < stop ∧ numberAt locator 16 4 ≤ 1)
    wideDirectory? bytes (numberAt locator 8 8) stop (numberAt locator 4 4)
  | none =>
    let count := numberAt trailer 8 2
    let offset := numberAt trailer 16 4
    guard (numberAt trailer 4 2 = numberAt trailer 6 2)
    if numberAt trailer 10 2 = 0 then
      return ⟨offset + (position - offset), count, position - offset⟩
    let start ← (findFrom headerSignature bytes offset position).head?
    return ⟨start, count, start - offset⟩

/-- What the directory says about a file. -/
structure Header where
  name : String
  encrypted : Bool
  method : Nat
  checksum : Nat
  /-- The number of bytes as they are stored. -/
  size : Nat
  /-- Where the file lies: first its own header, later its bytes. -/
  position : Nat
  deriving Repr

/-- The number that a field stands for, which may be found among the wide fields. -/
def widen (always : Bool) (narrow : Nat) (wide : List UInt8) : Nat × List UInt8 :=
  if always || narrow == 0xFFFFFFFF then (numberAt wide 0 8, wide.drop 8) else (narrow, wide)

/-- Takes an additional field into account; `fullLength` is the length of the unpacked file. -/
def Header.extend? (h : Header) (rawName : List UInt8) (fullLength kind : Nat) (body : List UInt8) :
    Option Header :=
  match kind with
  | 0x0001 =>
    let always := 24 ≤ body.length
    let (_, wide) := widen always fullLength body
    let (size, wide) := widen always h.size wide
    let (position, _) := widen always h.position wide
    some { h with size, position }
  | 0x7075 => do
    guard (5 ≤ body.length ∧ numberAt body 1 4 = (Zip.checksum rawName).toNat)
    return { h with name := ← String.fromUTF8? ⟨(body.drop 5).toArray⟩ }
  | 0x9901 => if body.length = 7 then some { h with encrypted := true, method := 0 } else none
  | _ => some h

/-- Takes all additional fields into account, up to one that is cut off. -/
def Header.extendAll? (h : Header) (rawName : List UInt8) (fullLength : Nat) :
    (fuel : Nat) → List UInt8 → Option Header
  | fuel + 1, k₀ :: k₁ :: l₀ :: l₁ :: rest =>
    let length := l₀.toNat + 256 * l₁.toNat
    let body := rest.take length
    if body.length < length then some h
    else do
      let h ← h.extend? rawName fullLength (k₀.toNat + 256 * k₁.toNat) body
      h.extendAll? rawName fullLength fuel (rest.drop length)
  | _, _ => some h

/-- The method of files that only a key opens; a field has to name the method behind it. -/
def keyedMethod : Nat := 99

/-- Reads the header at a position, and the position behind it. The file has to lie before the
directory. -/
def Directory.headerAt? (d : Directory) (bytes : List UInt8) (position : Nat) :
    Option (Header × Nat) := do
  let record ← recordAt? headerSignature 46 bytes position
  let nameLength := numberAt record 28 2
  let extraLength := numberAt record 30 2
  let length := 46 + nameLength + extraLength + numberAt record 32 2
  guard ((record.take length).length = length)
  let rawName := (record.drop 46).take nameLength
  let flags := numberAt record 8 2
  let name := if flags.testBit 11 then Text.Utf8.decode rawName else ofCodePage437 rawName
  let plain : Header :=
    { name, encrypted := flags.testBit 0, method := numberAt record 10 2,
      checksum := numberAt record 16 4, size := numberAt record 20 4,
      position := numberAt record 42 4 }
  let extra := (record.drop (46 + nameLength)).take extraLength
  let h ← plain.extendAll? rawName (numberAt record 24 4) extra.length extra
  guard (h.method ≠ keyedMethod)
  let start := h.position + d.shift
  guard (start < d.start)
  let header ← recordAt? localSignature 30 bytes start
  let content := start + 30 + numberAt header 26 2 + numberAt header 28 2
  guard (content ≤ d.start)
  return ({ h with position := content }, position + length)

/-- Reads headers one after another. -/
def Directory.headersFrom? (d : Directory) (bytes : List UInt8) :
    (count position : Nat) → Option (List Header)
  | 0, _ => some []
  | count + 1, position => do
    let (h, next) ← d.headerAt? bytes position
    return h :: (← d.headersFrom? bytes count next)

/-- The headers of the last directory that can be read. -/
def headers? (bytes : List UInt8) : Option (List Header) :=
  (occurrences trailerSignature 0 bytes).reverse.findSome? fun p => do
    let d ← directoryAt? bytes p
    d.headersFrom? bytes d.count d.start

end TypedArchive.Zip
