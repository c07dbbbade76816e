/-! Files of a container, and numbers in its bytes. -/

namespace TypedArchive.Zip

/-- Why the bytes of a file cannot be had. -/
inductive Damage where
  /-- They are stored in a way that is not known. -/
  | unreadable
  /-- They do not unpack to what the container says they are. -/
  | corrupt
  deriving DecidableEq, Repr

structure StoredFile where
  path : String
  content : Except Damage (List UInt8)

/-- The number in some bytes, the least significant first; missing bytes count as zero. -/
def numberAt (bytes : List UInt8) (offset width : Nat) : Nat :=
  ((bytes.drop offset).take width).foldr (fun b n => b.toNat + 256 * n) 0

/-- What starts at a position, if it is a record: its signature, and at least so many bytes. -/
def recordAt? (signature : List UInt8) (size : Nat) (bytes : List UInt8) (position : Nat) :
    Option (List UInt8) :=
  let record := bytes.drop position
  if signature.isPrefixOf record ∧ (record.take size).length = size then some record else none

/-- The positions where a signature occurs, in increasing order; the bytes start at a position. -/
def occurrences (signature : List UInt8) : (position : Nat) → (bytes : List UInt8) → List Nat
  | _, [] => []
  | position, b :: rest =>
    if signature.isPrefixOf (b :: rest) then position :: occurrences signature (position + 1) rest
    else occurrences signature (position + 1) rest

end TypedArchive.Zip
