/-! The 32-bit cyclic redundancy check. -/

namespace TypedArchive.Zip

/-- The generator, its highest power in the lowest bit. -/
def polynomial : UInt32 := 0xEDB88320

/-- Divides by the variable, modulo the generator. -/
def shiftStep (c : UInt32) : UInt32 :=
  if c &&& 1 = 1 then polynomial ^^^ (c >>> 1) else c >>> 1

def checksumStep (c : UInt32) (b : UInt8) : UInt32 :=
  Nat.repeat shiftStep 8 (c ^^^ b.toUInt32)

/-- The check of bytes, complemented before and after. -/
def checksum (bytes : List UInt8) : UInt32 :=
  bytes.foldl checksumStep 0xFFFFFFFF ^^^ 0xFFFFFFFF

end TypedArchive.Zip
