/-! Reading UTF-8 from bytes that need not be valid. -/

namespace TypedArchive.Text.Utf8

/-- A character of which some bytes have been read: the code so far, and the ranges of the bytes to
come. -/
structure Pending where
  code : Nat
  ranges : List (Nat × Nat)

/-- What the first byte of a character says about the others; a single byte has no others. -/
def start? (b : Nat) : Option Pending :=
  let next := (0x80, 0xBF)
  if b < 0x80 then some ⟨b, []⟩
  else if 0xC2 ≤ b ∧ b ≤ 0xDF then some ⟨b - 0xC0, [next]⟩
  else if b = 0xE0 then some ⟨0, [(0xA0, 0xBF), next]⟩
  else if b = 0xED then some ⟨0xD, [(0x80, 0x9F), next]⟩
  else if 0xE1 ≤ b ∧ b ≤ 0xEF then some ⟨b - 0xE0, [next, next]⟩
  else if b = 0xF0 then some ⟨0, [(0x90, 0xBF), next, next]⟩
  else if b = 0xF4 then some ⟨4, [(0x80, 0x8F), next, next]⟩
  else if 0xF1 ≤ b ∧ b ≤ 0xF3 then some ⟨b - 0xF0, [next, next, next]⟩
  else none

/-- Reads the next byte of a character. -/
def Pending.next? (p : Pending) (b : Nat) : Option Pending :=
  match p.ranges with
  | [] => none
  | (low, high) :: ranges =>
    if low ≤ b ∧ b ≤ high then some ⟨p.code * 64 + (b - 0x80), ranges⟩ else none

/-- What stands in for bytes that are no character. -/
def replacement : Char := '\uFFFD'

/-- The character that is complete, or else the one that goes on. -/
def settle : Option Pending → List Char × Option Pending
  | none => ([replacement], none)
  | some p => if p.ranges.isEmpty then ([Char.ofNat p.code], none) else ([], some p)

/-- Reads characters; each longest start of a character that does not go on is replaced. -/
def read (pending : Option Pending) : List UInt8 → List Char
  | [] => if pending.isSome then [replacement] else []
  | b :: rest =>
    match pending with
    | none =>
      let (cs, pending) := settle (start? b.toNat)
      cs ++ read pending rest
    | some p =>
      match p.next? b.toNat with
      | some p =>
        let (cs, pending) := settle (some p)
        cs ++ read pending rest
      | none =>
        let (cs, pending) := settle (start? b.toNat)
        replacement :: cs ++ read pending rest

def decode (bytes : List UInt8) : String := String.ofList (read none bytes)

/-- How many bytes there are before the first that belongs to no character; `unsettled` counts
those of the character that is being read. -/
def validLength (pending : Option Pending) (unsettled : Nat) : List UInt8 → Nat
  | [] => 0
  | b :: rest =>
    match (match pending with | none => start? b.toNat | some p => p.next? b.toNat) with
    | none => 0
    | some p =>
      if p.ranges.isEmpty then unsettled + 1 + validLength none 0 rest
      else validLength (some p) (unsettled + 1) rest

end TypedArchive.Text.Utf8
