/-! Finite double-precision numbers, and rounding a ratio to the nearest of them. -/

namespace TypedArchive

/-- A finite double: a sign, and the place of its magnitude among the non-negative finite
doubles in increasing order. Both zeros have code `0`. -/
structure Double where
  negative : Bool
  code : Fin 0x7FF0000000000000
  deriving DecidableEq, Repr

namespace Double

/-- The unit of the subnormal doubles is `1 / unitsPerOne`. -/
def unitsPerOne : Nat := 1 <<< 1074

/-- The count of doubles between a power of two and the next one. -/
def binadeSize : Nat := 0x10000000000000

def zero (negative : Bool) : Double := ⟨negative, 0, by decide⟩

/-- The binade above the subnormal unit: the significand counts steps of `2 ^ binade` units. -/
def binade (x : Double) : Nat := x.code.val / binadeSize - 1

def significand (x : Double) : Nat := x.code.val - binadeSize * x.binade

/-- The magnitude in subnormal units. -/
def units (x : Double) : Nat := x.significand <<< x.binade

def isZero (x : Double) : Bool := x.code.val == 0

/-- Both zeros are one number; otherwise sign and magnitude decide. -/
def same (x y : Double) : Bool :=
  x.code == y.code && (x.negative == y.negative || x.isZero)

/-- The quotient rounded to the nearest natural number, a half to the even neighbour. -/
def roundRatio (num den : Nat) : Nat :=
  let q := num / den
  let twice := 2 * (num % den)
  if twice < den ∨ (twice = den ∧ q % 2 = 0) then q else q + 1

/-- The code of the double nearest to `num / den`; codes past the last double mean overflow. -/
def codeOfRatio (num den : Nat) : Nat :=
  let scaled := num * unitsPerOne
  let binade := Nat.log2 (scaled / den) - 52
  binade * binadeSize + roundRatio scaled (den <<< binade)

/-- The double nearest to `± num / den`, or nothing when it would be infinite. -/
def ofRatio? (negative : Bool) (num den : Nat) : Option Double :=
  let code := codeOfRatio num den
  if h : code < 0x7FF0000000000000 then some ⟨negative, code, h⟩ else none

def mul? (x y : Double) : Option Double :=
  ofRatio? (x.negative != y.negative) (x.units * y.units) (unitsPerOne * unitsPerOne)

def div? (x y : Double) : Option Double :=
  ofRatio? (x.negative != y.negative) x.units y.units

end Double

end TypedArchive
