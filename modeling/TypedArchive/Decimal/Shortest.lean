import TypedArchive.Decimal.Double

/-! The shortest decimal that reads back as a given double, and the nearest such decimal. -/

namespace TypedArchive

/-- The value `digits * 10 ^ exponent`. -/
structure Decimal where
  digits : Nat
  exponent : Int
  deriving DecidableEq, Repr

namespace Decimal

/-- The open or closed interval of reals that round to a double, over one denominator. -/
structure Interval where
  low : Nat
  value : Nat
  high : Nat
  denominator : Nat
  closed : Bool

/-- The reals that round to `x`: half way to each neighbour, the ends included for an even
significand. -/
def Interval.ofDouble (x : Double) : Interval :=
  let m := x.significand
  let lowGap := if m = Double.binadeSize ∧ x.binade ≠ 0 then 1 else 2
  { low := (4 * m - lowGap) <<< x.binade
    value := (4 * m) <<< x.binade
    high := (4 * m + 2) <<< x.binade
    denominator := 4 * Double.unitsPerOne
    closed := m % 2 = 0 }

def Interval.holds (i : Interval) (num den : Nat) : Bool :=
  if i.closed then
    i.low * den ≤ num * i.denominator && num * i.denominator ≤ i.high * den
  else
    i.low * den < num * i.denominator && num * i.denominator < i.high * den

/-- The exponent `e` with `10 ^ e ≤ num / den < 10 ^ (e + 1)`, for a positive ratio. -/
def leadingExponent (num den : Nat) : Int :=
  if den ≤ num then (Nat.toDigits 10 (num / den)).length - 1
  else - (Nat.toDigits 10 ((den - 1) / num)).length

/-- The neighbour of the interval's value on the grid of multiples of `10 ^ exponent` that lies
in the interval, the nearer one when both do, the even one at a tie. -/
def Interval.onGrid (i : Interval) (exponent : Int) : Option Nat :=
  let up := Nat.pow 10 exponent.toNat
  let down := Nat.pow 10 (-exponent).toNat
  let num := i.value * down
  let den := i.denominator * up
  let d := num / den
  let below := i.holds (d * up) down
  let above := i.holds ((d + 1) * up) down
  let twice := 2 * (num % den)
  if below && above then
    some (if twice < den ∨ (twice = den ∧ d % 2 = 0) then d else d + 1)
  else if below then some d
  else if above then some (d + 1)
  else none

def stripZeros (digits : Nat) (exponent : Int) : Nat → Decimal
  | 0 => ⟨digits, exponent⟩
  | n + 1 =>
    if digits ≠ 0 ∧ digits % 10 = 0 then stripZeros (digits / 10) (exponent + 1) n
    else ⟨digits, exponent⟩

/-- Tries one digit, then two, and so on: the first grid with a point in the interval wins. -/
def Interval.shortest (i : Interval) (leading : Int) : Nat → Nat → Decimal
  | _, 0 => ⟨0, 0⟩
  | digits, tries + 1 =>
    let exponent := leading + 1 - digits
    match i.onGrid exponent with
    | some d => stripZeros d exponent 20
    | none => i.shortest leading (digits + 1) tries

/-- The decimal with the fewest digits that rounds to the magnitude of `x`. -/
def shortest (x : Double) : Decimal :=
  if x.isZero then ⟨0, 0⟩
  else
    let i := Interval.ofDouble x
    i.shortest (leadingExponent i.value i.denominator) 1 17

/-- The least exponent and the bound on exponents that are written positionally. -/
def positionalFrom : Int := -5
def positionalBelow : Int := 16

/-- Writes a double with a point in positional form, or with a signed exponent outside
`1e-5 ≤ |x| < 1e16`. -/
def render (x : Double) : String :=
  let sign := if x.negative then "-" else ""
  let d := shortest x
  if x.isZero then sign ++ "0.0"
  else
    let text := Nat.toDigits 10 d.digits
    let leading := d.exponent + text.length - 1
    if positionalFrom ≤ leading ∧ leading < positionalBelow then
      if leading < 0 then
        sign ++ "0." ++ String.ofList (List.replicate (-leading - 1).toNat '0' ++ text)
      else
        let whole := (leading + 1).toNat
        let front := text.take whole ++ List.replicate (whole - text.length) '0'
        let back := text.drop whole
        sign ++ String.ofList front ++ "." ++ (if back.isEmpty then "0" else String.ofList back)
    else
      let front := String.ofList (text.take 1)
      let back := String.ofList (text.drop 1)
      let mark := if leading < 0 then "e-" else "e+"
      sign ++ front ++ (if back.isEmpty then "" else "." ++ back) ++ mark
        ++ toString leading.natAbs

end Decimal

end TypedArchive
