import TypedArchive.Json.Basic

/-! The number that a JSON number text denotes. Whole numbers of the 64-bit ranges are exact; any
other text is read as a significand of at most 64 bits, rounded to a double and then scaled by a
power of ten, with one rounding for each scaling. -/

namespace TypedArchive.NumberText

/-- The digits of a number text; the exponent part is a sign and digits. -/
structure Parts where
  negative : Bool
  whole : List Nat
  fraction : Option (List Nat)
  exponent : Option (Bool × List Nat)

/-- Appends digits as long as the result stays below the bound; the rest is left over. -/
def accumulate (bound : Nat) : Nat → List Nat → Nat × List Nat
  | acc, [] => (acc, [])
  | acc, d :: rest =>
    if acc * 10 + d < bound then accumulate bound (acc * 10 + d) rest else (acc, d :: rest)

def powerOfTen (k : Nat) : Double := (Double.ofRatio? false (Nat.pow 10 k) 1).getD (.zero false)

/-- Divides by `10 ^ k`, in steps of at most `10 ^ 308`. -/
def scaleDown (x : Double) (k : Nat) : Double :=
  if k ≤ 308 then (x.div? (powerOfTen k)).getD x
  else if x.isZero then x
  else scaleDown ((x.div? (powerOfTen 308)).getD x) (k - 308)
termination_by k

/-- `significand * 10 ^ exponent` as a double, or nothing when that is out of range. -/
def scale? (negative : Bool) (significand : Nat) (exponent : Int) : Option Double :=
  let x := (Double.ofRatio? negative significand 1).getD (.zero negative)
  match exponent with
  | .ofNat k =>
    if k ≤ 308 then x.mul? (powerOfTen k)
    else if x.isZero then some x
    else none
  | .negSucc k => some (scaleDown x (k + 1))

/-- How many digits of the exponent follow the one that takes it past 31 bits. -/
def unreadDigits : Option (Bool × List Nat) → Nat
  | some (_, exponent) => (accumulate 0x80000000 0 exponent).2.length - 1
  | none => 0

def toInteger? (negative : Bool) (magnitude : Nat) : Option Number :=
  if negative then
    if h : 0 < magnitude ∧ magnitude ≤ 0x8000000000000000 then
      some (.integer (-magnitude) ⟨by omega, by omega⟩)
    else none
  else if h : magnitude < 0x10000000000000000 then some (.integer magnitude ⟨by omega, by omega⟩)
  else none

/-- The number denoted by the parts, or nothing when it is out of range. -/
def evaluate? (p : Parts) : Option Number :=
  let (significand, dropped) := accumulate 0x10000000000000000 0 p.whole
  match p.fraction, p.exponent, dropped with
  | none, none, [] =>
    match toInteger? p.negative significand with
    | some n => some n
    | none => (scale? p.negative significand 0).map .double
  | fraction, exponent, dropped =>
    let digits := fraction.getD []
    let (significand, unused) := accumulate 0x10000000000000000 significand digits
    let start : Int := dropped.length - (digits.length - unused.length : Nat)
    match exponent with
    | none => (scale? p.negative significand start).map .double
    | some (down, exponent) =>
      match accumulate 0x80000000 0 exponent with
      | (e, []) =>
        (scale? p.negative significand (if down then start - e else start + e)).map .double
      | _ =>
        if significand ≠ 0 ∧ !down then none else some (.double (.zero p.negative))

end TypedArchive.NumberText
