/-!
# Numerals

A numeral is kept as it is written, so that it is decided only where a number is wanted whether
a whole number or a floating-point number is meant and whether it fits.
-/

namespace DialARide

/-- A number as it is written in decimal digits. -/
structure Numeral where
  negative : Bool := false
  /-- The digits in front of the point. -/
  whole : List Char
  /-- The digits behind the point; none where there is no point. -/
  fraction : List Char := []
  /-- The sign of the exponent, true where it is negative, and its digits. -/
  exponent : Option (Bool × List Char) := none
  deriving DecidableEq, Repr

namespace Numeral

/-- The number that digits stand for. -/
def value (digits : List Char) : Nat := Nat.ofDigitChars 10 digits 0

/-- The numeral of a whole number. -/
def ofNat (n : Nat) : Numeral := { whole := Nat.toDigits 10 n }

/-- The whole number that is written without sign, point or exponent. -/
def toNat? (n : Numeral) : Option Nat :=
  if !n.negative && n.fraction.isEmpty && n.exponent.isNone then some (value n.whole) else none

@[simp] theorem toNat?_ofNat (n : Nat) : (ofNat n).toNat? = some n := by
  simp [toNat?, ofNat, value, Nat.ofDigitChars_toDigits]

/-! ## Floating-point values

The significand is made of the leading digits as long as they fit 64 bits. It is converted to
floating point and scaled by one power of ten.
-/

/-- The number that leading digits of the whole part stand for as long as it fits 64 bits, and
the number of the digits behind them. -/
def keepWhole (kept : Nat) : List Char → Nat × Nat
  | [] => (kept, 0)
  | c :: rest =>
    let next := kept * 10 + value [c]
    if next < 2 ^ 64 then keepWhole next rest else (kept, rest.length + 1)

/-- The number that leading digits of the fraction stand for, behind those kept before, as long
as it fits 64 bits, and the number of these digits. -/
def keepFraction (kept : Nat) : List Char → Nat × Nat
  | [] => (kept, 0)
  | c :: rest =>
    let next := kept * 10 + value [c]
    if next < 2 ^ 64 then
      let (significand, digits) := keepFraction next rest
      (significand, digits + 1)
    else (kept, 0)

/-- The power of ten with an exponent of at most 308. -/
def tenTo (exponent : Nat) : Float := .ofScientific 1 false exponent

/-- A number divided by a power of ten, in parts that are powers themselves. -/
def divideByTenTo (x : Float) (exponent : Nat) : Float :=
  if exponent ≤ 308 then x / tenTo exponent
  else if x == 0 then x
  else divideByTenTo (x / tenTo 308) (exponent - 308)
termination_by exponent
decreasing_by omega

/-- A number times a power of ten, if that is finite. -/
def scale? (x : Float) (exponent : Int) : Option Float :=
  if exponent < 0 then some (divideByTenTo x exponent.natAbs)
  else if exponent ≤ 308 then
    let y := x * tenTo exponent.natAbs
    if y.isInf then none else some y
  else if x == 0 then some x else none

/-- The greatest size of an exponent. Beyond it, the number is zero or out of range. -/
def exponentLimit : Nat := 0x7fffffff

/-- The magnitude of the floating-point number that is written, if it is finite. -/
def magnitude? (n : Numeral) : Option Float :=
  let (kept, dropped) := keepWhole 0 n.whole
  let (significand, digits) := keepFraction kept n.fraction
  let point : Int := dropped - digits
  match n.exponent with
  | none => scale? significand.toFloat point
  | some (below, exponent) =>
    if value exponent ≤ exponentLimit then
      scale? significand.toFloat (if below then point - value exponent else point + value exponent)
    else if below || significand = 0 then some 0 else none

/-- The floating-point number that is written, if it is finite. -/
def toFloat? (n : Numeral) : Option Float :=
  n.magnitude?.map fun x => if n.negative then -x else x

end Numeral

end DialARide
