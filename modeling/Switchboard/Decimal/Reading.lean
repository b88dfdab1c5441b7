import Switchboard.Decimal.Numeral
/-!
Reading numerals. A numeral without fraction and exponent is an integer if it fits 64 bits; any other
numeral is a 64-bit float. `Numeral.double?` reads it in two roundings: as many leading digits as fit
64 bits are rounded first, and the product with the power of ten, or the quotient by it, second.
`nearestDouble` rounds once.
-/
namespace Switchboard

open Text

/-- The largest number of 64 bits. -/
def wordMax : Nat := twoPow 64 - 1

/-- Appends digits to a number while it fits 64 bits; what is left begins with the first digit that
does not fit. -/
def takeDigits (n : Nat) : List Digit → Nat × List Digit
  | [] => (n, [])
  | d :: ds => if n * 10 + d.val ≤ wordMax then takeDigits (n * 10 + d.val) ds else (n, d :: ds)

/-- The significand and the power of ten of a numeral's digits. Digits before the point that do not
fit only count, those after the point end the reading. -/
def Numeral.significand (n : Numeral) : Nat × Int :=
  let (whole, left) := takeDigits 0 n.whole
  let (all, spare) := takeDigits whole n.fraction
  (all, (left.length : Int) - ((n.fraction.length : Int) - spare.length))

namespace Double

/-- The product of a magnitude and `10 ^ k`, both as 64-bit numbers; nothing if it is infinite. -/
def timesTenPow (magnitude : Nat) (k : Nat) : Option Nat :=
  match FloatFormat.double.kind magnitude,
      FloatFormat.double.kind (FloatFormat.double.nearest (tenPow k) 1) with
  | .finite _ m q, .finite _ m' q' =>
    let product := FloatFormat.double.nearestScaled (m * m') (q + q')
    if product = FloatFormat.double.infinity then none else some product
  | _, _ => none

/-- The quotient of a magnitude by `10 ^ k`, both as 64-bit numbers. -/
def overTenPow (magnitude : Nat) (k : Nat) : Nat :=
  match FloatFormat.double.kind magnitude,
      FloatFormat.double.kind (FloatFormat.double.nearest (tenPow k) 1) with
  | .finite _ m q, .finite _ m' q' =>
    let shift := q - q'
    if 0 ≤ shift then FloatFormat.double.nearest (m * twoPow shift.toNat) m'
    else FloatFormat.double.nearest m (m' * twoPow (-shift).toNat)
  | _, _ => 0

/-- A magnitude times `10 ^ e`, in steps of at most 308 places; nothing if it is too large. -/
def scale (magnitude : Nat) (e : Int) : Option Nat :=
  if e < -308 then
    if magnitude = 0 then some 0 else scale (overTenPow magnitude 308) (e + 308)
  else if e < 0 then some (overTenPow magnitude (-e).toNat)
  else if e ≤ 308 then timesTenPow magnitude e.toNat
  else if magnitude = 0 then some 0
  else none
termination_by e.natAbs
decreasing_by omega

end Double

/-- The largest exponent that is told apart from an endless one. -/
def exponentMax : Nat := twoPow 31 - 1

/-- The 64-bit number of a numeral; nothing if it is too large for one. -/
def Numeral.double? (n : Numeral) : Option Double :=
  let (significand, shift) := n.significand
  let magnitude := FloatFormat.double.nearest significand 1
  let result :=
    match n.exponent with
    | none => Double.scale magnitude shift
    | some (negative, ds) =>
      let e := ofDigits ds
      if exponentMax < e then if negative ∨ significand = 0 then some 0 else none
      else Double.scale magnitude (if negative then shift - e else shift + e)
  result.map (Double.ofMagnitude n.negative)

/-- The integer of a numeral without fraction and exponent, if it fits 64 bits, with a sign or
without. Zero with a minus sign is no integer. -/
def Numeral.integer? (n : Numeral) : Option Int :=
  if n.fraction.isEmpty ∧ n.exponent.isNone then
    let magnitude := ofDigits n.whole
    if n.negative then
      if magnitude = 0 ∨ twoPow 63 < magnitude then none else some (-(magnitude : Int))
    else if magnitude ≤ wordMax then some magnitude
    else none
  else none

/-- The 64-bit number closest to the number that a numeral writes. -/
def Numeral.nearestDouble (n : Numeral) : Double :=
  let ds := n.whole ++ n.fraction
  let value := ofDigits ds
  let e : Int :=
    (match n.exponent with
      | none => 0
      | some (negative, es) => if negative then -(ofDigits es : Int) else ofDigits es) -
      n.fraction.length
  let magnitude :=
    if value = 0 then 0
    else
      let leading := (digits value).length + e
      if 310 < leading then FloatFormat.double.infinity
      else if leading < -330 then 0
      else if 0 ≤ e then FloatFormat.double.nearest (value * tenPow e.toNat) 1
      else FloatFormat.double.nearest value (tenPow (-e).toNat)
  Double.ofMagnitude n.negative magnitude

end Switchboard
