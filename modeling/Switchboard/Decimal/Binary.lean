import Switchboard.Decimal.Power
/-!
Binary floating-point numbers as bit patterns, with exact arithmetic. A format says how many bits a
number has; `nearest` rounds a quotient of naturals to the closest number of a format, a tie to the
even one, and `Kind` says which real number a pattern stands for.
-/
namespace Switchboard

/-- The widths of a binary floating-point format. -/
structure FloatFormat where
  fractionBits : Nat
  exponentBits : Nat

namespace FloatFormat

/-- The 64-bit format. -/
def double : FloatFormat := ⟨52, 11⟩

/-- The 32-bit format. -/
def single : FloatFormat := ⟨23, 8⟩

/-- The power of two that the last fraction bit of the smallest numbers stands for. -/
def lowest (f : FloatFormat) : Int :=
  2 - (twoPow (f.exponentBits - 1) : Int) - f.fractionBits

/-- The pattern of positive infinity. -/
def infinity (f : FloatFormat) : Nat := (twoPow f.exponentBits - 1) * twoPow f.fractionBits

/-- The bit that marks a negative number. -/
def signBit (f : FloatFormat) : Nat := twoPow (f.fractionBits + f.exponentBits)

end FloatFormat

/-- What a bit pattern stands for; a finite number is `m * 2 ^ q`, negated if `negative`. -/
inductive FloatKind where
  | nan
  | infinite (negative : Bool)
  | finite (negative : Bool) (m : Nat) (q : Int)
  deriving DecidableEq, Repr

/-- The quotient rounded to a whole number, a half to the even neighbour. -/
def roundHalfEven (num den : Nat) : Nat :=
  let d := num / den
  let r := num % den
  if 2 * r > den ∨ (2 * r = den ∧ d % 2 = 1) then d + 1 else d

/-- Whether `2 ^ e ≤ num / den`. -/
def reachesTwoPow (num den : Nat) (e : Int) : Bool :=
  if 0 ≤ e then den * twoPow e.toNat ≤ num else den ≤ num * twoPow (-e).toNat

/-- The exponent of the largest power of two that is at most `num / den`. -/
def floorLog2 (num den : Nat) : Int :=
  let guess : Int := (Nat.log2 num : Int) - (Nat.log2 den : Int)
  if reachesTwoPow num den guess then guess else guess - 1

namespace FloatFormat

/-- The pattern of the positive number `m * 2 ^ q`, where `q` is at least `lowest` and `m` has all
its bits unless `q` is `lowest`. A significand one bit too long is the next power of two. -/
def compose (f : FloatFormat) (m : Nat) (q : Int) : Nat :=
  min ((q - f.lowest).toNat * twoPow f.fractionBits + m) f.infinity

/-- The pattern of the number of the format that is closest to `num / den`; above the largest one it
is infinity. -/
def nearest (f : FloatFormat) (num den : Nat) : Nat :=
  if num = 0 then 0
  else
    let q := max (floorLog2 num den - f.fractionBits) f.lowest
    if 0 ≤ q then f.compose (roundHalfEven num (den * twoPow q.toNat)) q
    else f.compose (roundHalfEven (num * twoPow (-q).toNat) den) q

/-- What a pattern of the format stands for. -/
def kind (f : FloatFormat) (bits : Nat) : FloatKind :=
  let negative := f.signBit ≤ bits
  let magnitude := bits % f.signBit
  if magnitude = f.infinity then .infinite negative
  else if f.infinity < magnitude then .nan
  else
    let e := magnitude / twoPow f.fractionBits
    let fraction := magnitude % twoPow f.fractionBits
    if e = 0 then .finite negative fraction f.lowest
    else .finite negative (twoPow f.fractionBits + fraction) (f.lowest + e - 1)

/-- The pattern closest to `m * 2 ^ q`. -/
def nearestScaled (f : FloatFormat) (m : Nat) (q : Int) : Nat :=
  if 0 ≤ q then f.nearest (m * twoPow q.toNat) 1 else f.nearest m (twoPow (-q).toNat)

end FloatFormat

/-- A 64-bit floating-point number, told apart by its pattern. -/
structure Double where
  bits : UInt64
  deriving DecidableEq, Repr

/-- A 32-bit floating-point number, told apart by its pattern. -/
structure Single where
  bits : UInt32
  deriving DecidableEq, Repr

namespace Double

/-- The number with a given magnitude and sign. -/
def ofMagnitude (negative : Bool) (magnitude : Nat) : Double :=
  ⟨UInt64.ofNat (if negative then magnitude + FloatFormat.double.signBit else magnitude)⟩

/-- What the number is. -/
def kind (d : Double) : FloatKind := FloatFormat.double.kind d.bits.toNat

/-- Infinity of either sign. -/
def infinity (negative : Bool) : Double := ofMagnitude negative FloatFormat.double.infinity

/-- The pattern of "not a number" with the first fraction bit set. -/
def nan : Double := ⟨UInt64.ofNat (FloatFormat.double.infinity + twoPow 51)⟩

end Double

namespace Single

/-- The number with a given magnitude and sign. -/
def ofMagnitude (negative : Bool) (magnitude : Nat) : Single :=
  ⟨UInt32.ofNat (if negative then magnitude + FloatFormat.single.signBit else magnitude)⟩

/-- What the number is. -/
def kind (s : Single) : FloatKind := FloatFormat.single.kind s.bits.toNat

/-- The 32-bit number closest to a 64-bit one. -/
def ofDouble (d : Double) : Single :=
  match d.kind with
  | .nan => ⟨UInt32.ofNat (FloatFormat.single.infinity + twoPow 22)⟩
  | .infinite negative => ofMagnitude negative FloatFormat.single.infinity
  | .finite negative m q => ofMagnitude negative (FloatFormat.single.nearestScaled m q)

/-- The 32-bit number closest to an integer. -/
def ofInt (i : Int) : Single :=
  ofMagnitude (i < 0) (FloatFormat.single.nearest i.natAbs 1)

/-- Whether the number is greater than zero. "Not a number" is not. -/
def isPositive (s : Single) : Bool :=
  match s.kind with
  | .nan => false
  | .infinite negative => !negative
  | .finite negative m _ => !negative && m != 0

end Single

end Switchboard
