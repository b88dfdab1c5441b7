import Switchboard.Decimal.Shortest
/-!
Decimal numerals as they stand in a text, and the two ways of writing a binary number as one: with
all digits around the point, or with one digit before it and an exponent.
-/
namespace Switchboard

open Text

/-- A numeral in a text: an optional minus sign, the digits before the point, the digits after it
(none: there is no point), and the sign and the digits of the exponent if there is one. -/
structure Numeral where
  negative : Bool
  whole : List Digit
  fraction : List Digit
  exponent : Option (Bool × List Digit)
  deriving DecidableEq, Repr

namespace Numeral

/-- The numeral of an integer. -/
def ofInt (i : Int) : Numeral := ⟨i < 0, digits i.natAbs, [], none⟩

/-- The characters of a numeral. The exponent always has a sign. -/
def chars (n : Numeral) : List Char :=
  (if n.negative then ['-'] else []) ++ n.whole.map Digit.char ++
    (if n.fraction.isEmpty then [] else '.' :: n.fraction.map Digit.char) ++
    match n.exponent with
    | none => []
    | some (negative, ds) => 'e' :: (if negative then '-' else '+') :: ds.map Digit.char

end Numeral

/-- How a binary number is written: which of two equally close decimals is taken, the exponents of the
first digit for which all digits stand around the point, and whether a point is written where no digit
follows it. -/
structure NumberStyle where
  tie : Tie
  plainFrom : Option Int
  plainTo : Option Int
  alwaysPoint : Bool

namespace NumberStyle

/-- In JSON a 64-bit number has no exponent from 10^-5 up to below 10^16. -/
def jsonDouble : NumberStyle := ⟨.even, some (-5), some 15, true⟩

/-- In JSON a 32-bit number has no exponent from 10^-6 up to below 10^13. -/
def jsonSingle : NumberStyle := ⟨.even, some (-6), some 12, true⟩

/-- In a message a number never has an exponent, and a whole number no point. Of two equally close
decimals it shows the one further away from zero. -/
def message : NumberStyle := ⟨.away, none, none, false⟩

/-- Whether a number whose first digit has the exponent is written without one. -/
def isPlain (s : NumberStyle) (exponent : Int) : Bool :=
  (match s.plainFrom with | some low => low ≤ exponent | none => true) &&
    (match s.plainTo with | some high => exponent ≤ high | none => true)

/-- Digits after the point, where a style may ask for at least one. -/
def fraction (s : NumberStyle) (ds : List Digit) : List Digit :=
  if ds.isEmpty ∧ s.alwaysPoint then [.zero] else ds

/-- The numeral of a decimal in scientific form. -/
def numeral (s : NumberStyle) (negative : Bool) (d : Scientific) : Numeral :=
  if s.isPlain d.exponent then
    if d.exponent < 0 then
      ⟨negative, [.zero], s.fraction (List.replicate (-d.exponent - 1).toNat .zero ++ d.digits), none⟩
    else
      let places := d.exponent.toNat + 1
      let whole := d.digits.take places ++ List.replicate (places - d.digits.length) .zero
      ⟨negative, whole, s.fraction (d.digits.drop places), none⟩
  else
    ⟨negative, d.digits.take 1, d.digits.drop 1,
      some (d.exponent < 0, digits d.exponent.natAbs)⟩

/-- The numeral of `m * 2 ^ q`. -/
def numeralOf (s : NumberStyle) (f : FloatFormat) (negative : Bool) (m : Nat) (q : Int) : Numeral :=
  s.numeral negative (f.shortest s.tie m q)

end NumberStyle

/-- The numeral of a finite 64-bit number in JSON. -/
def Double.numeral? (d : Double) : Option Numeral :=
  match d.kind with
  | .finite negative m q => some (NumberStyle.jsonDouble.numeralOf .double negative m q)
  | _ => none

/-- The numeral of a finite 32-bit number in JSON. -/
def Single.numeral? (s : Single) : Option Numeral :=
  match s.kind with
  | .finite negative m q => some (NumberStyle.jsonSingle.numeralOf .single negative m q)
  | _ => none

/-- The text of a 32-bit number in a message. -/
def Single.shown (s : Single) : String :=
  match s.kind with
  | .nan => "NaN"
  | .infinite negative => if negative then "-inf" else "inf"
  | .finite negative m q =>
    String.ofList (NumberStyle.message.numeralOf .single negative m q).chars

end Switchboard
