import Switchboard.Decimal.Binary
import Switchboard.Text.Digits
/-!
The shortest decimal text of a binary number. Of the decimals that round to the number, `shortest`
takes one with the fewest digits, and of those the closest. Which of two equally close ones it takes is up to
the writer.
-/
namespace Switchboard

open Text

/-- A decimal in scientific form: the digits with the point after the first one, times a power of
ten. -/
structure Scientific where
  digits : List Digit
  exponent : Int
  deriving DecidableEq, Repr

/-- Which of two equally close decimals is taken: the one with an even last digit, or the one further
away from zero. -/
inductive Tie where
  | even
  | away
  deriving DecidableEq, Repr

/-- Whether of a multiple and the next one, if both are equally close, the first is taken. -/
def Tie.takesBelow : Tie → Nat → Bool
  | .even, below => below % 2 = 0
  | .away, _ => false

/-- The reals that round to a number: the number and the ends of the interval as multiples of a
quarter of its last bit, that quarter as a fraction, and whether the ends round to it as well. -/
structure Interval where
  low : Nat
  middle : Nat
  high : Nat
  unitNum : Nat
  unitDen : Nat
  closed : Bool

/-- The interval around `m * 2 ^ q`. Below a power of two the neighbours stand twice as close. -/
def FloatFormat.interval (f : FloatFormat) (m : Nat) (q : Int) : Interval :=
  let narrow := m = twoPow f.fractionBits ∧ f.lowest < q
  let unit := q - 2
  { low := if narrow then 4 * m - 1 else 4 * m - 2
    middle := 4 * m
    high := 4 * m + 2
    unitNum := if 0 ≤ unit then twoPow unit.toNat else 1
    unitDen := if 0 ≤ unit then 1 else twoPow (-unit).toNat
    closed := m % 2 = 0 }

namespace Interval

/-- Whether `10 ^ e` is at most the number. -/
def reachesTenPow (i : Interval) (e : Int) : Bool :=
  if 0 ≤ e then i.unitDen * tenPow e.toNat ≤ i.middle * i.unitNum
  else i.unitDen ≤ i.middle * i.unitNum * tenPow (-e).toNat

/-- Raises an exponent while the next power of ten is still at most the number, so many times at
most. -/
def raise (i : Interval) : Nat → Int → Int
  | 0, e => e
  | n + 1, e => if i.reachesTenPow (e + 1) then i.raise n (e + 1) else e

/-- The exponent of the largest power of ten that is at most the number: the logarithm to base two
times 0.30103 is at most one below it. -/
def floorLog10 (i : Interval) : Int :=
  let log2 := floorLog2 (i.middle * i.unitNum) i.unitDen
  i.raise 3 (Int.fdiv (log2 * 30103) 100000 - 1)

/-- Of the multiples of `10 ^ k` that lie in the interval the closest to the number, if there is
one, divided by `10 ^ k`. Only the two around the number can be closest. -/
def multipleOf (i : Interval) (tie : Tie) (k : Int) : Option Nat :=
  let scale := i.unitNum * (if 0 ≤ k then 1 else tenPow (-k).toNat)
  let den := i.unitDen * (if 0 ≤ k then tenPow k.toNat else 1)
  let low := i.low * scale
  let middle := i.middle * scale
  let high := i.high * scale
  let below := middle / den
  let above := below + 1
  let belowFits := if i.closed then low ≤ below * den else low < below * den
  let aboveFits := if i.closed then above * den ≤ high else above * den < high
  let down := middle - below * den
  let up := above * den - middle
  if belowFits ∧ aboveFits then
    some (if down < up ∨ (down = up ∧ tie.takesBelow below) then below else above)
  else if belowFits then some below
  else if aboveFits then some above
  else none

/-- The first hit with as many digits as tried so far or more, so many more at most. -/
def search (i : Interval) (tie : Tie) : Nat → Int → Nat × Int
  | 0, k => ((i.multipleOf tie k).getD 0, k)
  | n + 1, k =>
    match i.multipleOf tie k with
    | some d => (d, k)
    | none => i.search tie n (k - 1)

end Interval

/-- A decimal without the zeros at its end. -/
def Scientific.ofMultiple (d : Nat) (k : Int) : Scientific :=
  let ds := Text.digits d
  { digits :=
      match (ds.reverse.dropWhile (· = .zero)).reverse with
      | [] => [.zero]
      | kept => kept
    exponent := k + ds.length - 1 }

/-- The shortest decimal that rounds to `m * 2 ^ q`, in scientific form. -/
def FloatFormat.shortest (f : FloatFormat) (tie : Tie) (m : Nat) (q : Int) : Scientific :=
  if m = 0 then ⟨[.zero], 0⟩
  else
    let i := f.interval m q
    let (d, k) := i.search tie 17 i.floorLog10
    Scientific.ofMultiple d k

end Switchboard
