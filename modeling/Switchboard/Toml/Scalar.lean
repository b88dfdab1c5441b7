import Switchboard.Toml.Lexeme
import Switchboard.Doc.Basic
/-!
Truth values, numbers, dates and times in a TOML text. Digits may be grouped by single underscores. Integers
have 64 bits with a sign; a float that is too large is refused, unless it is negative: then it is negative
infinity.
-/
namespace Switchboard.Toml

open Switchboard.Text

/-- Takes the digits that go on after a digit. -/
def moreDigits {α : Type} (digit? : Char → Option α) : List Char → Option (List α × List Char)
  | [] => some ([], [])
  | '_' :: [] => none
  | '_' :: c :: rest => do
    let d ← digit? c
    let (ds, rest) ← moreDigits digit? rest
    return (d :: ds, rest)
  | c :: rest =>
    match digit? c with
    | none => some ([], c :: rest)
    | some d => do
      let (ds, rest) ← moreDigits digit? rest
      return (d :: ds, rest)

/-- Takes digits, of which there must be one. -/
def digits? {α : Type} (digit? : Char → Option α) : List Char → Option (List α × List Char)
  | [] => none
  | c :: rest => do
    let d ← digit? c
    let (ds, rest) ← moreDigits digit? rest
    return (d :: ds, rest)

/-- An integer, if it has at most 64 bits. -/
def integer? (i : Int) : Option Doc :=
  if -9223372036854775808 ≤ i ∧ i ≤ 9223372036854775807 then some (.int i) else none

/-- The value of a digit below a base. -/
def digitBelow? (base : Nat) (c : Char) : Option Nat := (hexDigit? c).filter (· < base)

/-- Takes an integer with a base, after the letter for the base. -/
def radix? (base : Nat) (cs : List Char) : Option (Doc × List Char) := do
  let (ds, rest) ← digits? (digitBelow? base) cs
  let n := ds.foldl (fun n d => n * base + d) 0
  return (← integer? n, rest)

/-- Takes digits before a point. A zero stands alone. -/
def whole? (cs : List Char) : Option (List Digit × List Char) :=
  match digits? digit? cs with
  | some (0 :: _ :: _, _) => none
  | r => r

/-- Takes the digits after a point, if there is a point. -/
def fraction? : List Char → Option (List Digit × List Char)
  | '.' :: rest => digits? digit? rest
  | cs => some ([], cs)

/-- Takes the sign, if there is one, and whether it is a minus. -/
def sign : List Char → Bool × List Char
  | '-' :: rest => (true, rest)
  | '+' :: rest => (false, rest)
  | cs => (false, cs)

/-- Takes the sign and the digits of an exponent. -/
def signedDigits? (cs : List Char) : Option (Option (Bool × List Digit) × List Char) := do
  let (negative, cs) := sign cs
  let (ds, rest) ← digits? digit? cs
  return (some (negative, ds), rest)

/-- Takes an exponent, if there is one. -/
def exponent? : List Char → Option (Option (Bool × List Digit) × List Char)
  | 'e' :: rest => signedDigits? rest
  | 'E' :: rest => signedDigits? rest
  | cs => some (none, cs)

/-- The value of a numeral. -/
def ofNumeral? (n : Numeral) : Option Doc :=
  if n.fraction.isEmpty ∧ n.exponent.isNone then
    integer? (if n.negative then -(ofDigits n.whole : Int) else ofDigits n.whole)
  else
    let d := n.nearestDouble
    if d = Double.infinity false then none else some (.double d)

/-- Takes a decimal number after its sign. -/
def decimal? (negative : Bool) (cs : List Char) : Option (Doc × List Char) := do
  let (whole, rest) ← whole? cs
  let (fraction, rest) ← fraction? rest
  let (exponent, rest) ← exponent? rest
  return (← ofNumeral? ⟨negative, whole, fraction, exponent⟩, rest)

/-- Takes a number after its sign. -/
def signed? (negative : Bool) : List Char → Option (Doc × List Char)
  | 'i' :: 'n' :: 'f' :: rest => some (.double (.infinity negative), rest)
  | 'n' :: 'a' :: 'n' :: rest => some (.double .nan, rest)
  | cs => decimal? negative cs

/-- Takes a number. -/
def number? : List Char → Option (Doc × List Char)
  | '0' :: 'x' :: rest => radix? 16 rest
  | '0' :: 'o' :: rest => radix? 8 rest
  | '0' :: 'b' :: rest => radix? 2 rest
  | cs => let (negative, cs) := sign cs; signed? negative cs

/-- Takes so many digits, and the number they write. -/
def fixed? (count : Nat) (cs : List Char) : Option (Nat × List Char) := do
  let ds ← (cs.take count).mapM digit?
  if ds.length = count then return (ofDigits ds, cs.drop count) else none

/-- Takes a number of two digits from `low` to `high`. -/
def within? (low high : Nat) (cs : List Char) : Option (Nat × List Char) := do
  let (n, rest) ← fixed? 2 cs
  if low ≤ n ∧ n ≤ high then return (n, rest) else none

/-- The text after a character. -/
def after? (c : Char) : List Char → Option (List Char)
  | [] => none
  | d :: rest => if d = c then some rest else none

/-- The number of days in a month. -/
def daysIn (year month : Nat) : Nat :=
  if month = 2 then if year % 4 = 0 ∧ (year % 100 ≠ 0 ∨ year % 400 = 0) then 29 else 28
  else if month ∈ [4, 6, 9, 11] then 30
  else 31

/-- The text after a date. -/
def date? (cs : List Char) : Option (List Char) := do
  let (year, cs) ← fixed? 4 cs
  let (month, cs) ← within? 1 12 (← after? '-' cs)
  let (_, cs) ← within? 1 (daysIn year month) (← after? '-' cs)
  return cs

/-- The text after the digits of a part of a second, if there is a point. -/
def skipSecondPart? : List Char → Option (List Char)
  | '.' :: rest =>
    match rest.dropWhile fun c => (digit? c).isSome with
    | left => if left.length = rest.length then none else some left
  | cs => some cs

/-- The text after a time of day. -/
def time? (cs : List Char) : Option (List Char) := do
  let (_, cs) ← within? 0 23 cs
  let (_, cs) ← within? 0 59 (← after? ':' cs)
  let (_, cs) ← within? 0 60 (← after? ':' cs)
  skipSecondPart? cs

/-- The text after the hours and minutes of an offset. -/
def offset? (cs : List Char) : Option (List Char) := do
  let (_, cs) ← within? 0 23 cs
  let (_, cs) ← within? 0 59 (← after? ':' cs)
  return cs

/-- The text after an offset from universal time, if there is one. -/
def skipOffset? : List Char → Option (List Char)
  | 'Z' :: rest => some rest
  | 'z' :: rest => some rest
  | '+' :: rest => offset? rest
  | '-' :: rest => offset? rest
  | cs => some cs

/-- The text after the time that may follow a date. A space belongs to it only if a digit follows. -/
def skipTime? : List Char → Option (List Char)
  | 'T' :: rest => time? rest >>= skipOffset?
  | 't' :: rest => time? rest >>= skipOffset?
  | ' ' :: c :: rest =>
    if (digit? c).isSome then time? (c :: rest) >>= skipOffset? else some (' ' :: c :: rest)
  | cs => some cs

/-- Whether a text starts with the year of a date or the hour of a time. -/
def startsMoment (cs : List Char) : Bool :=
  ((fixed? 4 cs).any fun r => r.2.head? = some '-') ||
    ((fixed? 2 cs).any fun r => r.2.head? = some ':')

/-- The text after a date, a time, or both. -/
def moment? (cs : List Char) : Option (List Char) :=
  if (fixed? 4 cs).isSome then date? cs >>= skipTime? else time? cs

/-- Takes a truth value, a number, a date or a time. No type holds a date or a time, so a gap stands for
one. -/
def scalar? : List Char → Option (Doc × List Char)
  | 't' :: 'r' :: 'u' :: 'e' :: rest => some (.bool true, rest)
  | 'f' :: 'a' :: 'l' :: 's' :: 'e' :: rest => some (.bool false, rest)
  | cs => if startsMoment cs then (moment? cs).map fun rest => (.gap .malformed, rest) else number? cs

end Switchboard.Toml
