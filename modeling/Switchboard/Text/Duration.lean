import Switchboard.Text.Digits
/-!
The text of a span of time in a message: milliseconds below one second, and seconds from there on, with
as many places as are needed.
-/
namespace Switchboard.Text

/-- The places after the point of a number of thousandths, without zeros at the end. -/
def thousandths (n : Nat) : List Digit :=
  let ds := digits (1000 + n)
  ((ds.drop 1).reverse.dropWhile (· = .zero)).reverse

/-- The text of a span of so many milliseconds. No time at all is counted in nanoseconds. -/
def duration (milliseconds : Nat) : String :=
  if milliseconds = 0 then "0ns"
  else if milliseconds < 1000 then decimal milliseconds ++ "ms"
  else
    let places := thousandths (milliseconds % 1000)
    decimal (milliseconds / 1000) ++
      (if places.isEmpty then "" else "." ++ String.ofList (places.map Digit.char)) ++ "s"

end Switchboard.Text
