/-!
Decimal digits. `digits` writes a number without leading zeros and `ofDigits` reads any list of
digits; `readInt?` reads the digits with an optional sign that a setting in the environment may hold.
-/
namespace Switchboard.Text

/-- A decimal digit. -/
abbrev Digit := Fin 10

/-- The digit of nothing. -/
def Digit.zero : Digit := ⟨0, by decide⟩

/-- The character of a digit. -/
def Digit.char (d : Digit) : Char := Char.ofNat (48 + d.val)

/-- The digit of a character, if it is one of the ten ASCII digits. -/
def digit? (c : Char) : Option Digit :=
  if h : 48 ≤ c.toNat ∧ c.toNat < 58 then some ⟨c.toNat - 48, by omega⟩ else none

/-- The number that digits spell, the most significant first, after `before`. -/
def ofDigitsAfter (before : Nat) (ds : List Digit) : Nat :=
  ds.foldl (fun n d => n * 10 + d.val) before

/-- The number that digits spell; none spell zero. -/
def ofDigits (ds : List Digit) : Nat := ofDigitsAfter 0 ds

/-- The digits of a number, the least significant first; zero has none. -/
def digitsUp (n : Nat) : List Digit :=
  if h : n = 0 then [] else ⟨n % 10, by omega⟩ :: digitsUp (n / 10)
termination_by n
decreasing_by omega

/-- The digits of a number without leading zeros; zero is the one digit 0. -/
def digits (n : Nat) : List Digit := if n = 0 then [.zero] else (digitsUp n).reverse

/-- A number in decimal. -/
def decimal (n : Nat) : String := String.ofList ((digits n).map Digit.char)

/-- An integer in decimal, with a minus sign if it is negative. -/
def decimalInt (i : Int) : String := if i < 0 then "-" ++ decimal i.natAbs else decimal i.natAbs

/-- All characters as digits, if there is at least one and each is a digit. -/
def digitList? (cs : List Char) : Option (List Digit) :=
  if cs.isEmpty then none else cs.mapM digit?

/-- A number of ASCII digits, with any leading zeros and an optional plus sign. -/
def readNat? : List Char → Option Nat
  | '+' :: cs => (digitList? cs).map ofDigits
  | cs => (digitList? cs).map ofDigits

/-- A number as `readNat?` reads it, or digits after a minus sign. -/
def readInt? : List Char → Option Int
  | '-' :: cs => (digitList? cs).map fun ds => -(ofDigits ds : Int)
  | cs => (readNat? cs).map Int.ofNat

/-- The value of a hexadecimal digit in either case. -/
def hexDigit? (c : Char) : Option Nat :=
  let n := c.toNat
  if 48 ≤ n ∧ n < 58 then some (n - 48)
  else if 65 ≤ n ∧ n < 71 then some (n - 55)
  else if 97 ≤ n ∧ n < 103 then some (n - 87)
  else none

/-- The hexadecimal digit of a number below sixteen, in lower case. -/
def hexChar (n : Nat) : Char := if n < 10 then Char.ofNat (48 + n) else Char.ofNat (87 + n)

end Switchboard.Text
