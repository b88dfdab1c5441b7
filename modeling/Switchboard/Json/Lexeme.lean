import Switchboard.Doc.Basic
import Switchboard.Text.Utf8
/-!
The words of a JSON text: literals, numerals and quoted strings. Each reader takes its word from the
front of a list of pieces and returns the rest, or the fault at which the text stops.
-/
namespace Switchboard.Json

open Text Utf8

/-- The pieces after blank space. -/
def skipBlank : List Piece → List Piece
  | .char c :: rest =>
    if c = ' ' ∨ c = '\t' ∨ c = '\n' ∨ c = '\r' then skipBlank rest else .char c :: rest
  | ps => ps

/-- Takes the characters of a literal. -/
def literal : List Char → List Piece → Except Fault (List Piece)
  | [], ps => .ok ps
  | _ :: _, [] => .error .cut
  | c :: cs, p :: ps => if p = .char c then literal cs ps else .error .malformed

/-- Takes as many digits as there are. -/
def takeDigits : List Piece → List Digit × List Piece
  | .char c :: rest =>
    match digit? c with
    | some d => let (ds, rest) := takeDigits rest; (d :: ds, rest)
    | none => ([], .char c :: rest)
  | ps => ([], ps)

/-- The fault of a text that has no digit where one is needed. -/
def noDigit : List Piece → Fault
  | [] => .cut
  | _ => .malformed

/-- Takes the digits after a point or an exponent sign, of which there must be one. -/
def someDigits (ps : List Piece) : Except Fault (List Digit × List Piece) :=
  match takeDigits ps with
  | ([], rest) => .error (noDigit rest)
  | (ds, rest) => .ok (ds, rest)

/-- Takes the digits before a point. A zero stands alone. -/
def wholeDigits (ps : List Piece) : Except Fault (List Digit × List Piece) :=
  match takeDigits ps with
  | ([], rest) => .error (noDigit rest)
  | (0 :: _ :: _, _) => .error .malformed
  | (ds, rest) => .ok (ds, rest)

/-- Takes a point and the digits after it, if there is a point. -/
def fractionDigits : List Piece → Except Fault (List Digit × List Piece)
  | .char '.' :: rest => someDigits rest
  | ps => .ok ([], ps)

/-- Takes the sign and the digits of an exponent. -/
def exponentDigits : List Piece → Except Fault (Option (Bool × List Digit) × List Piece)
  | .char '+' :: rest => do let (ds, rest) ← someDigits rest; return (some (false, ds), rest)
  | .char '-' :: rest => do let (ds, rest) ← someDigits rest; return (some (true, ds), rest)
  | ps => do let (ds, rest) ← someDigits ps; return (some (false, ds), rest)

/-- Takes an exponent, if there is one. -/
def exponentPart : List Piece → Except Fault (Option (Bool × List Digit) × List Piece)
  | .char 'e' :: rest => exponentDigits rest
  | .char 'E' :: rest => exponentDigits rest
  | ps => .ok (none, ps)

/-- Takes a numeral without its sign. -/
def unsigned (negative : Bool) (ps : List Piece) : Except Fault (Numeral × List Piece) := do
  let (whole, rest) ← wholeDigits ps
  let (fraction, rest) ← fractionDigits rest
  let (exponent, rest) ← exponentPart rest
  return (⟨negative, whole, fraction, exponent⟩, rest)

/-- Takes a numeral. -/
def numeral : List Piece → Except Fault (Numeral × List Piece)
  | .char '-' :: rest => unsigned true rest
  | ps => unsigned false ps

/-- What a quoted string has been found to hold: characters, the last one first, possibly with the
first half of a character written as two escapes, and whether there are octets among them that are no
text; or half a character alone. -/
inductive Quoted where
  | held (reversed : List Char) (high : Option Nat) (spoiled : Bool)
  | lone

namespace Quoted

/-- Nothing held yet. -/
def empty : Quoted := .held [] none false

/-- The string with one more character. -/
def push (q : Quoted) (c : Char) : Quoted :=
  match q with
  | .held cs none spoiled => .held (c :: cs) none spoiled
  | _ => .lone

/-- The string with octets that are no text. -/
def spoil : Quoted → Quoted
  | .held cs none _ => .held cs none true
  | _ => .lone

/-- The string with one more escaped code unit. The units 0xD800 to 0xDBFF are first halves and need
one of 0xDC00 to 0xDFFF after them. -/
def pushUnit (q : Quoted) (n : Nat) : Quoted :=
  match q with
  | .held cs none spoiled =>
    if 0xD800 ≤ n ∧ n < 0xDC00 then .held cs (some n) spoiled
    else if 0xDC00 ≤ n ∧ n < 0xE000 then .lone
    else .held (Char.ofNat n :: cs) none spoiled
  | .held cs (some high) spoiled =>
    if 0xDC00 ≤ n ∧ n < 0xE000 then
      .held (Char.ofNat (0x10000 + (high - 0xD800) * 0x400 + (n - 0xDC00)) :: cs) none spoiled
    else .lone
  | .lone => .lone

/-- The text of a string whose closing quote has been reached. -/
def close : Quoted → Except Fault String
  | .held cs none false => .ok (String.ofList cs.reverse)
  | _ => .error .malformed

/-- The fault of a string that the end of the text has cut. Octets that are no text would only be found
at the closing quote, half a character is found before. -/
def cut : Quoted → Fault
  | .held _ _ _ => .cut
  | .lone => .malformed

end Quoted

/-- The character that a letter after a backslash stands for. -/
def escaped? : Char → Option Char
  | '"' => some '"'
  | '\\' => some '\\'
  | '/' => some '/'
  | 'b' => some '\x08'
  | 'f' => some '\x0c'
  | 'n' => some '\n'
  | 'r' => some '\r'
  | 't' => some '\t'
  | _ => none

/-- The number that four hexadecimal digits write. -/
def hexUnit? : Piece → Piece → Piece → Piece → Option Nat
  | .char a, .char b, .char c, .char d => do
    let a ← hexDigit? a
    let b ← hexDigit? b
    let c ← hexDigit? c
    let d ← hexDigit? d
    return a * 4096 + b * 256 + c * 16 + d
  | _, _, _, _ => none

/-- The number of octets that are left. -/
def octetsLeft (ps : List Piece) : Nat := ps.foldl (fun n p => n + p.size) 0

/-- Takes a string after its opening quote, given what it holds so far. -/
def quoted (q : Quoted) : List Piece → Except Fault (Except Fault String × List Piece)
  | [] => .error q.cut
  | .broken _ :: rest => quoted q.spoil rest
  | .char '"' :: rest => .ok (q.close, rest)
  | .char '\\' :: [] => .error q.cut
  | .char '\\' :: .char 'u' :: a :: b :: c :: d :: rest =>
    match hexUnit? a b c d with
    | some n => quoted (q.pushUnit n) rest
    | none => .error .malformed
  | .char '\\' :: .char 'u' :: rest =>
    if octetsLeft rest < 4 then .error q.cut else .error .malformed
  | .char '\\' :: .char c :: rest =>
    match escaped? c with
    | some c => quoted (q.push c) rest
    | none => .error .malformed
  | .char '\\' :: .broken _ :: _ => .error .malformed
  | .char c :: rest => if c.toNat < 0x20 then .error .malformed else quoted (q.push c) rest

/-- Takes a string after its opening quote. -/
def string (ps : List Piece) : Except Fault (Except Fault String × List Piece) :=
  quoted .empty ps

end Switchboard.Json
