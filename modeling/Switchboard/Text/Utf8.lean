/-!
Text in octets. `pieces` cuts a list of octets into characters and the parts that are no text, and
loses nothing: `text?` is the strict reading, `lossy` the reading that shows a replacement character
for every part that is no text.
-/
namespace Switchboard

/-- The octets that travel between a client and its engine. -/
abbrev Bytes := List UInt8

namespace Utf8

/-- A character, or octets in which no character begins: a longest start of a character that the
next octet does not continue, or a single octet that starts none. -/
inductive Piece where
  | char (c : Char)
  | broken (octets : Bytes)
  deriving DecidableEq, Repr

/-- The start of a character of several octets: what has been taken, the bits in it, how many
octets are still owed, and the range of the next one. -/
structure Partial where
  taken : Bytes
  bits : Nat
  owed : Nat
  low : UInt8
  high : UInt8

/-- What one octet between characters is: a whole piece, or the start of a character. -/
def begin (b : UInt8) : Piece ⊕ Partial :=
  if b < 0x80 then .inl (.char (Char.ofNat b.toNat))
  else if b < 0xC2 then .inl (.broken [b])
  else if b < 0xE0 then .inr ⟨[b], b.toNat - 0xC0, 1, 0x80, 0xBF⟩
  else if b < 0xF0 then
    .inr ⟨[b], b.toNat - 0xE0, 2, if b = 0xE0 then 0xA0 else 0x80, if b = 0xED then 0x9F else 0xBF⟩
  else if b < 0xF5 then
    .inr ⟨[b], b.toNat - 0xF0, 3, if b = 0xF0 then 0x90 else 0x80, if b = 0xF4 then 0x8F else 0xBF⟩
  else .inl (.broken [b])

/-- The partial character with one more octet taken. -/
def Partial.extend (p : Partial) (b : UInt8) : Partial :=
  ⟨p.taken ++ [b], p.bits * 64 + (b.toNat - 0x80), p.owed - 1, 0x80, 0xBF⟩

/-- Cuts octets into pieces, given the character that has been started before them. -/
def scan : Option Partial → Bytes → List Piece
  | none, [] => []
  | some p, [] => [.broken p.taken]
  | none, b :: rest =>
    match begin b with
    | .inl piece => piece :: scan none rest
    | .inr p => scan (some p) rest
  | some p, b :: rest =>
    if p.low ≤ b ∧ b ≤ p.high then
      if p.owed ≤ 1 then .char (Char.ofNat (p.extend b).bits) :: scan none rest
      else scan (some (p.extend b)) rest
    else
      .broken p.taken ::
        match begin b with
        | .inl piece => piece :: scan none rest
        | .inr q => scan (some q) rest

/-- The characters and the broken parts of a list of octets, in order. -/
def pieces (octets : Bytes) : List Piece := scan none octets

/-- The character that stands for a piece in the lossy reading. -/
def Piece.shown : Piece → Char
  | .char c => c
  | .broken _ => '\uFFFD'

/-- The number of octets a piece was cut from. -/
def Piece.size : Piece → Nat
  | .char c => c.utf8Size
  | .broken octets => octets.length

/-- The characters of pieces that are all characters. -/
def chars? : List Piece → Option (List Char)
  | [] => some []
  | .char c :: rest => (chars? rest).map (c :: ·)
  | .broken _ :: _ => none

/-- The text that octets spell, if they spell one. -/
def text? (octets : Bytes) : Option String := (chars? (pieces octets)).map String.ofList

/-- The text of octets, with one replacement character for each broken part. -/
def lossy (octets : Bytes) : String := String.ofList ((pieces octets).map Piece.shown)

/-- The octets of a text. -/
def encode (s : String) : Bytes := s.toList.flatMap String.utf8EncodeChar

end Utf8

end Switchboard
