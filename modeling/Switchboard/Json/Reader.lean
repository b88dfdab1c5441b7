import Switchboard.Json.Lexeme
/-!
Reading JSON texts as documents. A text always has a document; where it stops being JSON the document
has a gap, and nothing after the gap is read.
-/
namespace Switchboard.Json

open Utf8

/-- What reading from the front of a text yields, and the rest of the text, if it goes on. -/
abbrev Taken (α : Type) := α × Option (List Piece)

/-- A gap in place of a value. -/
def broken (f : Fault) : Taken Doc := (.gap f, none)

/-- A word as a value. -/
def ofWord (build : α → Doc) : Except Fault (α × List Piece) → Taken Doc
  | .ok (a, rest) => (build a, some rest)
  | .error f => broken f

/-- A literal as a value. -/
def ofLiteral (d : Doc) : Except Fault (List Piece) → Taken Doc
  | .ok rest => (d, some rest)
  | .error f => broken f

/-- A last member with a fault in place of its name and value. -/
def brokenMember (f : Fault) : Taken (List (Except Fault String × Doc)) :=
  ([(.error f, .gap f)], none)

mutual

/-- Takes one value, of at most so many pieces. -/
def value : Nat → List Piece → Taken Doc
  | 0, _ => broken .cut
  | n + 1, ps =>
    match skipBlank ps with
    | [] => broken .cut
    | .char 'n' :: rest => ofLiteral .null (literal ['u', 'l', 'l'] rest)
    | .char 't' :: rest => ofLiteral (.bool true) (literal ['r', 'u', 'e'] rest)
    | .char 'f' :: rest => ofLiteral (.bool false) (literal ['a', 'l', 's', 'e'] rest)
    | .char '"' :: rest => ofWord .string (string rest)
    | .char '[' :: rest =>
      match skipBlank rest with
      | .char ']' :: rest => (.list [], some rest)
      | rest => let (ds, rest) := items n rest; (.list ds, rest)
    | .char '{' :: rest =>
      match skipBlank rest with
      | .char '}' :: rest => (.record [], some rest)
      | rest => let (ms, rest) := members n rest; (.record ms, rest)
    | .char c :: rest =>
      if c = '-' ∨ (Text.digit? c).isSome then ofWord .numeral (numeral (.char c :: rest))
      else broken .malformed
    | .broken _ :: _ => broken .malformed

/-- Takes the items of a list, of which there is one, and the closing bracket. -/
def items : Nat → List Piece → Taken (List Doc)
  | 0, _ => ([.gap .cut], none)
  | n + 1, ps =>
    match value n ps with
    | (d, none) => ([d], none)
    | (d, some rest) =>
      match skipBlank rest with
      | [] => ([d, .gap .cut], none)
      | .char ',' :: rest => let (ds, rest) := items n rest; (d :: ds, rest)
      | .char ']' :: rest => ([d], some rest)
      | _ => ([d, .gap .malformed], none)

/-- Takes the members of a record, of which there is one, and the closing brace. -/
def members : Nat → List Piece → Taken (List (Except Fault String × Doc))
  | 0, _ => brokenMember .cut
  | n + 1, ps =>
    match skipBlank ps with
    | [] => brokenMember .cut
    | .char '"' :: rest =>
      match string rest with
      | .error f => brokenMember f
      | .ok (name, rest) =>
        match skipBlank rest with
        | [] => ([(name, .gap .cut)], none)
        | .char ':' :: rest =>
          match value n rest with
          | (d, none) => ([(name, d)], none)
          | (d, some rest) =>
            match skipBlank rest with
            | [] => ([(name, d), (.error .cut, .gap .cut)], none)
            | .char ',' :: rest => let (ms, rest) := members n rest; ((name, d) :: ms, rest)
            | .char '}' :: rest => ([(name, d)], some rest)
            | _ => ([(name, d), (.error .malformed, .gap .malformed)], none)
        | _ => ([(name, .gap .malformed)], none)
    | _ => brokenMember .malformed

end

/-- A text as a document, and whether nothing but blank space follows it. -/
structure Text where
  root : Doc
  complete : Bool

/-- Reads a text. -/
def Text.ofBytes (octets : Bytes) : Text :=
  let ps := pieces octets
  match value (2 * ps.length + 1) ps with
  | (d, none) => ⟨d, true⟩
  | (d, some rest) => ⟨d, (skipBlank rest).isEmpty⟩

end Switchboard.Json
