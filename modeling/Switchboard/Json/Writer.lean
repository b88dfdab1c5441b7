import Switchboard.Doc.Basic
/-!
Writing documents as JSON texts, without blank space. Only quotes, backslashes and control characters
are escaped, and a float that is no real number is written as null.
-/
namespace Switchboard.Json

open Switchboard.Text

/-- The characters that write one character of a string. -/
def escape (c : Char) : List Char :=
  match c with
  | '"' => ['\\', '"']
  | '\\' => ['\\', '\\']
  | '\x08' => ['\\', 'b']
  | '\x0c' => ['\\', 'f']
  | '\n' => ['\\', 'n']
  | '\r' => ['\\', 'r']
  | '\t' => ['\\', 't']
  | c =>
    if c.toNat < 0x20 then ['\\', 'u', '0', '0', hexChar (c.toNat / 16), hexChar (c.toNat % 16)]
    else [c]

/-- A text in quotes. -/
def quote (s : String) : List Char := '"' :: s.toList.flatMap escape ++ ['"']

/-- The characters of a numeral, if there is one. -/
def numeralOrNull : Option Numeral → List Char
  | some n => n.chars
  | none => ['n', 'u', 'l', 'l']

mutual

/-- The characters of a document. -/
def chars : Doc → List Char
  | .null => ['n', 'u', 'l', 'l']
  | .bool true => ['t', 'r', 'u', 'e']
  | .bool false => ['f', 'a', 'l', 's', 'e']
  | .numeral n => n.chars
  | .double d => numeralOrNull d.numeral?
  | .string s => quote (Doc.sortKey s)
  | .list items => '[' :: itemChars items
  | .record members => '{' :: memberChars members
  | .gap _ => []

/-- The characters of the items of a list and of its closing bracket. -/
def itemChars : List Doc → List Char
  | [] => [']']
  | [d] => chars d ++ [']']
  | d :: rest => chars d ++ ',' :: itemChars rest

/-- The characters of the members of a record and of its closing brace. -/
def memberChars : List (Except Fault String × Doc) → List Char
  | [] => ['}']
  | [(name, d)] => quote (Doc.sortKey name) ++ ':' :: chars d ++ ['}']
  | (name, d) :: rest => quote (Doc.sortKey name) ++ ':' :: chars d ++ ',' :: memberChars rest

end

/-- The text of a document. -/
def write (d : Doc) : String := String.ofList (chars d)

end Switchboard.Json
