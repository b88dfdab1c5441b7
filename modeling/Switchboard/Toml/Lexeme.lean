import Switchboard.Text.Digits
/-!
Words of a TOML text that are not values: blank space, comments, ends of lines, strings and keys. Each
reader takes its word from the front of the text and returns the rest, or nothing if the text has no such
word there.
-/
namespace Switchboard.Toml

open Switchboard.Text

/-- Whether a character may stand in a comment: any but control characters, of which a tab may. -/
def isShown (c : Char) : Bool := c = '\t' || (0x20 ≤ c.toNat && c.toNat != 0x7F)

/-- Whether a character is blank within a line. -/
def isBlank (c : Char) : Bool := c = ' ' || c = '\t'

/-- The text after blank characters. -/
def skipBlank (cs : List Char) : List Char := cs.dropWhile isBlank

/-- The text after the end of a line, which may be the end of the text. -/
def lineEnd? : List Char → Option (List Char)
  | [] => some []
  | '\n' :: rest => some rest
  | '\r' :: '\n' :: rest => some rest
  | _ => none

/-- The text after a comment, if there is one. -/
def skipComment : List Char → List Char
  | '#' :: rest => rest.dropWhile isShown
  | cs => cs

/-- The text after a line on which nothing more than a comment may stand. -/
def endLine? (cs : List Char) : Option (List Char) := lineEnd? (skipComment (skipBlank cs))

/-- The text after blank space, ends of lines and comments, given whether it starts in a comment. -/
def skipSpaceFrom (inComment : Bool) : List Char → List Char
  | [] => []
  | '\r' :: '\n' :: rest => skipSpaceFrom false rest
  | c :: rest =>
    if inComment && isShown c then skipSpaceFrom true rest
    else if isBlank c || c = '\n' then skipSpaceFrom false rest
    else if c = '#' then skipSpaceFrom true rest
    else c :: rest

/-- The text after blank space, ends of lines and comments. -/
def skipSpace (cs : List Char) : List Char := skipSpaceFrom false cs

/-- The character that a letter after a backslash stands for. -/
def escaped? : Char → Option Char
  | '"' => some '"'
  | '\\' => some '\\'
  | 'b' => some '\x08'
  | 'f' => some '\x0c'
  | 'n' => some '\n'
  | 'r' => some '\r'
  | 't' => some '\t'
  | _ => none

/-- The character whose code hexadecimal digits write. -/
def ofHex? (cs : List Char) : Option Char := do
  let ds ← cs.mapM hexDigit?
  let n := ds.foldl (fun n d => n * 16 + d) 0
  if n.isValidChar then some (Char.ofNat n) else none

/-- After one quote: if the string ends here, the quotes that still belong to it, and the rest. Three
quotes end a string of several lines, and up to two before them belong to it. -/
def close? (quote : Char) (multiline : Bool) (cs : List Char) : Option (List Char × List Char) :=
  if !multiline then some ([], cs)
  else
    let run := (cs.take 4).takeWhile (· = quote)
    if run.length < 2 then none else some (run.drop 2, cs.drop run.length)

/-- Puts a character before what else a string holds. -/
def before (c : Char) (r : Option (List Char × List Char)) : Option (List Char × List Char) :=
  r.map fun (cs, rest) => (c :: cs, rest)

/-- Takes the characters of a string in single quotes, after the opening ones. -/
def literal (multiline : Bool) : List Char → Option (List Char × List Char)
  | [] => none
  | '\r' :: '\n' :: rest => if multiline then before '\n' (literal multiline rest) else none
  | c :: rest =>
    if c = '\'' then
      match close? c multiline rest with
      | some closed => some closed
      | none => before c (literal multiline rest)
    else if isShown c || (multiline && c = '\n') then before c (literal multiline rest)
    else none

/-- Where a reader is in a string: among its characters, after a backslash on the rest of a line, or in
the blank space after the end of that line. -/
inductive Fold where
  | off
  | line
  | space
  deriving DecidableEq

/-- The character of an escape and what else a string holds. -/
def beforeHex (ds : List Char) (r : Option (List Char × List Char)) :
    Option (List Char × List Char) := do before (← ofHex? ds) r

/-- Takes the characters of a string in double quotes, after the opening ones. A backslash at the end of
a line takes all blank space after it out of the string. -/
def basic (multiline : Bool) (fold : Fold) : List Char → Option (List Char × List Char)
  | [] => none
  | '\r' :: '\n' :: rest =>
    if !multiline then none
    else if fold = .off then before '\n' (basic multiline .off rest)
    else basic multiline .space rest
  | '\\' :: 'u' :: a :: b :: c :: d :: rest =>
    if fold = .line then none else beforeHex [a, b, c, d] (basic multiline .off rest)
  | '\\' :: 'U' :: a :: b :: c :: d :: e :: f :: g :: h :: rest =>
    if fold = .line then none else beforeHex [a, b, c, d, e, f, g, h] (basic multiline .off rest)
  | '\\' :: c :: rest =>
    if fold = .line then none
    else
      match escaped? c with
      | some c => before c (basic multiline .off rest)
      | none =>
        if multiline && (isBlank c || c = '\n' || c = '\r') then basic multiline .line (c :: rest)
        else none
  | c :: rest =>
    if c = '\n' then
      if !multiline then none
      else if fold = .off then before '\n' (basic multiline .off rest)
      else basic multiline .space rest
    else if fold ≠ .off && isBlank c then basic multiline fold rest
    else if fold = .line then none
    else if c = '"' then
      match close? c multiline rest with
      | some closed => some closed
      | none => before c (basic multiline .off rest)
    else if isShown c then before c (basic multiline .off rest)
    else none

/-- The text after the end of a line right after the opening quotes, if there is one. -/
def skipFirstEnd : List Char → List Char
  | '\n' :: rest => rest
  | '\r' :: '\n' :: rest => rest
  | cs => cs

/-- Takes a string on one line, if there is a quote. -/
def lineString? : List Char → Option (List Char × List Char)
  | '"' :: rest => basic false .off rest
  | '\'' :: rest => literal false rest
  | _ => none

/-- Takes a string. -/
def string? : List Char → Option (List Char × List Char)
  | '"' :: '"' :: '"' :: rest => basic true .off (skipFirstEnd rest)
  | '\'' :: '\'' :: '\'' :: rest => literal true (skipFirstEnd rest)
  | cs => lineString? cs

/-- Whether a character may stand in a key without quotes. -/
def isBare (c : Char) : Bool :=
  ('a' ≤ c && c ≤ 'z') || ('A' ≤ c && c ≤ 'Z') || ('0' ≤ c && c ≤ '9') || c = '_' || c = '-'

/-- Takes one name of a key. -/
def name? (cs : List Char) : Option (String × List Char) :=
  match cs.takeWhile isBare with
  | [] => (lineString? cs).map fun (name, rest) => (String.ofList name, rest)
  | name => some (String.ofList name, cs.dropWhile isBare)

/-- Takes the names of a key, so many at most, with points between them. -/
def key? : Nat → List Char → Option (List String × List Char)
  | 0, _ => none
  | n + 1, cs => do
    let (name, rest) ← name? (skipBlank cs)
    match skipBlank rest with
    | '.' :: rest => do
      let (names, rest) ← key? n rest
      return (name :: names, rest)
    | rest => return ([name], rest)

end Switchboard.Toml
