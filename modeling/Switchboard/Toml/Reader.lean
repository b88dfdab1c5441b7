import Switchboard.Toml.Scalar
import Switchboard.Toml.Table
/-!
Reading TOML texts as documents. A text is a sequence of lines: values under keys, headers of tables, and
lines with nothing but a comment.
-/
namespace Switchboard.Toml

/-- How many names a key may have, and how many lists and inline tables may stand inside each other. -/
def depth : Nat := 79

/-- The names of a key before the last one, and the last one. -/
def splitKey? (key : List String) : Option (List String × String) :=
  key.getLast?.map fun name => (key.dropLast, name)

/-- Adds a value under a key to the entries of a table. -/
def Entries.assignKey (key : List String) (d : Doc) (es : Entries) : Option Entries := do
  let (way, name) ← splitKey? key
  es.assign d name way

mutual

/-- Takes a value of at most so many characters, inside which so many more lists and inline tables may
stand. -/
def value? (room : Nat) : Nat → List Char → Option (Doc × List Char)
  | 0, _ => none
  | n + 1, cs =>
    match cs with
    | '[' :: rest =>
      match room, skipSpace rest with
      | 0, _ => none
      | _ + 1, ']' :: rest => some (.list [], rest)
      | room + 1, rest => do
        let (items, rest) ← items? room n rest
        return (.list items, rest)
    | '{' :: rest =>
      match room, skipBlank rest with
      | 0, _ => none
      | _ + 1, '}' :: rest => some (.record [], rest)
      | room + 1, rest => do
        let (entries, rest) ← inline? room [] n rest
        return (.record (members entries), rest)
    | cs =>
      match cs with
      | '"' :: _ | '\'' :: _ => (string? cs).map fun (s, rest) => (.text (String.ofList s), rest)
      | cs => scalar? cs

/-- Takes the items of a list, of which there is one, and the closing bracket. There may be a comma
after the last item. -/
def items? (room : Nat) : Nat → List Char → Option (List Doc × List Char)
  | 0, _ => none
  | n + 1, cs => do
    let (d, rest) ← value? room n cs
    match skipSpace rest with
    | ']' :: rest => return ([d], rest)
    | ',' :: rest =>
      match skipSpace rest with
      | ']' :: rest => return ([d], rest)
      | rest => do
        let (ds, rest) ← items? room n rest
        return (d :: ds, rest)
    | _ => none

/-- Takes the entries of an inline table after those that it has, of which there is one more, and the
closing brace. -/
def inline? (room : Nat) (entries : Entries) : Nat → List Char → Option (Entries × List Char)
  | 0, _ => none
  | n + 1, cs => do
    let (key, rest) ← key? depth cs
    match rest with
    | '=' :: rest => do
      let (d, rest) ← value? room n (skipBlank rest)
      let entries ← entries.assignKey key d
      match skipBlank rest with
      | '}' :: rest => return (entries, rest)
      | ',' :: rest => inline? room entries n rest
      | _ => none
    | _ => none

end

/-- What has been read of a text: the entries of the root, and the names of the header that the next
lines stand under. -/
structure Progress where
  root : Entries := []
  header : List String := []

namespace Progress

/-- Opens the table of a header. -/
def openTable? (p : Progress) (key : List String) : Option Progress := do
  let (way, name) ← splitKey? key
  return { root := ← p.root.within (·.open? name) way, header := key }

/-- Starts one more table under a repeated header. -/
def repeatTable? (p : Progress) (key : List String) : Option Progress := do
  let (way, name) ← splitKey? key
  return { root := ← p.root.within (·.repeat? name) way, header := key }

/-- Adds a value under a key. -/
def assign? (p : Progress) (key : List String) (d : Doc) : Option Progress := do
  return { p with root := ← p.root.within (·.assignKey key d) p.header }

end Progress

/-- Reads a header that stands between brackets, so many at each end. -/
def header? (brackets : Nat) (cs : List Char) : Option (List String × List Char) := do
  let (key, rest) ← key? depth cs
  if rest.take brackets = List.replicate brackets ']' then
    return (key, ← endLine? (rest.drop brackets))
  else none

/-- Reads a value under a key. -/
def assignment? (p : Progress) (cs : List Char) : Option (Progress × List Char) := do
  let (key, rest) ← key? depth cs
  match rest with
  | '=' :: rest => do
    let rest := skipBlank rest
    let (d, rest) ← value? depth (2 * rest.length + 1) rest
    return (← p.assign? key d, ← endLine? rest)
  | _ => none

/-- Reads a line. -/
def line? (p : Progress) (cs : List Char) : Option (Progress × List Char) :=
  match skipBlank cs with
  | '[' :: '[' :: rest => do
    let (key, rest) ← header? 2 rest
    return (← p.repeatTable? key, rest)
  | '[' :: rest => do
    let (key, rest) ← header? 1 rest
    return (← p.openTable? key, rest)
  | cs =>
    match endLine? cs with
    | some rest => some (p, rest)
    | none => assignment? p cs

/-- Reads lines, so many at most, up to the end of the text. -/
def lines? (p : Progress) : Nat → List Char → Option Progress
  | _, [] => some p
  | 0, _ => none
  | n + 1, cs => do
    let (p, rest) ← line? p cs
    lines? p n rest

/-- The document of a text. A byte order mark at its start is passed over. -/
def read? (text : String) : Option Doc := do
  let cs := text.toList
  let cs := if cs.head? = some '\uFEFF' then cs.drop 1 else cs
  let p ← lines? {} (cs.length + 1) cs
  return .record (members p.root)

end Switchboard.Toml
