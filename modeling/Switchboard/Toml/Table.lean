import Switchboard.Doc.Basic
/-!
Tables of a TOML text while it is being read. A table grows by headers and by keys with points, and how it
came to be decides which of them may still add to it: what has a header of its own is closed for keys with
points from elsewhere, what was made by such keys has no header, and a value is complete.
-/
namespace Switchboard.Toml

/-- How a table came to be: by a header of its own, on the way of a longer header, or by a key with
points. -/
inductive Origin where
  | header
  | implied
  | dotted
  deriving DecidableEq, Repr

/-- What stands under a key: a value, a table, or tables under a repeated header, the last one first. -/
inductive Entry where
  | value (d : Doc)
  | table (origin : Origin) (entries : List (String × Entry))
  | tables (latest : List (String × Entry)) (earlier : List Doc)

/-- The entries of a table. -/
abbrev Entries := List (String × Entry)

mutual

/-- The document of an entry. -/
def Entry.doc : Entry → Doc
  | .value d => d
  | .table _ entries => .record (members entries)
  | .tables latest earlier => .list (earlier.reverse ++ [.record (members latest)])

/-- The members of a table. -/
def members : List (String × Entry) → List (Except Fault String × Doc)
  | [] => []
  | (name, e) :: rest => (.ok name, e.doc) :: members rest

end

namespace Entries

/-- The entry under a name. -/
def find? (es : Entries) (name : String) : Option Entry :=
  (List.find? (fun e => e.1 == name) es).map Prod.snd

/-- The entries with an entry put under a name. -/
def put (name : String) (new : Entry) : Entries → Entries
  | [] => [(name, new)]
  | (n, e) :: rest => if n = name then (n, new) :: rest else (n, e) :: put name new rest

/-- Adds a value under a name that nothing stands under. -/
def add (name : String) (d : Doc) (es : Entries) : Option Entries :=
  match es.find? name with
  | none => some (es.put name (.value d))
  | some _ => none

/-- Changes the entries of the table that names lead to, of which tables under a repeated header are the
last one. Tables that are not there yet are made on the way. -/
def within (change : Entries → Option Entries) : List String → Entries → Option Entries
  | [], es => change es
  | name :: rest, es => do
    match es.find? name with
    | none => return es.put name (.table .implied (← within change rest []))
    | some (.table origin inner) => return es.put name (.table origin (← within change rest inner))
    | some (.tables latest earlier) => return es.put name (.tables (← within change rest latest) earlier)
    | some (.value _) => none

/-- Gives the table under a name a header. Only a table on the way of a longer header may have been
there. -/
def open? (name : String) (es : Entries) : Option Entries :=
  match es.find? name with
  | none => some (es.put name (.table .header []))
  | some (.table .implied inner) => some (es.put name (.table .header inner))
  | some _ => none

/-- Starts one more table under a repeated header. -/
def repeat? (name : String) (es : Entries) : Option Entries :=
  match es.find? name with
  | none => some (es.put name (.tables [] []))
  | some (.tables latest earlier) => some (es.put name (.tables [] (.record (members latest) :: earlier)))
  | some _ => none

/-- Adds a value under a key with points, after the names of the tables that it goes through. Each of
them is made by such keys. -/
def assign (d : Doc) (name : String) : List String → Entries → Option Entries
  | [], es => es.add name d
  | first :: rest, es => do
    match es.find? first with
    | none => return es.put first (.table .dotted (← assign d name rest []))
    | some (.table .dotted inner) => return es.put first (.table .dotted (← assign d name rest inner))
    | some _ => none

end Entries

end Switchboard.Toml
