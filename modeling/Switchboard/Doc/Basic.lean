import Switchboard.Decimal.Reading
/-!
Documents: the trees that JSON and TOML texts spell. A tree keeps what a text says before any type
has been asked of it, so a numeral keeps its digits, and a text that breaks off still has the tree of
its beginning, with a gap where it stops.
-/
namespace Switchboard

/-- Why a text cannot be read: it ends too early, or it says something that does not fit. -/
inductive Fault where
  | cut
  | malformed
  deriving DecidableEq, Repr

/-- A document. A string or a name is a fault if it is well quoted but spells no text. Where a record
breaks off between its members it has a last member whose name and value are the fault. Numbers of
JSON are numerals; TOML also has floats that no numeral writes, and dates, which stand as gaps because
no type holds them. -/
inductive Doc where
  | null
  | bool (b : Bool)
  | numeral (n : Numeral)
  | double (d : Double)
  | string (s : Except Fault String)
  | list (items : List Doc)
  | record (members : List (Except Fault String × Doc))
  | gap (fault : Fault)

namespace Doc

/-- A string that is text. -/
def text (s : String) : Doc := .string (.ok s)

/-- An integer. -/
def int (i : Int) : Doc := .numeral (Numeral.ofInt i)

/-- A record whose names are text. -/
def object (members : List (String × Doc)) : Doc := .record (members.map fun (k, d) => (.ok k, d))

mutual

/-- Passes over a document: it fails only at a gap. -/
def skip : Doc → Except Fault Unit
  | .list items => skipItems items
  | .record members => skipMembers members
  | .gap f => .error f
  | _ => .ok ()

/-- Passes over the items of a list. -/
def skipItems : List Doc → Except Fault Unit
  | [] => .ok ()
  | d :: rest => do skip d; skipItems rest

/-- Passes over the members of a record. -/
def skipMembers : List (Except Fault String × Doc) → Except Fault Unit
  | [] => .ok ()
  | (_, d) :: rest => do skip d; skipMembers rest

end

/-- The name by which a member is sorted. -/
def sortKey : Except Fault String → String
  | .ok s => s
  | .error _ => ""

/-- Puts a member in front of the first one with a greater name. -/
def insertMember (m : Except Fault String × Doc) :
    List (Except Fault String × Doc) → List (Except Fault String × Doc)
  | [] => [m]
  | n :: rest => if sortKey n.1 < sortKey m.1 then n :: insertMember m rest else m :: n :: rest

mutual

/-- The document with the members of every record sorted by name. -/
def sorted : Doc → Doc
  | .list items => .list (sortedItems items)
  | .record members => .record (sortedMembers members)
  | d => d

/-- The items of a list, each sorted. -/
def sortedItems : List Doc → List Doc
  | [] => []
  | d :: rest => sorted d :: sortedItems rest

/-- The members of a record, each sorted, in the order of their names. -/
def sortedMembers : List (Except Fault String × Doc) → List (Except Fault String × Doc)
  | [] => []
  | (name, d) :: rest => insertMember (name, sorted d) (sortedMembers rest)

end

end Doc

end Switchboard
