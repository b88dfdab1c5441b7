import Switchboard.Form.Basic
/-!
Untyped JSON values. An object has its names in sorted order, each once; of a repeated name the last
value counts. Integers of 64 bits stay integers, and all other numbers are floats.
-/
namespace Switchboard

/-- An untyped value. -/
inductive Value where
  | null
  | bool (b : Bool)
  | integer (i : Int)
  | double (d : Double)
  | string (s : String)
  | array (items : List Value)
  | object (members : List (String × Value))

namespace Value

/-- Whether a name is among those of the members. -/
def hasName (name : String) (members : List (String × Value)) : Bool :=
  members.any fun m => m.1 == name

/-- Puts a member in front of the first one with a greater name. -/
def insertMember (name : String) (v : Value) : List (String × Value) → List (String × Value)
  | [] => [(name, v)]
  | m :: rest => if m.1 < name then m :: insertMember name v rest else (name, v) :: m :: rest

mutual

/-- The value that a document writes. -/
def ofDoc (r : Reading) : Doc → Except Fault Value
  | .null => .ok .null
  | .bool b => .ok (.bool b)
  | .numeral n =>
    match n.integer? with
    | some i => .ok (.integer i)
    | none =>
      match n.double? with
      | some d => .ok (.double d)
      | none => .error .malformed
  | .double d => .ok (.double d)
  | .string s => s.map .string
  | .list items => do return .array (← ofItems (← r.enter) items)
  | .record members => do return .object (← ofMembers (← r.enter) members)
  | .gap f => .error f

/-- The values of the items of a list. -/
def ofItems (r : Reading) : List Doc → Except Fault (List Value)
  | [] => .ok []
  | d :: rest => do
    let v ← ofDoc r d
    let vs ← ofItems r rest
    return v :: vs

/-- The members of a record, sorted; a member gives way to a later one of its name. -/
def ofMembers (r : Reading) : List (Except Fault String × Doc) → Except Fault (List (String × Value))
  | [] => .ok []
  | (name, d) :: rest => do
    let name ← name
    let v ← ofDoc r d
    let others ← ofMembers r rest
    return if hasName name others then others else insertMember name v others

end

/-- The document of a float; what is no real number is null. -/
def doubleDoc (d : Double) : Doc :=
  match d.numeral? with
  | some n => .numeral n
  | none => .null

mutual

/-- The document that writes a value. -/
def toDoc : Value → Doc
  | .null => .null
  | .bool b => .bool b
  | .integer i => .int i
  | .double d => doubleDoc d
  | .string s => .text s
  | .array items => .list (itemDocs items)
  | .object members => .record (memberDocs members)

/-- The documents of the items of an array. -/
def itemDocs : List Value → List Doc
  | [] => []
  | v :: rest => toDoc v :: itemDocs rest

/-- The members of an object, written. -/
def memberDocs : List (String × Value) → List (Except Fault String × Doc)
  | [] => []
  | (name, v) :: rest => (.ok name, toDoc v) :: memberDocs rest

end

end Value

/-- Any value. -/
def Form.value : Form Value where
  encode := Value.toDoc
  decode := Value.ofDoc

end Switchboard
