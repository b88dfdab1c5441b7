import Switchboard.Json.Reader
import Switchboard.Json.Writer
/-!
Written forms. A form of a type says how its values are written as documents and which documents are
read as which value. `Form.read` and `Form.write` go on to JSON texts.
-/
namespace Switchboard

/-- The language of a document's text. -/
inductive Language where
  | json
  | toml
  deriving DecidableEq, Repr

/-- How a document is read: how many lists and records may still be entered, and in which
language. -/
structure Reading where
  room : Nat
  language : Language
  deriving DecidableEq, Repr

namespace Reading

/-- At most 127 lists and records may stand inside each other. -/
def ofLanguage (language : Language) : Reading := ⟨127, language⟩

/-- Enters a list or a record. -/
def enter (r : Reading) : Except Fault Reading :=
  match r.room with
  | 0 => .error .malformed
  | room + 1 => .ok { r with room }

end Reading

/-- A written form of the values of a type. -/
structure Form (α : Type) where
  encode : α → Doc
  decode : Reading → Doc → Except Fault α

/-- The fault of a document that is no value of the wanted kind. -/
def Doc.unfit {α : Type} : Doc → Except Fault α
  | .gap f => .error f
  | _ => .error .malformed

namespace Form

variable {α β : Type}

/-- The value that a JSON text writes. -/
def read (form : Form α) (octets : Bytes) : Except Fault α := do
  let text := Json.Text.ofBytes octets
  let a ← form.decode (.ofLanguage .json) text.root
  if text.complete then return a else throw .malformed

/-- The JSON text of a value. -/
def write (form : Form α) (a : α) : String := Json.write (form.encode a)

/-- Nothing, written as null. -/
def unit : Form Unit where
  encode _ := .null
  decode _
    | .null => .ok ()
    | d => d.unfit

/-- A truth value. -/
def bool : Form Bool where
  encode := .bool
  decode _
    | .bool b => .ok b
    | d => d.unfit

/-- A text. -/
def text : Form String where
  encode := .text
  decode _
    | .string s => s
    | d => d.unfit

/-- Integers from `low` to `high`, as the values of a type that holds just these. -/
def integer (low high : Int) (ofInt : Int → α) (toInt : α → Int) : Form α where
  encode a := .int (toInt a)
  decode _
    | .numeral n =>
      match n.integer? with
      | some i => if low ≤ i ∧ i ≤ high then .ok (ofInt i) else .error .malformed
      | none => .error .malformed
    | d => d.unfit

/-- Integers of 8 bits without a sign. -/
def uint8 : Form UInt8 :=
  integer 0 255 (fun i => UInt8.ofNat i.toNat) fun a => a.toNat

/-- Integers of 32 bits without a sign. -/
def uint32 : Form UInt32 :=
  integer 0 4294967295 (fun i => UInt32.ofNat i.toNat) fun a => a.toNat

/-- Integers of 64 bits without a sign. -/
def uint64 : Form UInt64 :=
  integer 0 18446744073709551615 (fun i => UInt64.ofNat i.toNat) fun a => a.toNat

/-- Integers of 32 bits with a sign. -/
def int32 : Form Int32 :=
  integer (-2147483648) 2147483647 Int32.ofInt Int32.toInt

/-- Integers of 64 bits with a sign. -/
def int64 : Form Int64 :=
  integer (-9223372036854775808) 9223372036854775807 Int64.ofInt Int64.toInt

/-- Floats of 32 bits. A float in a text is read with 64 bits and then rounded; what is no real number
is written as null. -/
def single : Form Single where
  encode s :=
    match s.numeral? with
    | some n => .numeral n
    | none => .null
  decode _
    | .numeral n =>
      match n.integer? with
      | some i => .ok (Single.ofInt i)
      | none =>
        match n.double? with
        | some d => .ok (Single.ofDouble d)
        | none => .error .malformed
    | .double d => .ok (Single.ofDouble d)
    | d => d.unfit

/-- A value or null. -/
def nullable (form : Form α) : Form (Option α) where
  encode
    | none => .null
    | some a => form.encode a
  decode r
    | .null => .ok none
    | d => some <$> form.decode r d

/-- The values of the items of a list, one after another. -/
def decodeItems (form : Form α) (r : Reading) : List Doc → Except Fault (List α)
  | [] => .ok []
  | d :: rest => do
    let a ← form.decode r d
    let others ← decodeItems form r rest
    return a :: others

/-- A list of values. -/
def list (form : Form α) : Form (List α) where
  encode as := .list (as.map form.encode)
  decode r
    | .list items => do form.decodeItems (← r.enter) items
    | d => d.unfit

/-- Values that are written as values of another type, which stands for at most one of them. -/
def via (form : Form β) (into : α → β) (back : β → Option α) : Form α where
  encode a := form.encode (into a)
  decode r d := do
    match back (← form.decode r d) with
    | some a => return a
    | none => throw .malformed

end Form

end Switchboard
