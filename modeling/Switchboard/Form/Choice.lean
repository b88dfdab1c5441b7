import Switchboard.Form.Record
import Switchboard.Form.Value
/-!
Choices between variants. Variants without fields are written as names; variants with fields are
records that carry the name of the variant under `type`, before the fields.
-/
namespace Switchboard

/-- Whether a document stands for nothing: null in JSON, an empty list or record in TOML. -/
def Doc.isNothing (language : Language) : Doc → Except Fault Unit
  | .null => if language = .json then .ok () else .error .malformed
  | .list [] => if language = .toml then .ok () else .error .malformed
  | .record [] => if language = .toml then .ok () else .error .malformed
  | d => d.unfit

/-- Reads a name that is written as a string, or as a record with that one name and nothing in it. -/
def Doc.variantName (r : Reading) : Doc → Except Fault String
  | .string s => s
  | .record [(name, d)] => do
    discard r.enter
    let name ← name
    d.isNothing r.language
    return name
  | d => d.unfit

namespace Form

variable {α : Type}

/-- A choice between named values. -/
def names (name : α → String) (all : List α) : Form α where
  encode a := .text (name a)
  decode r d := do
    let s ← d.variantName r
    orMalformed (all.find? fun a => name a == s)

end Form

/-- The fields of a variant as they stand in the text: with names, or as the items of a list. -/
inductive Content where
  | named (members : List (Except Fault String × Doc))
  | listed (items : List Doc)

/-- A variant's name, and its fields with the reading for them. -/
structure Tagged where
  name : String
  reading : Reading
  content : Content

namespace Tagged

/-- The name under which a variant's name stands. -/
def key : String := "type"

/-- The string that names a variant. -/
def nameOf : Doc → Except Fault String
  | .string s => s
  | d => d.unfit

/-- Reads the members of a record in order, given the name of the variant if it has been met. Every
value is read whole. -/
def splitMembers (r : Reading) (met : Option String) :
    List (Except Fault String × Doc) →
      Except Fault (String × List (Except Fault String × Doc))
  | [] => do return (← orMalformed met, [])
  | (name, d) :: rest => do
    let name ← name
    if name = key then
      if met.isSome then throw .malformed
      splitMembers r (some (← nameOf d)) rest
    else
      discard (Value.ofDoc r d)
      let (variant, others) ← splitMembers r met rest
      return (variant, (.ok name, d) :: others)

/-- Reads the name and the fields of a variant. Every value in it is read whole, also if no field
takes it. -/
def ofDoc (r : Reading) : Doc → Except Fault Tagged
  | .record members => do
    let inner ← r.enter
    let (name, others) ← splitMembers inner none members
    return ⟨name, inner, .named others⟩
  | .list [] => do discard r.enter; throw .malformed
  | .list (d :: items) => do
    let inner ← r.enter
    let name ← nameOf d
    discard (Value.ofItems inner items)
    return ⟨name, inner, .listed items⟩
  | d => d.unfit

/-- Reads the fields of a variant. -/
def fields {α : Type} (t : Tagged) (fields : Fields α) : Except Fault α :=
  match t.content with
  | .named members => fields.ofMembers false t.reading members
  | .listed items => fields.ofItems t.reading items

/-- Reads a variant without fields: a record may hold anything, a list nothing more. -/
def empty (t : Tagged) : Except Fault Unit :=
  match t.content with
  | .named _ => .ok ()
  | .listed items => if items.isEmpty then .ok () else .error .malformed

/-- Writes a variant. -/
def write {α : Type} (name : String) (fields : Fields α) (a : α) : Doc :=
  .record ((.ok key, .text name) :: fields.write a)

end Tagged

end Switchboard
