import Switchboard.Form.Basic
/-!
Records with fixed fields. A record is written with the names of its fields, in their order, and may
also be read from a list of the values alone. `Fields` says how a sequence of fields is written and
read; a record form adds how a type is put together from the values.
-/
namespace Switchboard

/-- A field: how its value is written, if it is written at all; how it is read; what it is in a record
that lacks its name; and what it is in a list that ends before it. -/
structure Field (α : Type) where
  name : String
  encode : α → Option Doc
  decode : Reading → Doc → Except Fault α
  absent : Option α
  omitted : Option α

namespace Field

variable {α : Type}

/-- A field that is always there. -/
def required (name : String) (form : Form α) : Field α :=
  ⟨name, fun a => some (form.encode a), form.decode, none, none⟩

/-- A field that may be left out. It may be null as well, and a list must say so. -/
def optional (name : String) (form : Form α) : Field (Option α) :=
  ⟨name, fun a => a.map form.encode, form.nullable.decode, some none, none⟩

/-- A field with a value for when it is left out. It is always written. -/
def defaulted (name : String) (form : Form α) (value : α) : Field α :=
  ⟨name, fun a => some (form.encode a), form.decode, some value, some value⟩

/-- A field of values that is left out when there are none. -/
def several (name : String) (form : Form α) : Field (List α) :=
  ⟨name, fun as => if as.isEmpty then none else some (form.list.encode as), form.list.decode,
    some [], some []⟩

end Field

/-- Whether a name is the given one. A name that is no text is not. -/
def isNamed (name : String) : Except Fault String → Bool
  | .ok s => s == name
  | .error _ => false

/-- The member of a name, if there is one. There may not be two. -/
def findMember (name : String) (members : List (Except Fault String × Doc)) :
    Except Fault (Option Doc) :=
  match members.filter fun m => isNamed name m.1 with
  | [] => .ok none
  | [(_, d)] => .ok (some d)
  | _ => .error .malformed

/-- How a sequence of fields is written, and read from the members of a record or from the items of a
list, whose remaining items are returned. -/
structure Fields (α : Type) where
  names : List String
  write : α → List (Except Fault String × Doc)
  named : Reading → List (Except Fault String × Doc) → Except Fault α
  listed : Reading → List Doc → Except Fault (α × List Doc)

/-- A value, or a fault if there is none. -/
def orMalformed {α : Type} : Option α → Except Fault α
  | some a => .ok a
  | none => .error .malformed

namespace Fields

variable {α β : Type}

/-- No fields. -/
def done : Fields Unit where
  names := []
  write _ := []
  named _ _ := .ok ()
  listed _ items := .ok ((), items)

/-- One field more, before the others. -/
def cons (field : Field α) (rest : Fields β) : Fields (α × β) where
  names := field.name :: rest.names
  write p :=
    match field.encode p.1 with
    | some d => (.ok field.name, d) :: rest.write p.2
    | none => rest.write p.2
  named r members := do
    let a ←
      match ← findMember field.name members with
      | some d => field.decode r d
      | none => orMalformed field.absent
    let b ← rest.named r members
    return (a, b)
  listed r
    | [] => do
      let a ← orMalformed field.omitted
      let (b, left) ← rest.listed r []
      return ((a, b), left)
    | d :: items => do
      let a ← field.decode r d
      let (b, left) ← rest.listed r items
      return ((a, b), left)

/-- Checks the names of a record: each is text, and one that is no field's is refused or its value is
passed over. -/
def checkNames (strict : Bool) (names : List String) :
    List (Except Fault String × Doc) → Except Fault Unit
  | [] => .ok ()
  | (name, d) :: rest => do
    let name ← name
    if !names.contains name then
      if strict then throw .malformed
      d.skip
    checkNames strict names rest

/-- Reads the members of a record. -/
def ofMembers (fields : Fields α) (strict : Bool) (r : Reading)
    (members : List (Except Fault String × Doc)) : Except Fault α := do
  checkNames strict fields.names members
  fields.named r members

/-- Reads the items of a list. In TOML, items beyond the last field are passed over. -/
def ofItems (fields : Fields α) (r : Reading) (items : List Doc) : Except Fault α := do
  let (a, left) ← fields.listed r items
  if left.isEmpty ∨ r.language = .toml then return a else throw .malformed

end Fields

namespace Form

variable {α ρ : Type}

/-- A record of fields, put together and taken apart by two functions. If it is strict it has no other
names. -/
def recordOf (strict : Bool) (fields : Fields α) (build : α → ρ) (parts : ρ → α) : Form ρ where
  encode a := .record (fields.write (parts a))
  decode r
    | .record members => do return build (← fields.ofMembers strict (← r.enter) members)
    | .list items => do return build (← fields.ofItems (← r.enter) items)
    | d => d.unfit

/-- A record in which unknown names are ignored. -/
def record (fields : Fields α) (build : α → ρ) (parts : ρ → α) : Form ρ :=
  recordOf false fields build parts

/-- A record in which unknown names are refused. -/
def strictRecord (fields : Fields α) (build : α → ρ) (parts : ρ → α) : Form ρ :=
  recordOf true fields build parts

end Form

end Switchboard
