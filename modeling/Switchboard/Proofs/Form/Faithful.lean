import Switchboard.Proofs.Form.Choice
/-!
Forms that read back every value they write, as long as it is not nested too deep. This is more than to read back what
has been read, since a value may be one that no document is read as: a float that is no number, members without order,
null where a value has been given. What is asked of the untyped values in a value is said by its type.
-/
namespace Switchboard

namespace Doc

variable {items : List Doc} {members : List (Except Fault String × Doc)} {n : Nat}

mutual

/-- How many lists and records stand inside each other. -/
def depth : Doc → Nat
  | .list items => itemsDepth items + 1
  | .record members => membersDepth members + 1
  | _ => 0

/-- The depth of the deepest item. -/
def itemsDepth : List Doc → Nat
  | [] => 0
  | d :: rest => max d.depth (itemsDepth rest)

/-- The depth of the deepest member. -/
def membersDepth : List (Except Fault String × Doc) → Nat
  | [] => 0
  | (_, d) :: rest => max d.depth (membersDepth rest)

end

theorem itemsDepth_le_iff : itemsDepth items ≤ n ↔ ∀ d ∈ items, d.depth ≤ n := by
  induction items with
  | nil => simp [itemsDepth]
  | cons d items ih => rw [itemsDepth, Nat.max_le, ih, List.forall_mem_cons]

theorem membersDepth_le_iff : membersDepth members ≤ n ↔ ∀ m ∈ members, m.2.depth ≤ n := by
  induction members with
  | nil => simp [membersDepth]
  | cons m members ih => rw [membersDepth, Nat.max_le, ih, List.forall_mem_cons]

theorem exists_enter_list {r : Reading} (hroom : (Doc.list items).depth ≤ r.room) :
    ∃ inner, r.enter = .ok inner ∧ ∀ d ∈ items, d.depth ≤ inner.room := by
  obtain ⟨inner, henter, hinner⟩ := Reading.exists_enter hroom
  exact ⟨inner, henter, itemsDepth_le_iff.1 hinner⟩

theorem exists_enter_record {r : Reading} (hroom : (Doc.record members).depth ≤ r.room) :
    ∃ inner, r.enter = .ok inner ∧ ∀ m ∈ members, m.2.depth ≤ inner.room := by
  obtain ⟨inner, henter, hinner⟩ := Reading.exists_enter hroom
  exact ⟨inner, henter, membersDepth_le_iff.1 hinner⟩

end Doc

namespace Value

variable {r : Reading} {v : Value}

/-- A value as JSON has it: its integers have 64 bits, its floats are real numbers, and the names of an object
increase. -/
inductive WellFormed : Value → Prop where
  | null : WellFormed .null
  | bool (b : Bool) : WellFormed (.bool b)
  | integer {i : Int} (hlow : -9223372036854775808 ≤ i) (hhigh : i ≤ 18446744073709551615) : WellFormed (.integer i)
  | double {d : Double} (h : d.numeral?.isSome) : WellFormed (.double d)
  | string (s : String) : WellFormed (.string s)
  | array {items : List Value} (h : ∀ v ∈ items, WellFormed v) : WellFormed (.array items)
  | object {members : List (String × Value)} (hordered : Ordered members) (h : ∀ m ∈ members, WellFormed m.2) :
      WellFormed (.object members)

/-- A value is read back wherever it fits. -/
theorem rereads_of_wellFormed (hv : v.WellFormed) (hexact : v.Exact) (hroom : v.toDoc.depth ≤ r.room) :
    Form.value.Rereads r v v := by
  induction hv generalizing r with
  | null => exact ⟨rfl, .null, _, rfl⟩
  | bool b => exact ⟨rfl, .bool b, _, rfl⟩
  | integer hlow hhigh => exact rereads_integer hlow hhigh
  | double h =>
    obtain ⟨n, hn⟩ := Option.isSome_iff_exists.1 h
    cases hexact with
    | double hreads => exact rereads_double hn hreads
  | string s => exact ⟨rfl, .text s, _, rfl⟩
  | @array items _ ih =>
    obtain ⟨inner, henter, hitems⟩ := Doc.exists_enter_list hroom
    cases hexact with
    | array hexact =>
      refine rereads_array henter fun v hv => ih v hv (hexact v hv) (hitems _ ?_)
      rw [itemDocs_eq_map]
      exact List.mem_map_of_mem hv
  | @object members hordered _ ih =>
    obtain ⟨inner, henter, hmembers⟩ := Doc.exists_enter_record hroom
    cases hexact with
    | object hexact =>
      refine rereads_object henter hordered fun m hm => ih m hm (hexact m hm) (hmembers (.ok m.1, m.2.toDoc) ?_)
      rw [memberDocs_eq_map]
      exact List.mem_map_of_mem hm

/-- Only null is written as null. -/
theorem WellFormed.toDoc_eq_null_iff (hv : v.WellFormed) : v.toDoc = .null ↔ v = .null := by
  cases hv with
  | double h =>
    obtain ⟨n, hn⟩ := Option.isSome_iff_exists.1 h
    simp [toDoc, doubleDoc, hn]
  | null | bool | integer | string | array | object => simp [toDoc, Doc.int, Doc.text]

end Value

/-- What is asked of the untyped values in the values of a type: they are well formed, and one that may be left out is
not null. Where nothing else is said there are none in the values of a type, and none of these is written as null. -/
class HoldsValues (α : Type) where
  Sound : α → Prop := fun _ => True
  /-- The values that are written as null. -/
  IsNull : α → Prop := fun _ => False

export HoldsValues (Sound IsNull)

section Instances

instance : HoldsValues Unit where
  IsNull _ := True

instance : HoldsValues Bool where
instance : HoldsValues String where
instance : HoldsValues UInt8 where
instance : HoldsValues UInt32 where
instance : HoldsValues UInt64 where
instance : HoldsValues Int32 where

instance : HoldsValues Value where
  Sound := Value.WellFormed
  IsNull v := v = .null

variable {α β : Type} [HoldsValues α] [HoldsValues β]

instance : HoldsValues (Option α) where
  Sound o := ∀ a ∈ o, Sound a ∧ ¬IsNull a
  IsNull o := o = none

instance : HoldsValues (List α) where
  Sound as := ∀ a ∈ as, Sound a

instance : HoldsValues (α × β) where
  Sound p := Sound p.1 ∧ Sound p.2

end Instances

/-- A form in which every sound value is read back where it fits. -/
class Form.Faithful {α : Type} [HoldsFloats α] [HoldsValues α] (form : Form α) : Prop where
  rereads {r : Reading} {a : α} (hroom : (form.encode a).depth ≤ r.room) (ha : Exact a) (hs : Sound a) :
    form.Rereads r a a
  isNull {a : α} (ha : Exact a) (hs : Sound a) (hnull : form.encode a = .null) : IsNull a

/-- A field in which every sound value is read back where it fits. -/
class Field.Faithful {α : Type} [HoldsFloats α] [HoldsValues α] (field : Field α) : Prop where
  rereads {r : Reading} {a : α} (hroom : ∀ d, field.encode a = some d → d.depth ≤ r.room) (ha : Exact a)
    (hs : Sound a) : field.Rereads r a a

/-- Fields in which all sound values are read back where they fit. -/
class Fields.Faithful {α : Type} [HoldsFloats α] [HoldsValues α] (fields : Fields α) : Prop where
  rereads (hnames : fields.names.Nodup) {r : Reading} {a : α} (hroom : ∀ m ∈ fields.write a, m.2.depth ≤ r.room)
    (ha : Exact a) (hs : Sound a) : fields.Rereads r a a

namespace Form

variable {α β ρ : Type} [HoldsFloats α] [HoldsValues α]

/-- A form that reads back every value and enters nothing for it. -/
theorem faithful_of_total {form : Form α} [t : Total form] (hdepth : t.depth = 0) : form.Faithful where
  rereads _ ha _ := t.rereads (hdepth ▸ Nat.zero_le _) ha
  isNull ha _ hnull := absurd hnull (t.solid ha)

instance : Faithful Form.value where
  rereads hroom ha hs := Value.rereads_of_wellFormed hs ha hroom
  isNull _ hs hnull := hs.toDoc_eq_null_iff.1 hnull

instance : Faithful Form.unit where
  rereads _ _ _ := ⟨rfl, .null, _, rfl⟩
  isNull _ _ _ := trivial

instance : Faithful Form.text := faithful_of_total rfl

instance : Faithful Form.bool := faithful_of_total rfl

instance : Faithful Form.uint8 := faithful_of_total rfl

instance : Faithful Form.uint32 := faithful_of_total rfl

instance : Faithful Form.uint64 := faithful_of_total rfl

instance : Faithful Form.int32 := faithful_of_total rfl

instance {form : Form α} [f : form.Faithful] : form.list.Faithful where
  rereads {r as} hroom ha hs := by
    obtain ⟨inner, henter, hitems⟩ := Doc.exists_enter_list hroom
    exact rereads_list henter fun a hmem => f.rereads (hitems _ (List.mem_map_of_mem hmem)) (ha a hmem) (hs a hmem)
  isNull _ _ := nofun

end Form

section Fields

variable {α β ρ : Type} [HoldsFloats α] [HoldsValues α] [HoldsFloats β] [HoldsValues β] [HoldsFloats ρ] [HoldsValues ρ]
  {name : String} {form : Form α} {field : Field α} {fields : Fields α} {rest : Fields β} {strict : Bool}
  {build : α → ρ} {parts : ρ → α}

instance [f : form.Faithful] : (Field.required name form).Faithful where
  rereads hroom ha hs := Field.rereads_required (f.rereads (hroom _ rfl) ha hs)

instance [f : form.Faithful] : (Field.optional name form).Faithful where
  rereads {r o} hroom ho hs := by
    cases o with
    | none => exact Field.rereads_none
    | some a =>
      obtain ⟨hsound, hnull⟩ := hs a rfl
      have ha : Exact a := ho a rfl
      exact Field.rereads_some (f.rereads (hroom _ rfl) ha hsound) (mt (f.isNull ha hsound) hnull)

instance [f : form.list.Faithful] : (Field.several name form).Faithful where
  rereads {r as} hroom ha hs := by
    cases as with
    | nil => exact Field.rereads_several_nil
    | cons => exact Field.rereads_several (f.rereads (hroom _ rfl) ha hs)

instance : Fields.done.Faithful where
  rereads _ _ _ _ _ _ := Fields.rereads_done

instance [f : field.Faithful] [fs : rest.Faithful] : (Fields.cons field rest).Faithful where
  rereads hnames {r p} hroom hp hs := by
    obtain ⟨hname, hrest⟩ := List.nodup_cons.1 hnames
    have hfirst : ∀ d, field.encode p.1 = some d → d.depth ≤ r.room := fun d hd =>
      hroom (.ok field.name, d) (by simp [Fields.cons, hd])
    have hothers : ∀ m ∈ rest.write p.2, m.2.depth ≤ r.room := fun m hm => hroom m (by
      simp only [Fields.cons]
      split
      · exact List.mem_cons_of_mem _ hm
      · exact hm)
    exact Fields.rereads_cons hname (f.rereads hfirst hp.1 hs.1) (fs.rereads hrest hothers hp.2 hs.2)

/-- A record is read back if its fields are. -/
theorem Form.faithfulRecord [f : fields.Faithful] (hnames : fields.names.Nodup) (hbuild : ∀ a, build (parts a) = a)
    (hexact : ∀ a, Exact a → Exact (parts a)) (hsound : ∀ a, Sound a → Sound (parts a)) :
    (Form.recordOf strict fields build parts).Faithful where
  rereads {r a} hroom ha hs := by
    obtain ⟨inner, henter, hmembers⟩ := Doc.exists_enter_record hroom
    have hfields := f.rereads hnames hmembers (hexact a ha) (hsound a hs)
    have hrecord : (Form.recordOf strict fields build parts).Rereads r a (build (parts a)) :=
      Form.rereads_record henter hfields
    rwa [hbuild] at hrecord
  isNull _ _ := nofun

end Fields

namespace Tagged

variable {α : Type} [HoldsFloats α] [HoldsValues α] {form : Form α} {pick : Tagged → Except Fault α}

/-- A value is written as a variant with sound fields, and is what these are picked as. -/
inductive Writes (form : Form α) (pick : Tagged → Except Fault α) (a : α) : Prop where
  | variant {β : Type} [HoldsFloats β] [HoldsValues β] (name : String) (fields : Fields β) [fields.Faithful] (x : β)
      (hencode : form.encode a = write name fields x) (hnames : (key :: fields.names).Nodup) (hx : Exact x)
      (hs : Sound x) (hpick : ∀ r members, Tagged.fields ⟨name, r, .named members⟩ fields = .ok x →
        pick ⟨name, r, .named members⟩ = .ok a)

/-- A choice is read back if each value is picked from the variant that is written for it. -/
theorem faithfulChoice (hdecode : ∀ r d, form.decode r d = ofDoc r d >>= pick)
    (hwrites : ∀ a, Exact a → Sound a → Writes form pick a) : form.Faithful where
  rereads {r a} hroom ha hs := by
    obtain ⟨name, fields, x, hencode, hnames, hx, hs, hpick⟩ := hwrites a ha hs
    rw [hencode] at hroom
    obtain ⟨inner, henter, hmembers⟩ := Doc.exists_enter_record hroom
    obtain ⟨hkey, hfields⟩ := List.nodup_cons.1 hnames
    have hrereads := Fields.Faithful.rereads hfields (fun m hm => hmembers m (List.mem_cons_of_mem _ hm)) hx hs
    have hpicked : Picked form pick inner a :=
      .variant name fields x hencode hkey hrereads (hpick inner _ (fields_written hrereads))
    exact hpicked.rereads henter (hdecode r)
  isNull {a} ha hs hnull := by
    obtain ⟨name, fields, x, hencode, -⟩ := hwrites a ha hs
    cases hnull.symm.trans hencode

end Tagged

end Switchboard
