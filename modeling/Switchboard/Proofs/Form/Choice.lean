import Switchboard.Proofs.Form.Record
/-!
Choices between variants are read back if the fields of each variant are.
-/
namespace Switchboard

/-- The fields of a variant stand in a document as JSON has it. -/
def Content.IsJson : Content → Prop
  | .named members => ∀ m ∈ members, m.2.IsJson
  | .listed items => ∀ d ∈ items, d.IsJson

namespace Tagged

variable {α β : Type} {r inner : Reading} {d : Doc} {t : Tagged} {fields : Fields β} {x y : β} {name : String}
  {members others : List (Except Fault String × Doc)}

/-- What is left of the members besides the variant's name has been among them. -/
theorem mem_of_splitMembers {met : Option String} (h : splitMembers r met members = .ok (name, others))
    {m : Except Fault String × Doc} (hm : m ∈ others) : ∃ n ∈ members, n.2 = m.2 := by
  induction members generalizing met others with
  | nil =>
    obtain ⟨s, -, hs⟩ := bind_eq_ok.1 h
    cases hs
    cases hm
  | cons n members ih =>
    obtain ⟨label, d⟩ := n
    obtain ⟨s, -, hrest⟩ := bind_eq_ok.1 h
    have hlater {met : Option String} {others : List (Except Fault String × Doc)}
        (h : splitMembers r met members = .ok (name, others)) (hm : m ∈ others) :
        ∃ n ∈ (label, d) :: members, n.2 = m.2 := by
      obtain ⟨n, hn, heq⟩ := ih h hm
      exact ⟨n, by simp [hn], heq⟩
    split at hrest
    case isTrue =>
      split at hrest
      case isTrue => cases hrest
      case isFalse =>
        obtain ⟨variant, -, hrest⟩ := bind_eq_ok.1 hrest
        exact hlater hrest hm
    case isFalse =>
      obtain ⟨-, -, hrest⟩ := bind_eq_ok.1 hrest
      obtain ⟨⟨variant, kept⟩, hsplit, hrest⟩ := bind_eq_ok.1 hrest
      cases hrest
      rcases List.mem_cons.1 hm with rfl | hm
      · exact ⟨(label, d), by simp, rfl⟩
      · exact hlater hsplit hm

/-- A variant is read one level further in, from a document as JSON has it if all of it is. -/
theorem content_of_ofDoc (hd : d.IsJson) (h : ofDoc r d = .ok t) : r.enter = .ok t.reading ∧ t.content.IsJson := by
  cases hd with
  | record hd =>
    obtain ⟨inner, henter, h⟩ := bind_eq_ok.1 h
    obtain ⟨⟨name, others⟩, hsplit, h⟩ := bind_eq_ok.1 h
    cases h
    refine ⟨henter, fun m hm => ?_⟩
    obtain ⟨n, hn, heq⟩ := mem_of_splitMembers hsplit hm
    exact heq ▸ hd n hn
  | @list items hd =>
    cases items with
    | nil =>
      obtain ⟨-, -, h⟩ := bind_eq_ok.1 h
      cases h
    | cons first items =>
      obtain ⟨inner, henter, h⟩ := bind_eq_ok.1 h
      obtain ⟨name, -, h⟩ := bind_eq_ok.1 h
      obtain ⟨-, -, h⟩ := bind_eq_ok.1 h
      cases h
      exact ⟨henter, fun d hd' => hd d (by simp [hd'])⟩
  | _ => cases h

/-- The fields of a variant that have been read are read back. -/
theorem rereads_of_fields [HoldsFloats β] [s : Fields.Stable fields] (hnames : fields.names.Nodup)
    (hroom : s.depth ≤ t.reading.room) (hjson : t.content.IsJson) (h : t.fields fields = .ok x) (hx : Exact x) :
    fields.Rereads t.reading x x := by
  unfold Tagged.fields at h
  split at h
  case h_1 members heq =>
    rw [heq] at hjson
    exact s.rereads_named hnames hroom hjson (Fields.named_of_ofMembers h) hx
  case h_2 items heq =>
    rw [heq] at hjson
    obtain ⟨left, hlisted⟩ := Fields.listed_of_ofItems h
    exact s.rereads_listed hnames hroom hjson hlisted hx

/-- The members of a variant without its name are all left. -/
theorem splitMembers_of_whole (hmembers : ∀ m ∈ members, (∃ s, s ≠ key ∧ m.1 = .ok s) ∧ m.2.Whole r) :
    splitMembers r (some name) members = .ok (name, members) := by
  induction members with
  | nil => rfl
  | cons m members ih =>
    obtain ⟨label, d⟩ := m
    obtain ⟨⟨s, hs, rfl⟩, v, hv⟩ : (∃ s, s ≠ key ∧ label = .ok s) ∧ d.Whole r := hmembers (label, d) (by simp)
    have hrest := ih fun m hm => hmembers m (by simp [hm])
    simp [splitMembers, hs, hv, hrest, bind, Except.bind, pure, Except.pure, discard, Functor.mapConst, Except.map]

/-- What is written for a variant is read as its name and its fields. -/
theorem ofDoc_write (henter : r.enter = .ok inner) (hkey : key ∉ fields.names) (h : fields.Rereads inner x y) :
    ofDoc r (write name fields x) = .ok ⟨name, inner, .named (fields.write x)⟩ := by
  have hsplit : splitMembers inner (some name) (fields.write x) = .ok (name, fields.write x) :=
    splitMembers_of_whole fun m hm => ⟨by
      obtain ⟨s, hs, heq⟩ := h.names hm
      exact ⟨s, fun hkeyed => hkey (hkeyed ▸ hs), heq⟩, h.whole hm⟩
  simp [ofDoc, write, henter, splitMembers, nameOf, Doc.text, hsplit, bind, Except.bind, pure, Except.pure]

theorem fields_written (h : fields.Rereads inner x y) :
    (⟨name, inner, .named (fields.write x)⟩ : Tagged).fields fields = .ok y := h.ofMembers false

theorem legible_write (h : fields.Rereads inner x y) : (write name fields x).Legible := by
  refine .record (fun m hm => ?_) fun m hm => ?_
  · rcases List.mem_cons.1 hm with rfl | hm
    · exact ⟨key, rfl⟩
    · exact (h.names hm).imp fun _ hs => hs.2
  · rcases List.mem_cons.1 hm with rfl | hm
    · exact .text name
    · exact h.legible hm

theorem whole_write (henter : r.enter = .ok inner) (h : fields.Rereads inner x y) : (write name fields x).Whole r := by
  obtain ⟨ms, hms⟩ := h.ofMembers_value
  simp [Doc.Whole, write, Value.ofDoc, Value.ofMembers, Doc.text, henter, hms, Except.map, bind, Except.bind, pure,
    Except.pure]

/-- A value is written as a variant from which it is picked again. -/
inductive Picked (form : Form α) (pick : Tagged → Except Fault α) (r : Reading) (a : α) : Prop where
  | variant {β : Type} (name : String) (fields : Fields β) (x : β) (hencode : form.encode a = write name fields x)
      (hkey : key ∉ fields.names) (hfields : fields.Rereads r x x)
      (hpick : pick ⟨name, r, .named (fields.write x)⟩ = .ok a)

/-- A value that is picked again from the variant that is written for it is read back. -/
theorem Picked.rereads {form : Form α} {pick : Tagged → Except Fault α} {a : α} (h : Picked form pick inner a)
    (henter : r.enter = .ok inner) (hdecode : ∀ d, form.decode r d = ofDoc r d >>= pick) : form.Rereads r a a := by
  obtain ⟨name, fields, x, hencode, hkey, hfields, hpick⟩ := h
  exact {
    decode_encode := by
      rw [hdecode, hencode, ofDoc_write henter hkey hfields]
      exact hpick
    legible := hencode ▸ legible_write hfields
    whole := hencode ▸ whole_write henter hfields }

theorem picked_of_fields {form : Form α} {pick : Tagged → Except Fault α} {a : α} [HoldsFloats β]
    [s : Fields.Stable fields] (hnames : (key :: fields.names).Nodup) (hroom : s.depth ≤ t.reading.room)
    (hjson : t.content.IsJson) (h : t.fields fields = .ok x) (hx : Exact x)
    (hencode : form.encode a = write name fields x)
    (hpick : ∀ content, Tagged.fields ⟨name, t.reading, content⟩ fields = .ok x →
      pick ⟨name, t.reading, content⟩ = .ok a) : Picked form pick t.reading a := by
  obtain ⟨hkey, hfields⟩ := List.nodup_cons.1 hnames
  have hrereads := rereads_of_fields hfields hroom hjson h hx
  exact .variant name fields x hencode hkey hrereads (hpick _ (fields_written hrereads))

/-- A variant without fields is picked again. -/
theorem picked_empty {form : Form α} {pick : Tagged → Except Fault α} {a : α} (hencode : form.encode a = write name .done ())
    (hpick : pick ⟨name, r, .named []⟩ = .ok a) : Picked form pick r a :=
  .variant name .done () hencode (by decide) Fields.rereads_done hpick

/-- A choice is stable if what has been picked from a variant is written as a variant from which it is picked. -/
@[reducible] def stableChoice [HoldsFloats α] {form : Form α} {pick : Tagged → Except Fault α} (depth : Nat)
    (hdecode : ∀ r d, form.decode r d = ofDoc r d >>= pick) (hnull : ∀ a, form.encode a ≠ .null)
    (hpick : ∀ (t : Tagged) (a : α), depth ≤ t.reading.room → t.content.IsJson → pick t = .ok a → Exact a →
      Picked form pick t.reading a) : form.Stable where
  depth := depth + 1
  rereads {r d a} hroom hd hread ha := by
    rw [hdecode] at hread
    obtain ⟨t, ht, hread⟩ := bind_eq_ok.1 hread
    obtain ⟨henter, hjson⟩ := content_of_ofDoc hd ht
    have hinner := Reading.room_of_enter henter
    exact (hpick t a (by omega) hjson hread ha).rereads henter (hdecode r)
  solid _ _ _ _ := hnull _

end Tagged

end Switchboard
