import Switchboard.Proofs.Form.Value
/-!
Records are read back if their fields are. Fields read from a list, fields of a text that have been left out and names
that no field has all come down to the same: what has been read is written under the names of the fields.
-/
namespace Switchboard

section Members

variable {name : String} {d : Doc} {members others : List (Except Fault String × Doc)}

theorem filter_eq_nil (h : ∀ m ∈ members, isNamed name m.1 = false) :
    members.filter (fun m => isNamed name m.1) = [] := by
  simpa using h

theorem findMember_of_absent (h : ∀ m ∈ members, isNamed name m.1 = false) : findMember name members = .ok none := by
  rw [findMember, filter_eq_nil h]

/-- A name that stands once is found. -/
theorem findMember_of_once (hothers : ∀ m ∈ others, isNamed name m.1 = false)
    (hmembers : ∀ m ∈ members, isNamed name m.1 = false) :
    findMember name (others ++ (.ok name, d) :: members) = .ok (some d) := by
  rw [findMember, List.filter_append, filter_eq_nil hothers, List.filter_cons_of_pos (by simp [isNamed]),
    filter_eq_nil hmembers]
  rfl

theorem mem_of_findMember (h : findMember name members = .ok (some d)) : ∃ m ∈ members, m.2 = d := by
  unfold findMember at h
  split at h
  case h_1 => cases h
  case h_2 n d' heq =>
    cases h
    have hmem : (n, d) ∈ members.filter fun m => isNamed name m.1 := by simp [heq]
    exact ⟨(n, d), (List.mem_filter.1 hmem).1, rfl⟩
  case h_3 => cases h

end Members

namespace Field

variable {α : Type} {name : String} {form : Form α} {r : Reading} {a b : α} {as : List α}

/-- What is written for the value of a field, if anything, is read as a value. -/
structure Rereads (field : Field α) (r : Reading) (a b : α) : Prop where
  written {d : Doc} (h : field.encode a = some d) : field.decode r d = .ok b ∧ d.Legible ∧ d.Whole r
  left (h : field.encode a = none) : field.absent = some b

/-- A field in which every value is read back. -/
class Total [HoldsFloats α] (field : Field α) where
  depth : Nat
  rereads {r : Reading} {a : α} (hroom : depth ≤ r.room) (ha : Exact a) : field.Rereads r a a

/-- A field in which what has been read is read back, and also the value for when it has been left out. -/
class Stable [HoldsFloats α] (field : Field α) where
  depth : Nat
  rereads {r : Reading} {d : Doc} {a : α} (hroom : depth ≤ r.room) (hd : d.IsJson) (hread : field.decode r d = .ok a)
    (ha : Exact a) : field.Rereads r a a
  rereads_absent {r : Reading} {a : α} (hroom : depth ≤ r.room) (h : field.absent = some a) : field.Rereads r a a
  absent_of_omitted {a : α} (h : field.omitted = some a) : field.absent = some a

theorem rereads_required (h : form.Rereads r a b) : (required name form).Rereads r a b where
  written hd := by
    cases hd
    exact ⟨h.decode_encode, h.legible, h.whole⟩
  left h := nomatch h

theorem rereads_some (h : form.Rereads r a b) (hnull : form.encode a ≠ .null) :
    (optional name form).Rereads r (some a) (some b) where
  written hd := by
    cases hd
    exact ⟨(h.nullable hnull).decode_encode, h.legible, h.whole⟩
  left h := nomatch h

theorem rereads_none : (optional name form).Rereads r none none where
  written h := nomatch h
  left _ := rfl

theorem rereads_defaulted {value : α} (h : form.Rereads r a b) : (defaulted name form value).Rereads r a b where
  written hd := by
    cases hd
    exact ⟨h.decode_encode, h.legible, h.whole⟩
  left h := nomatch h

theorem rereads_several (h : form.list.Rereads r as as) : (several name form).Rereads r as as where
  written {d} hd := by
    simp only [several] at hd
    split at hd
    case isTrue => cases hd
    case isFalse =>
      cases hd
      exact ⟨h.decode_encode, h.legible, h.whole⟩
  left hleft := by
    cases as with
    | nil => rfl
    | cons => cases hleft

theorem rereads_several_nil : (several name form).Rereads r [] [] where
  written h := nomatch h
  left _ := rfl

section Instances

variable [HoldsFloats α]

instance [t : Form.Total form] : Total (optional name form) where
  depth := t.depth
  rereads {r o} hroom ho := by
    cases o with
    | none => exact rereads_none
    | some a => exact rereads_some (t.rereads hroom (ho a rfl)) (t.solid (ho a rfl))

instance [t : Form.Total form.list] : Total (several name form) where
  depth := t.depth
  rereads hroom has := rereads_several (t.rereads hroom has)

instance [s : Form.Stable form] : Stable (required name form) where
  depth := s.depth
  rereads hroom hd hread ha := rereads_required (s.rereads hroom hd hread ha)
  rereads_absent _ h := nomatch h
  absent_of_omitted h := nomatch h

instance [s : Form.Stable form] : Stable (optional name form) where
  depth := s.depth
  rereads {r d o} hroom hd hread ho := by
    by_cases hnull : d = .null
    · subst hnull
      cases hread
      exact rereads_none
    · obtain ⟨a, rfl, hvalue⟩ := Form.exists_of_nullable hnull hread
      exact rereads_some (s.rereads hroom hd hvalue (ho a rfl)) (s.solid hd hvalue (ho a rfl) hnull)
  rereads_absent _ h := by
    cases h
    exact rereads_none
  absent_of_omitted h := nomatch h

instance [s : Form.Stable form.list] : Stable (several name form) where
  depth := s.depth
  rereads hroom hd hread has := rereads_several (s.rereads hroom hd hread has)
  rereads_absent _ h := by
    cases h
    exact rereads_several_nil
  absent_of_omitted h := h

/-- A value for what has been left out that is read back itself. -/
class Kept (form : Form α) (value : α) where
  depth : Nat
  rereads {r : Reading} (hroom : depth ≤ r.room) : form.Rereads r value value

instance : Kept Form.text "" := ⟨0, fun _ => Form.Total.rereads (Nat.zero_le _) trivial⟩

instance : Kept Form.uint32 0 := ⟨0, fun _ => Form.Total.rereads (Nat.zero_le _) trivial⟩

instance : Kept Form.value .null := ⟨0, fun _ => ⟨rfl, .null, _, rfl⟩⟩

instance : Kept form.nullable none := ⟨0, fun _ => Form.rereads_none form _⟩

instance : Kept form.list [] where
  depth := 1
  rereads hroom := by
    obtain ⟨inner, henter, -⟩ := Reading.exists_enter hroom
    exact Form.rereads_list henter (by simp)

instance {value : α} [s : Form.Stable form] [k : Kept form value] : Stable (defaulted name form value) where
  depth := max s.depth k.depth
  rereads hroom hd hread ha := rereads_defaulted (s.rereads (Nat.le_trans (Nat.le_max_left _ _) hroom) hd hread ha)
  rereads_absent hroom h := by
    cases h
    exact rereads_defaulted (k.rereads (Nat.le_trans (Nat.le_max_right _ _) hroom))
  absent_of_omitted h := h

end Instances

end Field

namespace Fields

variable {α β : Type} {field : Field α} {fields : Fields α} {rest : Fields β} {r : Reading} {a a' : α} {b b' : β}

/-- What is written for the values of fields is read as values, whatever else is in the record. -/
structure Rereads (fields : Fields α) (r : Reading) (a b : α) : Prop where
  named (others : List (Except Fault String × Doc))
    (h : ∀ name ∈ fields.names, ∀ m ∈ others, isNamed name m.1 = false) :
    fields.named r (others ++ fields.write a) = .ok b
  names {m : Except Fault String × Doc} (h : m ∈ fields.write a) : ∃ s ∈ fields.names, m.1 = .ok s
  legible {m : Except Fault String × Doc} (h : m ∈ fields.write a) : m.2.Legible
  whole {m : Except Fault String × Doc} (h : m ∈ fields.write a) : m.2.Whole r

/-- Fields in which every value is read back. -/
class Total [HoldsFloats α] (fields : Fields α) where
  depth : Nat
  rereads (hnames : fields.names.Nodup) {r : Reading} {a : α} (hroom : depth ≤ r.room) (ha : Exact a) :
    fields.Rereads r a a

/-- Fields in which what has been read is read back, from the members of a record or from the items of a list. -/
class Stable [HoldsFloats α] (fields : Fields α) where
  depth : Nat
  rereads_named (hnames : fields.names.Nodup) {r : Reading} {members : List (Except Fault String × Doc)} {a : α}
    (hroom : depth ≤ r.room) (hjson : ∀ m ∈ members, m.2.IsJson) (hread : fields.named r members = .ok a)
    (ha : Exact a) : fields.Rereads r a a
  rereads_listed (hnames : fields.names.Nodup) {r : Reading} {items left : List Doc} {a : α} (hroom : depth ≤ r.room)
    (hjson : ∀ d ∈ items, d.IsJson) (hread : fields.listed r items = .ok (a, left)) (ha : Exact a) :
    fields.Rereads r a a

theorem rereads_done : done.Rereads r () () where
  named _ _ := rfl
  names h := nomatch h
  legible h := nomatch h
  whole h := nomatch h

theorem Rereads.isNamed_eq_false {name : String} (h : rest.Rereads r b b') (hname : name ∉ rest.names) :
    ∀ m ∈ rest.write b, isNamed name m.1 = false := by
  intro m hm
  obtain ⟨s, hs, heq⟩ := h.names hm
  have hne : s ≠ name := fun h => hname (h ▸ hs)
  simpa [heq, isNamed] using hne

/-- One field more is read back with the others. -/
theorem rereads_cons (hname : field.name ∉ rest.names) (hfield : field.Rereads r a a') (hrest : rest.Rereads r b b') :
    (cons field rest).Rereads r (a, b) (a', b') := by
  have hrestNames := hrest.isNamed_eq_false hname
  cases hencode : field.encode a with
  | none =>
    have hwrite : (cons field rest).write (a, b) = rest.write b := by simp [cons, hencode]
    refine ⟨fun others hothers => ?_, ?_, ?_, ?_⟩ <;> rw [hwrite]
    · have hfind : findMember field.name (others ++ rest.write b) = .ok none :=
        findMember_of_absent fun m hm =>
          (List.mem_append.1 hm).elim (hothers field.name (by simp [cons]) m) (hrestNames m)
      have hnamed := hrest.named others fun name hn => hothers name (by simp [cons, hn])
      simp [cons, hfind, hfield.left hencode, hnamed, orMalformed, bind, Except.bind, pure, Except.pure]
    · exact fun hm => (hrest.names hm).imp fun s hs => ⟨by simp [cons, hs.1], hs.2⟩
    · exact hrest.legible
    · exact hrest.whole
  | some d =>
    obtain ⟨hdecode, hlegible, hwhole⟩ := hfield.written hencode
    have hwrite : (cons field rest).write (a, b) = (.ok field.name, d) :: rest.write b := by simp [cons, hencode]
    refine ⟨fun others hothers => ?_, fun {m} => ?_, fun {m} => ?_, fun {m} => ?_⟩ <;> rw [hwrite]
    · have hfind : findMember field.name (others ++ (.ok field.name, d) :: rest.write b) = .ok (some d) :=
        findMember_of_once (hothers field.name (by simp [cons])) hrestNames
      have hnamed : rest.named r (others ++ (.ok field.name, d) :: rest.write b) = .ok b' := by
        have := hrest.named (others ++ [(.ok field.name, d)]) fun name hn m hm => by
          rcases List.mem_append.1 hm with hm | hm
          · exact hothers name (by simp [cons, hn]) m hm
          · obtain rfl := List.mem_singleton.1 hm
            have hne : field.name ≠ name := fun h => hname (h ▸ hn)
            simpa [isNamed] using hne
        simpa using this
      simp [cons, hfind, hdecode, hnamed, bind, Except.bind, pure, Except.pure]
    · rintro (_ | ⟨_, hm⟩)
      · exact ⟨field.name, by simp [cons], rfl⟩
      · exact (hrest.names hm).imp fun s hs => ⟨by simp [cons, hs.1], hs.2⟩
    · rintro (_ | ⟨_, hm⟩)
      · exact hlegible
      · exact hrest.legible hm
    · rintro (_ | ⟨_, hm⟩)
      · exact hwhole
      · exact hrest.whole hm

/-- What the first field of a record that has been read was read from, and the others. -/
theorem exists_of_named {members : List (Except Fault String × Doc)} {p : α × β}
    (hread : (cons field rest).named r members = .ok p) :
    ((∃ m ∈ members, field.decode r m.2 = .ok p.1) ∨ field.absent = some p.1) ∧ rest.named r members = .ok p.2 := by
  obtain ⟨found, hfind, hread⟩ := bind_eq_ok.1 hread
  cases found with
  | none =>
    obtain ⟨a, habsent, hread⟩ := bind_eq_ok.1 hread
    obtain ⟨b, hothers, hread⟩ := bind_eq_ok.1 hread
    cases hread
    exact ⟨.inr (orMalformed_eq_ok.1 habsent), hothers⟩
  | some d =>
    obtain ⟨m, hm, rfl⟩ := mem_of_findMember hfind
    obtain ⟨a, hvalue, hread⟩ := bind_eq_ok.1 hread
    obtain ⟨b, hothers, hread⟩ := bind_eq_ok.1 hread
    cases hread
    exact ⟨.inl ⟨m, hm, hvalue⟩, hothers⟩

/-- What the first field of a list that has been read was read from, and the others. -/
theorem exists_of_listed {items left : List Doc} {p : α × β} (hread : (cons field rest).listed r items = .ok (p, left)) :
    (∃ d others, items = d :: others ∧ field.decode r d = .ok p.1 ∧ rest.listed r others = .ok (p.2, left)) ∨
      items = [] ∧ field.omitted = some p.1 ∧ rest.listed r [] = .ok (p.2, left) := by
  cases items with
  | nil =>
    obtain ⟨a, homitted, hread⟩ := bind_eq_ok.1 hread
    obtain ⟨⟨b, left⟩, hothers, hread⟩ := bind_eq_ok.1 hread
    cases hread
    exact .inr ⟨rfl, orMalformed_eq_ok.1 homitted, hothers⟩
  | cons d others =>
    obtain ⟨a, hvalue, hread⟩ := bind_eq_ok.1 hread
    obtain ⟨⟨b, left⟩, hothers, hread⟩ := bind_eq_ok.1 hread
    cases hread
    exact .inl ⟨d, others, rfl, hvalue, hothers⟩

section Instances

instance : Total done := ⟨0, fun _ _ _ _ _ => rereads_done⟩

instance : Stable done where
  depth := 0
  rereads_named _ _ _ _ _ _ _ _ := rereads_done
  rereads_listed _ _ _ _ _ _ _ _ _ := rereads_done

variable [HoldsFloats α] [HoldsFloats β]

instance [t : Field.Total field] [ts : Total rest] : Total (cons field rest) where
  depth := max t.depth ts.depth
  rereads hnames {r p} hroom hp := by
    obtain ⟨hname, hrest⟩ := List.nodup_cons.1 hnames
    exact rereads_cons hname (t.rereads (by omega) hp.1) (ts.rereads hrest (by omega) hp.2)

instance [s : Field.Stable field] [ss : Stable rest] : Stable (cons field rest) where
  depth := max s.depth ss.depth
  rereads_named hnames {r members p} hroom hjson hread hp := by
    obtain ⟨hname, hrest⟩ := List.nodup_cons.1 hnames
    obtain ⟨hfirst, hothers⟩ := exists_of_named hread
    refine rereads_cons hname ?_ (ss.rereads_named hrest (by omega) hjson hothers hp.2)
    rcases hfirst with ⟨m, hm, hvalue⟩ | habsent
    · exact s.rereads (by omega) (hjson m hm) hvalue hp.1
    · exact s.rereads_absent (by omega) habsent
  rereads_listed hnames {r items left p} hroom hjson hread hp := by
    obtain ⟨hname, hrest⟩ := List.nodup_cons.1 hnames
    rcases exists_of_listed hread with ⟨d, others, rfl, hvalue, hothers⟩ | ⟨rfl, homitted, hothers⟩
    · have hjson' : ∀ d' ∈ others, d'.IsJson := fun d' hd' => hjson d' (by simp [hd'])
      exact rereads_cons hname (s.rereads (by omega) (hjson d (by simp)) hvalue hp.1)
        (ss.rereads_listed hrest (by omega) hjson' hothers hp.2)
    · exact rereads_cons hname (s.rereads_absent (by omega) (s.absent_of_omitted homitted))
        (ss.rereads_listed hrest (by omega) hjson hothers hp.2)

end Instances

/-- The fields' own names are known. -/
theorem Rereads.checkNames (h : fields.Rereads r a a') (strict : Bool) :
    checkNames strict fields.names (fields.write a) = .ok () := by
  suffices ∀ members : List (Except Fault String × Doc), (∀ m ∈ members, ∃ s ∈ fields.names, m.1 = .ok s) →
      Fields.checkNames strict fields.names members = .ok () from this _ fun m hm => h.names hm
  intro members hmembers
  induction members with
  | nil => rfl
  | cons m members ih =>
    obtain ⟨name, d⟩ := m
    obtain ⟨s, hs, rfl⟩ : ∃ s ∈ fields.names, name = .ok s := hmembers (name, d) (by simp)
    simpa [Fields.checkNames, hs, bind, Except.bind] using ih fun m hm => hmembers m (by simp [hm])

theorem Rereads.ofMembers (h : fields.Rereads r a a') (strict : Bool) :
    fields.ofMembers strict r (fields.write a) = .ok a' := by
  have hnamed := h.named [] fun _ _ _ hm => nomatch hm
  rw [List.nil_append] at hnamed
  simp [Fields.ofMembers, h.checkNames strict, hnamed, bind, Except.bind]

/-- All that is written for fields fits where they stand. -/
theorem Rereads.ofMembers_value (h : fields.Rereads r a a') : ∃ ms, Value.ofMembers r (fields.write a) = .ok ms := by
  suffices ∀ members : List (Except Fault String × Doc), (∀ m ∈ members, (∃ s, m.1 = .ok s) ∧ m.2.Whole r) →
      ∃ ms, Value.ofMembers r members = .ok ms from
    this _ fun m hm => ⟨(h.names hm).imp fun _ hs => hs.2, h.whole hm⟩
  intro members hmembers
  induction members with
  | nil => exact ⟨[], rfl⟩
  | cons m members ih =>
    obtain ⟨name, d⟩ := m
    obtain ⟨⟨s, rfl⟩, v, hv⟩ : (∃ s, name = .ok s) ∧ d.Whole r := hmembers (name, d) (by simp)
    obtain ⟨ms, hms⟩ := ih fun m hm => hmembers m (by simp [hm])
    simp [Value.ofMembers, hv, hms, bind, Except.bind, pure, Except.pure]

theorem named_of_ofMembers {strict : Bool} {members : List (Except Fault String × Doc)}
    (hread : fields.ofMembers strict r members = .ok a) : fields.named r members = .ok a := by
  obtain ⟨-, -, hnamed⟩ := bind_eq_ok.1 hread
  exact hnamed

theorem listed_of_ofItems {items : List Doc} (hread : fields.ofItems r items = .ok a) :
    ∃ left, fields.listed r items = .ok (a, left) := by
  obtain ⟨⟨a', left⟩, hlisted, hread⟩ := bind_eq_ok.1 hread
  dsimp only at hread
  split at hread <;> cases hread
  exact ⟨left, hlisted⟩

end Fields

namespace Form

variable {α ρ : Type} {strict : Bool} {fields : Fields α} {build : α → ρ} {parts : ρ → α} {r inner : Reading} {d : Doc}
  {a : ρ} {x : α}

/-- A record is read back if its fields are. -/
theorem rereads_record (henter : r.enter = .ok inner) (hfields : fields.Rereads inner (parts a) x) :
    (recordOf strict fields build parts).Rereads r a (build x) where
  decode_encode := by simp [recordOf, henter, hfields.ofMembers, bind, Except.bind, pure, Except.pure]
  legible := .record (fun _ hm => (hfields.names hm).imp fun _ hs => hs.2) fun _ hm => hfields.legible hm
  whole := by
    obtain ⟨ms, hms⟩ := hfields.ofMembers_value
    exact ⟨.object ms, by simp [recordOf, Value.ofDoc, henter, hms, bind, Except.bind, pure, Except.pure]⟩

/-- What a record has been read from. -/
theorem exists_of_record (hread : (recordOf strict fields build parts).decode r d = .ok a) :
    ∃ inner x, r.enter = .ok inner ∧ a = build x ∧
      ((∃ members, d = .record members ∧ fields.named inner members = .ok x) ∨
        ∃ items left, d = .list items ∧ fields.listed inner items = .ok (x, left)) := by
  simp only [recordOf] at hread
  split at hread
  case h_1 members =>
    obtain ⟨inner, henter, hread⟩ := bind_eq_ok.1 hread
    obtain ⟨x, hfields, hread⟩ := bind_eq_ok.1 hread
    cases hread
    exact ⟨inner, x, henter, rfl, .inl ⟨members, rfl, Fields.named_of_ofMembers hfields⟩⟩
  case h_2 items =>
    obtain ⟨inner, henter, hread⟩ := bind_eq_ok.1 hread
    obtain ⟨x, hfields, hread⟩ := bind_eq_ok.1 hread
    cases hread
    obtain ⟨left, hlisted⟩ := Fields.listed_of_ofItems hfields
    exact ⟨inner, x, henter, rfl, .inr ⟨items, left, rfl, hlisted⟩⟩
  case h_3 => exact absurd hread (by cases d <;> simp [Doc.unfit])

variable [HoldsFloats α] [HoldsFloats ρ]

/-- Records in which every value is read back: those of fields in which every value is. -/
@[reducible] def totalRecord [t : Fields.Total fields] (hnames : fields.names.Nodup)
    (hbuild : ∀ a, build (parts a) = a) (hexact : ∀ a, Exact a → Exact (parts a)) :
    Total (recordOf strict fields build parts) where
  depth := t.depth + 1
  rereads {r a} hroom ha := by
    obtain ⟨inner, henter, hinner⟩ := Reading.exists_enter hroom
    have hrecord : (recordOf strict fields build parts).Rereads r a (build (parts a)) :=
      rereads_record henter (t.rereads hnames hinner (hexact a ha))
    rwa [hbuild] at hrecord
  solid _ := nofun

/-- Records in which what has been read is read back: those of fields with this property. -/
@[reducible] def stableRecord [s : Fields.Stable fields] (hnames : fields.names.Nodup)
    (hparts : ∀ x, parts (build x) = x) (hexact : ∀ x, Exact (build x) → Exact x) :
    Stable (recordOf strict fields build parts) where
  depth := s.depth + 1
  rereads {r d a} hroom hd hread ha := by
    obtain ⟨inner, x, henter, rfl, hfrom⟩ := exists_of_record hread
    have hinner := Reading.room_of_enter henter
    refine rereads_record henter ?_
    rw [hparts]
    rcases hfrom with ⟨members, rfl, hnamed⟩ | ⟨items, left, rfl, hlisted⟩
    · cases hd with
      | record hd => exact s.rereads_named hnames (by omega) hd hnamed (hexact x ha)
    · cases hd with
      | list hd => exact s.rereads_listed hnames (by omega) hd hlisted (hexact x ha)
  solid _ _ _ _ := nofun

end Form

end Switchboard
