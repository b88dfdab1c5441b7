import Switchboard.Proofs.Form.Choice
import Switchboard.Proofs.Form.Sorted
/-!
Forms for which the order of names makes no difference: what they read from a document they also read from it with its
names sorted, whichever document it is, as long as a text can spell it.
-/
namespace Switchboard

open Doc

namespace Value

variable {r : Reading} {d : Doc} {v w : Value} {name other : String} {ms : List (String × Value)}
  {members : List (Except Fault String × Doc)}

/-- A member goes with later ones, unless one of these has its name. -/
def put (name : String) (v : Value) (ms : List (String × Value)) : List (String × Value) :=
  if hasName name ms then ms else insertMember name v ms

theorem ofMembers_cons_eq_ok : ofMembers r ((.ok name, d) :: members) = .ok ms ↔
    ∃ v others, ofDoc r d = .ok v ∧ ofMembers r members = .ok others ∧ put name v others = ms := by
  change (do let v ← ofDoc r d; let others ← ofMembers r members; return put name v others) = .ok ms ↔ _
  simp only [bind_eq_ok, pure, Except.pure, Except.ok.injEq]
  constructor
  · rintro ⟨v, hv, others, hothers, rfl⟩
    exact ⟨v, others, hv, hothers, rfl⟩
  · rintro ⟨v, others, hv, hothers, rfl⟩
    exact ⟨v, hv, others, hothers, rfl⟩

theorem hasName_insertMember : hasName name (insertMember other w ms) = (other == name || hasName name ms) := by
  induction ms with
  | nil => simp [insertMember, hasName]
  | cons m ms ih =>
    simp only [insertMember]
    split
    · simp only [hasName, List.any_cons] at ih ⊢
      rw [ih, Bool.or_left_comm]
    · simp [hasName]

/-- It makes no difference which of two members of different names is inserted first. -/
theorem insertMember_comm (hne : name ≠ other) :
    insertMember name v (insertMember other w ms) = insertMember other w (insertMember name v ms) := by
  have hless : name < other ∧ ¬ other < name ∨ other < name ∧ ¬ name < other := by
    rcases Std.lt_trichotomy name other with h | h | h
    · exact .inl ⟨h, String.lt_asymm h⟩
    · exact absurd h hne
    · exact .inr ⟨h, String.lt_asymm h⟩
  induction ms with
  | nil => rcases hless with ⟨h, h'⟩ | ⟨h, h'⟩ <;> simp [insertMember, h, h']
  | cons m ms ih =>
    by_cases hname : m.1 < name <;> by_cases hother : m.1 < other
    · simp [insertMember, hname, hother, ih]
    · have hlt : other < name := Std.lt_of_le_of_lt (String.not_lt.1 hother) hname
      simp [insertMember, hname, hother, hlt]
    · have hlt : name < other := Std.lt_of_le_of_lt (String.not_lt.1 hname) hother
      simp [insertMember, hname, hother, hlt]
    · rcases hless with ⟨h, h'⟩ | ⟨h, h'⟩ <;> simp [insertMember, hname, hother, h, h']

theorem put_comm (hne : name ≠ other) : put name v (put other w ms) = put other w (put name v ms) := by
  cases hname : hasName name ms <;> cases hother : hasName other ms <;>
    simp [put, hname, hother, hasName_insertMember, hne, hne.symm, insertMember_comm]

/-- It makes no difference where a member stands among members of other names. -/
theorem ofMembers_insertMember (hmembers : ∀ m ∈ members, ∃ s, m.1 = .ok s)
    (h : ofMembers r ((.ok name, d) :: members) = .ok ms) :
    ofMembers r (Doc.insertMember (.ok name, d) members) = .ok ms := by
  induction members generalizing ms with
  | nil => exact h
  | cons m members ih =>
    obtain ⟨label, e⟩ := m
    obtain ⟨⟨s, rfl⟩, hrest⟩ : (∃ s, label = .ok s) ∧ ∀ m ∈ members, ∃ s, m.1 = .ok s := List.forall_mem_cons.1 hmembers
    simp only [Doc.insertMember]
    split
    case isFalse => exact h
    case isTrue hlt =>
      -- the member goes behind one of a lesser name, and both are put with the same others
      obtain ⟨v, others, hv, hothers, rfl⟩ := ofMembers_cons_eq_ok.1 h
      obtain ⟨w, rest, hw, hmembers, rfl⟩ := ofMembers_cons_eq_ok.1 hothers
      have hinner := ih hrest (ofMembers_cons_eq_ok.2 ⟨v, rest, hv, hmembers, rfl⟩)
      have hlt : s < name := hlt
      have hne : s ≠ name := fun h => String.lt_irrefl _ (h ▸ hlt)
      exact ofMembers_cons_eq_ok.2 ⟨w, _, hw, hinner, put_comm hne⟩

theorem ofItems_sorted {items : List Doc} {vs : List Value}
    (hitems : ∀ d ∈ items, ∀ v, ofDoc r d = .ok v → ofDoc r d.sorted = .ok v) (h : ofItems r items = .ok vs) :
    ofItems r (sortedItems items) = .ok vs := by
  induction items generalizing vs with
  | nil => exact h
  | cons d items ih =>
    obtain ⟨hfirst, hrest⟩ := List.forall_mem_cons.1 hitems
    obtain ⟨v, hv, h⟩ := bind_eq_ok.1 h
    obtain ⟨others, hothers, h⟩ := bind_eq_ok.1 h
    exact bind_eq_ok.2 ⟨v, hfirst v hv, bind_eq_ok.2 ⟨others, ih hrest hothers, h⟩⟩

theorem ofMembers_sorted (hmembers : ∀ m ∈ members, ∃ s, m.1 = .ok s)
    (hdocs : ∀ m ∈ members, ∀ v, ofDoc r m.2 = .ok v → ofDoc r m.2.sorted = .ok v) (h : ofMembers r members = .ok ms) :
    ofMembers r (sortedMembers members) = .ok ms := by
  induction members generalizing ms with
  | nil => exact h
  | cons m members ih =>
    obtain ⟨label, d⟩ := m
    obtain ⟨⟨s, rfl⟩, hnames⟩ : (∃ s, label = .ok s) ∧ ∀ m ∈ members, ∃ s, m.1 = .ok s :=
      List.forall_mem_cons.1 hmembers
    obtain ⟨hfirst, hrest⟩ := List.forall_mem_cons.1 hdocs
    obtain ⟨v, others, hv, hothers, hput⟩ := ofMembers_cons_eq_ok.1 h
    have hsorted : ∀ m ∈ sortedMembers members, ∃ s, m.1 = .ok s := fun m hm => by
      obtain ⟨n, hn, rfl⟩ := List.mem_map.1 ((perm_sortedMembers members).mem_iff.1 hm)
      exact hnames n hn
    have hrest := ih hnames hrest hothers
    exact ofMembers_insertMember hsorted (ofMembers_cons_eq_ok.2 ⟨v, others, hfirst v hv, hrest, hput⟩)

/-- The same value is read from a document with sorted names. -/
theorem ofDoc_sorted (hd : d.Legible) (h : ofDoc r d = .ok v) : ofDoc r d.sorted = .ok v := by
  induction hd generalizing r v with
  | null | bool | numeral | text => exact h
  | list _ ih =>
    obtain ⟨inner, henter, h⟩ := bind_eq_ok.1 h
    obtain ⟨vs, hvs, h⟩ := bind_eq_ok.1 h
    have hsorted := ofItems_sorted (fun d hd v => ih d hd) hvs
    exact bind_eq_ok.2 ⟨inner, henter, bind_eq_ok.2 ⟨vs, hsorted, h⟩⟩
  | record hnames _ ih =>
    obtain ⟨inner, henter, h⟩ := bind_eq_ok.1 h
    obtain ⟨ms, hms, h⟩ := bind_eq_ok.1 h
    have hsorted := ofMembers_sorted hnames (fun m hm v => ih m hm) hms
    exact bind_eq_ok.2 ⟨inner, henter, bind_eq_ok.2 ⟨ms, hsorted, h⟩⟩

end Value

theorem Doc.Whole.sorted {r : Reading} {d : Doc} (h : d.Whole r) (hd : d.Legible) : d.sorted.Whole r :=
  h.imp fun _ => Value.ofDoc_sorted hd

/-- A form for which the order of names makes no difference. -/
class Form.Unordered {α : Type} (form : Form α) : Prop where
  decode_sorted {r : Reading} {d : Doc} {a : α} (hd : d.Legible) (h : form.decode r d = .ok a) :
    form.decode r d.sorted = .ok a

/-- A field for whose value the order of names makes no difference. -/
class Field.Unordered {α : Type} (field : Field α) : Prop where
  decode_sorted {r : Reading} {d : Doc} {a : α} (hd : d.Legible) (h : field.decode r d = .ok a) :
    field.decode r d.sorted = .ok a

/-- Fields for which the order of names makes no difference, neither of their own nor of those in their values. -/
class Fields.Unordered {α : Type} (fields : Fields α) : Prop where
  named_sorted {r : Reading} {members members' : List (Except Fault String × Doc)} {a : α}
    (hmembers : LegibleMembers members) (hperm : members'.Perm (members.map sortedMember))
    (h : fields.named r members = .ok a) : fields.named r members' = .ok a
  listed_sorted {r : Reading} {items left : List Doc} {a : α} (hitems : ∀ d ∈ items, d.Legible)
    (h : fields.listed r items = .ok (a, left)) : fields.listed r (items.map Doc.sorted) = .ok (a, left.map Doc.sorted)

namespace Form

variable {α β : Type} {form : Form α} {r : Reading} {d : Doc} {a : α}

/-- A form that reads neither lists nor records. -/
theorem unordered_of_plain (hlist : ∀ r items a, form.decode r (.list items) ≠ .ok a)
    (hrecord : ∀ r members a, form.decode r (.record members) ≠ .ok a) : form.Unordered where
  decode_sorted {r d a} hd h := by
    cases hd with
    | null | bool | numeral | text => exact h
    | list => exact absurd h (hlist _ _ _)
    | record => exact absurd h (hrecord _ _ _)

instance : Unordered Form.value := ⟨Value.ofDoc_sorted⟩

instance : Unordered Form.unit := unordered_of_plain nofun nofun

instance : Unordered Form.text := unordered_of_plain nofun nofun

instance : Unordered Form.bool := unordered_of_plain nofun nofun

instance : Unordered Form.uint8 := unordered_of_plain nofun nofun

instance : Unordered Form.uint32 := unordered_of_plain nofun nofun

instance : Unordered Form.uint64 := unordered_of_plain nofun nofun

instance : Unordered Form.int32 := unordered_of_plain nofun nofun

instance [s : form.Unordered] : form.nullable.Unordered where
  decode_sorted {r d o} hd h := by
    by_cases hnull : d = .null
    · rwa [sorted_eq_null_iff.2 hnull, ← hnull]
    · rw [nullable_of_ne_null hnull] at h
      obtain ⟨a, hread, rfl⟩ := map_eq_ok.1 h
      rw [nullable_of_ne_null (mt sorted_eq_null_iff.1 hnull), s.decode_sorted hd hread]
      rfl

theorem decodeItems_sorted [s : form.Unordered] {items : List Doc} {as : List α} (hitems : ∀ d ∈ items, d.Legible)
    (h : form.decodeItems r items = .ok as) : form.decodeItems r (items.map Doc.sorted) = .ok as := by
  induction items generalizing as with
  | nil => exact h
  | cons d items ih =>
    obtain ⟨hfirst, hrest⟩ := List.forall_mem_cons.1 hitems
    obtain ⟨a, ha, h⟩ := bind_eq_ok.1 h
    obtain ⟨others, hothers, h⟩ := bind_eq_ok.1 h
    exact bind_eq_ok.2 ⟨a, s.decode_sorted hfirst ha, bind_eq_ok.2 ⟨others, ih hrest hothers, h⟩⟩

instance [form.Unordered] : form.list.Unordered where
  decode_sorted {r d as} hd h := by
    obtain ⟨inner, items, rfl, henter, hitems⟩ := exists_of_list h
    rw [Doc.sorted, sortedItems_eq_map]
    exact bind_eq_ok.2 ⟨inner, henter, decodeItems_sorted (legible_items hd) hitems⟩

end Form

section Fields

variable {α β : Type} {name : String} {form : Form α} {field : Field α} {fields : Fields α} {rest : Fields β}

instance [s : form.Unordered] : (Field.required name form).Unordered := ⟨s.decode_sorted⟩

instance [s : form.nullable.Unordered] : (Field.optional name form).Unordered := ⟨s.decode_sorted⟩

instance [s : form.list.Unordered] : (Field.several name form).Unordered := ⟨s.decode_sorted⟩

instance : Fields.done.Unordered where
  named_sorted _ _ h := h
  listed_sorted _ h := by
    cases h
    rfl

instance [s : field.Unordered] [ss : rest.Unordered] : (Fields.cons field rest).Unordered where
  named_sorted {r members members' p} hmembers hperm h := by
    obtain ⟨found, hfind, h⟩ := bind_eq_ok.1 h
    have hfound := findMember_sorted hperm hfind
    cases found with
    | none =>
      obtain ⟨a, habsent, h⟩ := bind_eq_ok.1 h
      obtain ⟨b, hothers, h⟩ := bind_eq_ok.1 h
      have hrest := ss.named_sorted hmembers hperm hothers
      exact bind_eq_ok.2 ⟨none, hfound, bind_eq_ok.2 ⟨a, habsent, bind_eq_ok.2 ⟨b, hrest, h⟩⟩⟩
    | some d =>
      obtain ⟨m, hm, rfl⟩ := mem_of_findMember hfind
      obtain ⟨a, hvalue, h⟩ := bind_eq_ok.1 h
      obtain ⟨b, hothers, h⟩ := bind_eq_ok.1 h
      have hrest := ss.named_sorted hmembers hperm hothers
      have hsorted := s.decode_sorted (hmembers m hm).2 hvalue
      exact bind_eq_ok.2 ⟨some m.2.sorted, hfound, bind_eq_ok.2 ⟨a, hsorted, bind_eq_ok.2 ⟨b, hrest, h⟩⟩⟩
  listed_sorted {r items left p} hitems h := by
    rcases Fields.exists_of_listed h with ⟨d, others, rfl, hvalue, hothers⟩ | ⟨rfl, homitted, hothers⟩
    · obtain ⟨hfirst, hrest⟩ := List.forall_mem_cons.1 hitems
      exact bind_eq_ok.2 ⟨_, s.decode_sorted hfirst hvalue, bind_eq_ok.2 ⟨_, ss.listed_sorted hrest hothers, rfl⟩⟩
    · have habsent : orMalformed field.omitted = .ok p.1 := by rw [homitted]; rfl
      exact bind_eq_ok.2 ⟨p.1, habsent, bind_eq_ok.2 ⟨_, ss.listed_sorted hitems hothers, rfl⟩⟩

variable [s : fields.Unordered] {r : Reading} {a : α}

theorem Fields.ofMembers_sorted {members members' : List (Except Fault String × Doc)}
    (hmembers : LegibleMembers members) (hperm : members'.Perm (members.map sortedMember))
    (h : fields.ofMembers false r members = .ok a) :
    fields.ofMembers false r members' = .ok a :=
  bind_eq_ok.2 ⟨(), checkNames_of_legible (hmembers.sorted hperm) _,
    s.named_sorted hmembers hperm (named_of_ofMembers h)⟩

theorem Fields.ofItems_sorted {items : List Doc} (hitems : ∀ d ∈ items, d.Legible)
    (h : fields.ofItems r items = .ok a) :
    fields.ofItems r (items.map Doc.sorted) = .ok a := by
  obtain ⟨⟨b, left⟩, hlisted, h⟩ := bind_eq_ok.1 h
  refine bind_eq_ok.2 ⟨_, s.listed_sorted hitems hlisted, ?_⟩
  simpa using h

/-- A record with fields for which the order of names makes no difference. -/
theorem Form.unorderedRecord {ρ : Type} {build : α → ρ} {parts : ρ → α} :
    (Form.record fields build parts).Unordered where
  decode_sorted {r d a} hd h := by
    cases d with
    | record members =>
      obtain ⟨inner, henter, h⟩ := bind_eq_ok.1 h
      obtain ⟨x, hx, h⟩ := bind_eq_ok.1 h
      have hsorted := Fields.ofMembers_sorted (legible_members hd) (perm_sortedMembers members) hx
      exact bind_eq_ok.2 ⟨inner, henter, bind_eq_ok.2 ⟨x, hsorted, h⟩⟩
    | list items =>
      obtain ⟨inner, henter, h⟩ := bind_eq_ok.1 h
      obtain ⟨x, hx, h⟩ := bind_eq_ok.1 h
      have hsorted := Fields.ofItems_sorted (legible_items hd) hx
      rw [← sortedItems_eq_map] at hsorted
      exact bind_eq_ok.2 ⟨inner, henter, bind_eq_ok.2 ⟨x, hsorted, h⟩⟩
    | null | bool | numeral | double | string | gap => cases h

end Fields

section Names

variable {α : Type} {r : Reading} {d : Doc} {s : String}

theorem Doc.isNothing_sorted {language : Language} (h : d.isNothing language = .ok ()) :
    d.sorted.isNothing language = .ok () := by
  cases d with
  | list items =>
    cases items with
    | nil => exact h
    | cons => cases h
  | record members =>
    cases members with
    | nil => exact h
    | cons => cases h
  | null | bool | numeral | double | string | gap => exact h

theorem Doc.variantName_sorted (h : d.variantName r = .ok s) : d.sorted.variantName r = .ok s := by
  unfold Doc.variantName at h
  split at h
  case h_1 => exact h
  case h_2 name d =>
    obtain ⟨⟨⟩, henter, h⟩ := bind_eq_ok.1 h
    obtain ⟨name, rfl, hrest⟩ := bind_eq_ok.1 h
    obtain ⟨⟨⟩, hnothing, hrest⟩ := bind_eq_ok.1 hrest
    exact bind_eq_ok.2 ⟨(), henter, bind_eq_ok.2 ⟨name, rfl, bind_eq_ok.2 ⟨(), isNothing_sorted hnothing, hrest⟩⟩⟩
  case h_3 => exact absurd h (by cases d <;> simp [Doc.unfit])

theorem Tagged.nameOf_sorted (h : Tagged.nameOf d = .ok s) : Tagged.nameOf d.sorted = .ok s := by
  cases d with
  | string => exact h
  | null | bool | numeral | double | list | record | gap => cases h

theorem Form.unorderedNames {name : α → String} {all : List α} : (Form.names name all).Unordered where
  decode_sorted _ h := by
    obtain ⟨s, hs, h⟩ := bind_eq_ok.1 h
    exact bind_eq_ok.2 ⟨s, variantName_sorted hs, h⟩

end Names

namespace Tagged

variable {α β : Type} {r inner : Reading} {d : Doc} {s name variant : String} {met : Option String}
  {members members' others : List (Except Fault String × Doc)}

/-- The first member of a variant is its name, or is kept. -/
theorem splitMembers_cons_eq_ok : splitMembers r met ((.ok s, d) :: members) = .ok (name, others) ↔
    (s = key ∧ met = none ∧ ∃ v, nameOf d = .ok v ∧ splitMembers r (some v) members = .ok (name, others)) ∨
      (s ≠ key ∧ d.Whole r ∧ ∃ kept, splitMembers r met members = .ok (name, kept) ∧ others = (.ok s, d) :: kept) := by
  constructor
  · intro h
    obtain ⟨_, hs, h⟩ := bind_eq_ok.1 h
    cases hs
    split at h
    case isTrue hkey =>
      split at h
      case isTrue => cases h
      case isFalse hmet =>
        obtain ⟨v, hv, h⟩ := bind_eq_ok.1 h
        exact .inl ⟨hkey, by simpa using hmet, v, hv, h⟩
    case isFalse hkey =>
      obtain ⟨⟨⟩, hwhole, h⟩ := bind_eq_ok.1 h
      obtain ⟨⟨variant, kept⟩, hsplit, h⟩ := bind_eq_ok.1 h
      cases h
      obtain ⟨v, hv, -⟩ := map_eq_ok.1 hwhole
      exact .inr ⟨hkey, ⟨v, hv⟩, kept, hsplit, rfl⟩
  · rintro (⟨rfl, rfl, v, hv, hsplit⟩ | ⟨hkey, ⟨v, hv⟩, kept, hsplit, rfl⟩)
    · simp [splitMembers, hv, hsplit, bind, Except.bind]
    · simp [splitMembers, hkey, hv, hsplit, bind, Except.bind, pure, Except.pure, discard, Functor.mapConst, Except.map]

/-- The other members of a variant, which are kept. -/
def Kept (r : Reading) (members : List (Except Fault String × Doc)) : Prop :=
  ∀ m ∈ members, (∃ s, s ≠ key ∧ m.1 = .ok s) ∧ m.2.Whole r

theorem splitMembers_some (hnames : ∀ m ∈ members, ∃ s, m.1 = .ok s)
    (h : splitMembers r (some variant) members = .ok (name, others)) :
    name = variant ∧ others = members ∧ Kept r members := by
  induction members generalizing others with
  | nil =>
    cases h
    exact ⟨rfl, rfl, by simp [Kept]⟩
  | cons m members ih =>
    obtain ⟨label, d⟩ := m
    obtain ⟨⟨s, rfl⟩, hrest⟩ : (∃ s, label = .ok s) ∧ ∀ m ∈ members, ∃ s, m.1 = .ok s := List.forall_mem_cons.1 hnames
    obtain ⟨-, hmet, -⟩ | ⟨hkey, hwhole, kept, hsplit, rfl⟩ := splitMembers_cons_eq_ok.1 h
    · cases hmet
    · obtain ⟨rfl, rfl, hkept⟩ := ih hrest hsplit
      exact ⟨rfl, rfl, List.forall_mem_cons.2 ⟨⟨⟨s, hkey, rfl⟩, hwhole⟩, hkept⟩⟩

/-- A variant has its name once, anywhere among the others. -/
theorem splitMembers_eq_ok (hnames : ∀ m ∈ members, ∃ s, m.1 = .ok s) :
    splitMembers r none members = .ok (name, others) ↔ ∃ before d after, members = before ++ (.ok key, d) :: after ∧
      nameOf d = .ok name ∧ others = before ++ after ∧ Kept r others := by
  constructor
  · intro h
    induction members generalizing others with
    | nil => cases h
    | cons m members ih =>
      obtain ⟨label, d⟩ := m
      obtain ⟨⟨s, rfl⟩, hrest⟩ : (∃ s, label = .ok s) ∧ ∀ m ∈ members, ∃ s, m.1 = .ok s :=
        List.forall_mem_cons.1 hnames
      obtain ⟨rfl, -, v, hv, hsplit⟩ | ⟨hkey, hwhole, kept, hsplit, rfl⟩ := splitMembers_cons_eq_ok.1 h
      · obtain ⟨rfl, rfl, hkept⟩ := splitMembers_some hrest hsplit
        exact ⟨[], d, others, rfl, hv, rfl, hkept⟩
      · obtain ⟨before, d', after, rfl, hname, rfl, hkept⟩ := ih hrest hsplit
        have hothers : Kept r ((.ok s, d) :: (before ++ after)) :=
          List.forall_mem_cons.2 ⟨⟨⟨s, hkey, rfl⟩, hwhole⟩, hkept⟩
        exact ⟨(.ok s, d) :: before, d', after, rfl, hname, rfl, hothers⟩
  · rintro ⟨before, d, after, rfl, hname, rfl, hkept⟩
    clear hnames
    induction before with
    | nil => exact splitMembers_cons_eq_ok.2 (.inl ⟨rfl, rfl, name, hname, splitMembers_of_whole hkept⟩)
    | cons m before ih =>
      obtain ⟨label, e⟩ := m
      obtain ⟨⟨⟨s, hkey, rfl⟩, hwhole⟩, hrest⟩ :
          ((∃ s, s ≠ key ∧ label = .ok s) ∧ e.Whole r) ∧ Kept r (before ++ after) := List.forall_mem_cons.1 hkept
      exact splitMembers_cons_eq_ok.2 (.inr ⟨hkey, hwhole, _, ih hrest, rfl⟩)

/-- The same variant is met among sorted members, with the same others. -/
theorem splitMembers_sorted (hmembers : LegibleMembers members) (hperm : members'.Perm (members.map sortedMember))
    (h : splitMembers r none members = .ok (name, others)) :
    ∃ others', splitMembers r none members' = .ok (name, others') ∧ LegibleMembers others ∧
      others'.Perm (others.map sortedMember) := by
  obtain ⟨before, d, after, rfl, hname, rfl, hkept⟩ := (splitMembers_eq_ok fun m hm => (hmembers m hm).1).1 h
  -- the member with the variant's name is among the sorted ones, and without it the others are left over
  have hmem : (.ok key, d.sorted) ∈ members' := by
    rw [hperm.mem_iff, List.mem_map]
    exact ⟨(.ok key, d), by simp, rfl⟩
  obtain ⟨before', after', rfl⟩ := List.append_of_mem hmem
  have hothers : (before' ++ after').Perm ((before ++ after).map sortedMember) := by
    rw [List.map_append, List.map_cons] at hperm
    rw [List.map_append]
    exact (List.perm_cons _).1 (List.perm_middle.symm.trans (hperm.trans List.perm_middle))
  have hlegible : LegibleMembers (before ++ after) := fun m hm =>
    hmembers m (List.perm_middle.mem_iff.2 (List.mem_cons_of_mem _ hm))
  refine ⟨before' ++ after', ?_, hlegible, hothers⟩
  refine (splitMembers_eq_ok fun m hm => (hmembers.sorted hperm m hm).1).2
    ⟨before', _, after', rfl, nameOf_sorted hname, rfl, ?_⟩
  intro m hm
  obtain ⟨n, hn, rfl⟩ := List.mem_map.1 (hothers.mem_iff.1 hm)
  exact ⟨(hkept n hn).1, (hkept n hn).2.sorted (hlegible n hn).2⟩

/-- The fields of a variant, and the same fields with sorted names. -/
inductive Sorts : Content → Content → Prop where
  | named {members members' : List (Except Fault String × Doc)} (hmembers : LegibleMembers members)
      (hperm : members'.Perm (members.map sortedMember)) : Sorts (.named members) (.named members')
  | listed {items : List Doc} (hitems : ∀ d ∈ items, d.Legible) : Sorts (.listed items) (.listed (items.map Doc.sorted))

variable {content content' : Content}

/-- The same variant is read from a document with sorted names, with its fields sorted. -/
theorem ofDoc_sorted (hd : d.Legible) (h : ofDoc r d = .ok ⟨name, inner, content⟩) :
    ∃ content', Sorts content content' ∧ ofDoc r d.sorted = .ok ⟨name, inner, content'⟩ := by
  cases d with
  | record members =>
    obtain ⟨inner, henter, h⟩ := bind_eq_ok.1 h
    obtain ⟨⟨name, others⟩, hsplit, h⟩ := bind_eq_ok.1 h
    cases h
    obtain ⟨others', hsorted, hlegible, hperm⟩ :=
      splitMembers_sorted (legible_members hd) (perm_sortedMembers members) hsplit
    exact ⟨.named others', .named hlegible hperm, bind_eq_ok.2 ⟨inner, henter, bind_eq_ok.2 ⟨_, hsorted, rfl⟩⟩⟩
  | list items =>
    cases items with
    | nil =>
      obtain ⟨-, -, h⟩ := bind_eq_ok.1 h
      cases h
    | cons first items =>
      obtain ⟨inner, henter, h⟩ := bind_eq_ok.1 h
      obtain ⟨name, hname, h⟩ := bind_eq_ok.1 h
      obtain ⟨⟨⟩, hwhole, h⟩ := bind_eq_ok.1 h
      cases h
      obtain ⟨vs, hvs, -⟩ := map_eq_ok.1 hwhole
      have hitems := (List.forall_mem_cons.1 (legible_items hd)).2
      have hsorted := Value.ofItems_sorted (fun d hd v => Value.ofDoc_sorted (hitems d hd)) hvs
      refine ⟨.listed (items.map Doc.sorted), .listed hitems, ?_⟩
      rw [← sortedItems_eq_map]
      refine bind_eq_ok.2 ⟨inner, henter, bind_eq_ok.2 ⟨name, nameOf_sorted hname, bind_eq_ok.2 ⟨(), ?_, rfl⟩⟩⟩
      rw [hsorted]
      rfl
  | null | bool | numeral | double | string | gap => cases h

theorem fields_sorted {fields : Fields β} [fields.Unordered] {x : β} (hsorts : Sorts content content')
    (h : (⟨name, inner, content⟩ : Tagged).fields fields = .ok x) :
    (⟨name, inner, content'⟩ : Tagged).fields fields = .ok x := by
  cases hsorts with
  | named hmembers hperm => exact Fields.ofMembers_sorted hmembers hperm h
  | listed hitems => exact Fields.ofItems_sorted hitems h

theorem empty_sorted (hsorts : Sorts content content') (h : (⟨name, inner, content⟩ : Tagged).empty = .ok ()) :
    (⟨name, inner, content'⟩ : Tagged).empty = .ok () := by
  cases hsorts with
  | named => exact h
  | listed => simpa [empty] using h

theorem pick_fields {fields : Fields β} [fields.Unordered] {f : β → Except Fault α} {a : α}
    (hsorts : Sorts content content') (h : (⟨name, inner, content⟩ : Tagged).fields fields >>= f = .ok a) :
    (⟨name, inner, content'⟩ : Tagged).fields fields >>= f = .ok a := by
  obtain ⟨x, hfields, h⟩ := bind_eq_ok.1 h
  exact bind_eq_ok.2 ⟨x, fields_sorted hsorts hfields, h⟩

theorem pick_empty {f : Unit → Except Fault α} {a : α} (hsorts : Sorts content content')
    (h : (⟨name, inner, content⟩ : Tagged).empty >>= f = .ok a) :
    (⟨name, inner, content'⟩ : Tagged).empty >>= f = .ok a := by
  obtain ⟨⟨⟩, hempty, h⟩ := bind_eq_ok.1 h
  exact bind_eq_ok.2 ⟨(), empty_sorted hsorts hempty, h⟩

/-- A choice is unordered if what is picked from a variant is picked from it with sorted fields. -/
theorem unorderedChoice {form : Form α} {pick : Tagged → Except Fault α}
    (hdecode : ∀ r d, form.decode r d = ofDoc r d >>= pick)
    (hpick : ∀ {name inner content content' a}, Sorts content content' → pick ⟨name, inner, content⟩ = .ok a →
      pick ⟨name, inner, content'⟩ = .ok a) : form.Unordered where
  decode_sorted {r d a} hd h := by
    rw [hdecode] at h ⊢
    obtain ⟨⟨name, inner, content⟩, ht, h⟩ := bind_eq_ok.1 h
    obtain ⟨content', hsorts, ht'⟩ := ofDoc_sorted hd ht
    exact bind_eq_ok.2 ⟨_, ht', hpick hsorts h⟩

end Tagged

end Switchboard
