import Switchboard.Proofs.Form.Basic
/-!
Untyped values are read back. The members of an object that has been read have increasing names, so that reading them
once more neither moves nor drops any.
-/
namespace Switchboard

namespace Value

variable {r : Reading} {d : Doc} {name : String} {v : Value} {ms : List (String × Value)}

/-- The names of the members increase. -/
def Ordered (ms : List (String × Value)) : Prop := ms.Pairwise fun m n => m.1 < n.1

theorem mem_insertMember {m : String × Value} (h : m ∈ insertMember name v ms) : m = (name, v) ∨ m ∈ ms := by
  induction ms with
  | nil => simpa [insertMember] using h
  | cons n ms ih =>
    simp only [insertMember] at h
    split at h
    · rcases List.mem_cons.1 h with rfl | h
      · exact .inr (by simp)
      · exact (ih h).imp id fun h => by simp [h]
    · simpa using h

theorem hasName_iff : hasName name ms = true ↔ ∃ m ∈ ms, m.1 = name := by
  simp [hasName]

/-- A new member keeps the names in order. -/
theorem ordered_insertMember (h : Ordered ms) (hnew : hasName name ms = false) : Ordered (insertMember name v ms) := by
  induction ms with
  | nil => simp [insertMember, Ordered]
  | cons m ms ih =>
    obtain ⟨hfirst, hrest⟩ := List.pairwise_cons.1 h
    have hne : m.1 ≠ name ∧ hasName name ms = false := by simpa [hasName] using hnew
    simp only [insertMember]
    split
    case isTrue hlt =>
      refine List.pairwise_cons.2 ⟨fun n hn => ?_, ih hrest hne.2⟩
      rcases mem_insertMember hn with rfl | hn
      · exact hlt
      · exact hfirst n hn
    case isFalse hge =>
      have hlt : name < m.1 := by
        refine String.not_le.1 fun hle => hne.1 ?_
        exact String.le_antisymm hle (String.not_lt.1 hge)
      refine List.pairwise_cons.2 ⟨fun n hn => ?_, h⟩
      rcases List.mem_cons.1 hn with rfl | hn
      · exact hlt
      · exact String.lt_trans hlt (hfirst n hn)

/-- A member whose name comes before all others is put in front. -/
theorem insertMember_of_ordered (h : Ordered ((name, v) :: ms)) :
    hasName name ms = false ∧ insertMember name v ms = (name, v) :: ms := by
  obtain ⟨hfirst, -⟩ := List.pairwise_cons.1 h
  constructor
  · refine Bool.eq_false_iff.2 fun hhas => ?_
    obtain ⟨m, hm, rfl⟩ := hasName_iff.1 hhas
    exact String.lt_irrefl _ (hfirst m hm)
  · cases ms with
    | nil => rfl
    | cons m ms => exact if_neg (String.lt_asymm (hfirst m (by simp)))

/-- The members of a record that has been read are in order, and each comes from one of the record's. -/
theorem ordered_of_ofMembers {members : List (Except Fault String × Doc)} (hread : ofMembers r members = .ok ms) :
    Ordered ms ∧ ∀ m ∈ ms, ∃ n ∈ members, ofDoc r n.2 = .ok m.2 := by
  induction members generalizing ms with
  | nil =>
    cases hread
    exact ⟨.nil, by simp⟩
  | cons n members ih =>
    obtain ⟨label, d⟩ := n
    obtain ⟨name, rfl, hvalues⟩ := bind_eq_ok.1 hread
    obtain ⟨v, hvalue, hread⟩ := bind_eq_ok.1 hvalues
    obtain ⟨others, hothers, hread⟩ := bind_eq_ok.1 hread
    obtain ⟨hordered, hfrom⟩ := ih hothers
    have hfrom' : ∀ m ∈ others, ∃ n ∈ (Except.ok name, d) :: members, ofDoc r n.2 = .ok m.2 := fun m hm => by
      obtain ⟨n, hn, hof⟩ := hfrom m hm
      exact ⟨n, by simp [hn], hof⟩
    cases hread
    split
    case isTrue => exact ⟨hordered, hfrom'⟩
    case isFalse hnew =>
      refine ⟨ordered_insertMember hordered (by simpa using hnew), fun m hm => ?_⟩
      rcases mem_insertMember hm with rfl | hm
      · exact ⟨(.ok name, d), by simp, hvalue⟩
      · exact hfrom' m hm

/-- Ordered members are read back as they are. -/
theorem ofMembers_memberDocs (hordered : Ordered ms) (h : ∀ m ∈ ms, ofDoc r m.2.toDoc = .ok m.2) :
    ofMembers r (memberDocs ms) = .ok ms := by
  induction ms with
  | nil => rfl
  | cons m ms ih =>
    obtain ⟨name, v⟩ := m
    have hfirst := h (name, v) (by simp)
    have hrest := ih (List.pairwise_cons.1 hordered).2 fun m hm => h m (by simp [hm])
    obtain ⟨hnew, hinsert⟩ := insertMember_of_ordered hordered
    simp only [memberDocs, ofMembers, bind, Except.bind, hfirst, hrest, pure, Except.pure]
    rw [hnew, hinsert]
    rfl

theorem itemDocs_eq_map (vs : List Value) : itemDocs vs = vs.map toDoc := by
  induction vs with
  | nil => rfl
  | cons v vs ih => simp [itemDocs, ih]

theorem memberDocs_eq_map (ms : List (String × Value)) : memberDocs ms = ms.map fun m => (.ok m.1, m.2.toDoc) := by
  induction ms with
  | nil => rfl
  | cons m ms ih => simp [memberDocs, ih]

/-- The items of an array are read as the items of a list of values are. -/
theorem decodeItems_value (r : Reading) (items : List Doc) : Form.value.decodeItems r items = ofItems r items := by
  induction items with
  | nil => rfl
  | cons d items ih =>
    rw [Form.decodeItems, ih]
    rfl

theorem range_of_integer? {n : Numeral} {i : Int} (h : n.integer? = some i) :
    -9223372036854775808 ≤ i ∧ i ≤ 18446744073709551615 := by
  have hword : wordMax = 18446744073709551615 := by decide
  have hpower : twoPow 63 = 9223372036854775808 := by decide
  simp only [Numeral.integer?, hword, hpower] at h
  split at h
  case isFalse => cases h
  case isTrue =>
    split at h
    case isTrue =>
      split at h <;> cases h
      omega
    case isFalse =>
      split at h <;> cases h
      omega

/-- An integer that has been read is read back. -/
theorem rereads_integer {i : Int} (hlow : -9223372036854775808 ≤ i) (hhigh : i ≤ 18446744073709551615) :
    Form.value.Rereads r (.integer i) (.integer i) := by
  have hread : ofDoc r (.int i) = .ok (.integer i) := by simp [ofDoc, Doc.int, Form.integer?_ofInt hlow hhigh]
  exact ⟨hread, .int i, _, hread⟩

/-- A float is read back if its text is. -/
theorem rereads_double {x : Double} {n : Numeral} (hn : x.numeral? = some n) (hx : x.ReadsBack) :
    Form.value.Rereads r (.double x) (.double x) := by
  have hencode : Form.value.encode (.double x) = .numeral n := by simp [Form.value, toDoc, doubleDoc, hn]
  obtain ⟨hlegible, hread⟩ := Form.decode_numeral_of_read (fun _ _ => rfl) (hx n hn)
  have hread : ofDoc r (.numeral n) = .ok (.double x) := hread
  exact ⟨by rw [hencode]; exact hread, by rw [hencode]; exact .numeral hlegible, _, by rw [hencode]; exact hread⟩

theorem rereads_array {inner : Reading} {vs : List Value} (henter : r.enter = .ok inner)
    (h : ∀ v ∈ vs, Form.value.Rereads inner v v) : Form.value.Rereads r (.array vs) (.array vs) := by
  have hitems : ofItems inner (itemDocs vs) = .ok vs := by
    rw [← decodeItems_value, itemDocs_eq_map]
    exact Form.decodeItems_map h
  have hread : ofDoc r (.list (itemDocs vs)) = .ok (.array vs) := by
    simp [ofDoc, henter, hitems, bind, Except.bind, pure, Except.pure]
  have hlegible : ∀ d ∈ itemDocs vs, d.Legible := by
    rw [itemDocs_eq_map]
    rintro _ hmem
    obtain ⟨v, hv, rfl⟩ := List.mem_map.1 hmem
    exact (h v hv).legible
  exact ⟨hread, .list hlegible, _, hread⟩

theorem rereads_object {inner : Reading} (henter : r.enter = .ok inner) (hordered : Ordered ms)
    (h : ∀ m ∈ ms, Form.value.Rereads inner m.2 m.2) : Form.value.Rereads r (.object ms) (.object ms) := by
  have hmembers := ofMembers_memberDocs hordered fun m hm => (h m hm).decode_encode
  have hread : ofDoc r (.record (memberDocs ms)) = .ok (.object ms) := by
    simp [ofDoc, henter, hmembers, bind, Except.bind, pure, Except.pure]
  have hlegible : ∀ m ∈ memberDocs ms, (∃ s, m.1 = .ok s) ∧ m.2.Legible := by
    rw [memberDocs_eq_map]
    rintro _ hmem
    obtain ⟨m, hm, rfl⟩ := List.mem_map.1 hmem
    exact ⟨⟨m.1, rfl⟩, (h m hm).legible⟩
  exact ⟨hread, .record (fun m hm => (hlegible m hm).1) fun m hm => (hlegible m hm).2, _, hread⟩

/-- An exact value that has been read is read back, and is not null unless null has been read. -/
theorem rereads_of_ofDoc (hd : d.IsJson) (hread : ofDoc r d = .ok v) (hv : v.Exact) :
    Form.value.Rereads r v v ∧ (d ≠ .null → v.toDoc ≠ .null) := by
  induction hd generalizing r v with
  | null =>
    cases hread
    exact ⟨⟨rfl, .null, _, rfl⟩, fun h => absurd rfl h⟩
  | bool b =>
    cases hread
    exact ⟨⟨rfl, .bool b, _, rfl⟩, fun _ h => by cases h⟩
  | numeral n =>
    simp only [ofDoc] at hread
    split at hread
    case h_1 i hinteger =>
      cases hread
      obtain ⟨hlow, hhigh⟩ := range_of_integer? hinteger
      exact ⟨rereads_integer hlow hhigh, fun _ h => by cases h⟩
    case h_2 =>
      split at hread
      case h_1 x hdouble =>
        cases hread
        obtain ⟨n', hn'⟩ := Numeral.exists_numeral_of_double? hdouble
        cases hv with
        | double hx => exact ⟨rereads_double hn' hx, by simp [toDoc, doubleDoc, hn']⟩
      case h_2 => cases hread
  | string s =>
    cases s with
    | error f => cases hread
    | ok s =>
      cases hread
      exact ⟨⟨rfl, .text s, _, rfl⟩, fun _ h => by cases h⟩
  | @list items _ ih =>
    obtain ⟨inner, henter, hread⟩ := bind_eq_ok.1 hread
    obtain ⟨vs, hitems, hread⟩ := bind_eq_ok.1 hread
    cases hread
    cases hv with
    | array hvs =>
      refine ⟨rereads_array henter fun v hmem => ?_, fun _ h => by cases h⟩
      obtain ⟨d, hd, hof⟩ := Form.mem_of_decodeItems ((decodeItems_value inner items).trans hitems) hmem
      exact (ih d hd hof (hvs v hmem)).1
  | @record members _ ih =>
    obtain ⟨inner, henter, hread⟩ := bind_eq_ok.1 hread
    obtain ⟨ms, hmembers, hread⟩ := bind_eq_ok.1 hread
    cases hread
    obtain ⟨hordered, hfrom⟩ := ordered_of_ofMembers hmembers
    cases hv with
    | object hms =>
      refine ⟨rereads_object henter hordered fun m hmem => ?_, fun _ h => by cases h⟩
      obtain ⟨n, hn, hof⟩ := hfrom m hmem
      exact (ih n hn hof (hms m hmem)).1
  | gap f => cases hread

end Value

instance : Form.Stable Form.value where
  depth := 0
  rereads _ hd hread ha := (Value.rereads_of_ofDoc hd hread ha).1
  solid hd hread ha hnull := (Value.rereads_of_ofDoc hd hread ha).2 hnull

end Switchboard
