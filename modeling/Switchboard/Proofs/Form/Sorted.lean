import Switchboard.Proofs.Form.Record
/-!
Documents with sorted names. Sorting moves the members of a record and changes nothing else, so that the same members
are found.
-/
namespace Switchboard

namespace Doc

variable {d : Doc} {items : List Doc} {members members' : List (Except Fault String × Doc)}

/-- A member with its document sorted. -/
def sortedMember (m : Except Fault String × Doc) : Except Fault String × Doc := (m.1, m.2.sorted)

theorem perm_insertMember (m : Except Fault String × Doc) (members : List (Except Fault String × Doc)) :
    (insertMember m members).Perm (m :: members) := by
  induction members with
  | nil => exact .refl _
  | cons n members ih =>
    simp only [insertMember]
    split
    case isTrue => exact (ih.cons n).trans (.swap m n members)
    case isFalse => exact .refl _

/-- The members of a sorted record are the record's, each sorted, in some order. -/
theorem perm_sortedMembers (members : List (Except Fault String × Doc)) :
    (sortedMembers members).Perm (members.map sortedMember) := by
  induction members with
  | nil => exact .refl _
  | cons m members ih => exact (perm_insertMember _ _).trans (ih.cons (sortedMember m))

theorem sortedItems_eq_map (items : List Doc) : sortedItems items = items.map sorted := by
  induction items with
  | nil => rfl
  | cons d items ih => simp [sortedItems, ih]

theorem sorted_eq_null_iff : d.sorted = .null ↔ d = .null := by
  cases d <;> simp [sorted]

/-- Members whose names are text and whose documents are legible. -/
def LegibleMembers (members : List (Except Fault String × Doc)) : Prop :=
  ∀ m ∈ members, (∃ s, m.1 = .ok s) ∧ m.2.Legible

theorem legible_members (h : (Doc.record members).Legible) : LegibleMembers members := by
  cases h with
  | record hnames hdocs => exact fun m hm => ⟨hnames m hm, hdocs m hm⟩

theorem legible_items (h : (Doc.list items).Legible) : ∀ d ∈ items, d.Legible := by
  cases h with
  | list h => exact h

theorem LegibleMembers.record (h : LegibleMembers members) : (Doc.record members).Legible :=
  .record (fun m hm => (h m hm).1) fun m hm => (h m hm).2

/-- A sorted document is as legible as it was. -/
theorem Legible.sorted (h : d.Legible) : d.sorted.Legible := by
  induction h with
  | null => exact .null
  | bool b => exact .bool b
  | numeral h => exact .numeral h
  | text s => exact .text s
  | list _ ih =>
    refine .list fun d hd => ?_
    rw [sortedItems_eq_map] at hd
    obtain ⟨n, hn, rfl⟩ := List.mem_map.1 hd
    exact ih n hn
  | @record members hnames _ ih =>
    have hlegible : LegibleMembers (sortedMembers members) := fun m hm => by
      obtain ⟨n, hn, rfl⟩ := List.mem_map.1 ((perm_sortedMembers members).mem_iff.1 hm)
      exact ⟨hnames n hn, ih n hn⟩
    exact hlegible.record

theorem LegibleMembers.sorted (h : LegibleMembers members) (hperm : members'.Perm (members.map sortedMember)) :
    LegibleMembers members' := fun m hm => by
  obtain ⟨n, hn, rfl⟩ := List.mem_map.1 (hperm.mem_iff.1 hm)
  exact ⟨(h n hn).1, (h n hn).2.sorted⟩

/-- Whatever is legible can be passed over. -/
theorem Legible.skip (h : d.Legible) : d.skip = .ok () := by
  induction h with
  | null | bool | numeral | text => rfl
  | @list items h ih =>
    clear h
    change skipItems items = .ok ()
    induction items with
    | nil => rfl
    | cons d items ihs =>
      obtain ⟨hfirst, hrest⟩ := List.forall_mem_cons.1 ih
      simp [skipItems, hfirst, ihs hrest, bind, Except.bind]
  | @record members hnames h ih =>
    clear hnames h
    change skipMembers members = .ok ()
    induction members with
    | nil => rfl
    | cons m members ihs =>
      obtain ⟨hfirst, hrest⟩ := List.forall_mem_cons.1 ih
      simp [skipMembers, hfirst, ihs hrest, bind, Except.bind]

end Doc

section Names

variable {name : String} {r : Reading} {members members' : List (Except Fault String × Doc)}

/-- Whatever is legible passes where unknown names are ignored. -/
theorem Fields.checkNames_of_legible (h : Doc.LegibleMembers members) (names : List String) :
    checkNames false names members = .ok () := by
  induction members with
  | nil => rfl
  | cons m members ih =>
    obtain ⟨label, d⟩ := m
    obtain ⟨⟨⟨s, rfl⟩, hd⟩, hrest⟩ : ((∃ s, label = .ok s) ∧ d.Legible) ∧ Doc.LegibleMembers members :=
      List.forall_mem_cons.1 h
    simp [checkNames, hd.skip, ih hrest, bind, Except.bind]

/-- The same member is found in a sorted record. -/
theorem findMember_sorted (hperm : members'.Perm (members.map Doc.sortedMember)) {found : Option Doc}
    (h : findMember name members = .ok found) : findMember name members' = .ok (found.map Doc.sorted) := by
  have hfilter : (members'.filter fun m => isNamed name m.1).Perm
      ((members.filter fun m => isNamed name m.1).map Doc.sortedMember) := by
    have hmap := hperm.filter fun m => isNamed name m.1
    rwa [List.filter_map] at hmap
  unfold findMember at h ⊢
  split at h
  case h_1 heq =>
    cases h
    rw [heq] at hfilter
    rw [List.perm_nil.1 hfilter]
    rfl
  case h_2 label d heq =>
    cases h
    rw [heq] at hfilter
    rw [List.perm_singleton.1 hfilter]
    rfl
  case h_3 => cases h

end Names

end Switchboard
