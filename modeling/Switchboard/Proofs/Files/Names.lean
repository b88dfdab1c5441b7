import Switchboard.Files.Path
import Mathlib.Data.List.TakeWhile
/-!
The names in a path, without what is left out between separators and without single dots. The parent of a path has all
of its names but the last one, so that the way up takes one name after another away.
-/
namespace Switchboard

namespace Text

variable {α : Type} [DecidableEq α] {s : α} {xs ys : List α}

theorem splitOn_ne_nil (s : α) (xs : List α) : splitOn s xs ≠ [] := by
  unfold splitOn
  split
  · exact List.cons_ne_nil _ _
  · split
    · exact List.cons_ne_nil _ _
    · split <;> exact List.cons_ne_nil _ _

/-- What stands before a separator and what stands behind it are split apart. -/
theorem splitOn_append (xs ys : List α) : splitOn s (xs ++ s :: ys) = splitOn s xs ++ splitOn s ys := by
  induction xs with
  | nil => simp [splitOn]
  | cons x rest ih =>
    rw [List.cons_append, splitOn, splitOn, ih]
    split
    · rfl
    · cases h : splitOn s rest with
      | nil => exact absurd h (splitOn_ne_nil s rest)
      | cons part parts => rfl

theorem splitOn_of_not_mem (h : s ∉ xs) : splitOn s xs = [xs] := by
  induction xs with
  | nil => rfl
  | cons x rest ih =>
    have hx : x ≠ s := fun hsame => h (hsame ▸ List.mem_cons_self)
    rw [splitOn, if_neg hx, ih fun hs => h (List.mem_cons_of_mem x hs)]

/-- No part has a separator in it. -/
theorem not_mem_of_mem_splitOn {part : List α} (h : part ∈ splitOn s xs) : s ∉ part := by
  induction xs generalizing part with
  | nil =>
    obtain rfl := List.mem_singleton.1 h
    exact List.not_mem_nil
  | cons x rest ih =>
    unfold splitOn at h
    split at h
    case isTrue =>
      rcases List.mem_cons.1 h with rfl | h
      · exact List.not_mem_nil
      · exact ih h
    case isFalse hx =>
      cases hrest : splitOn s rest with
      | nil => exact absurd hrest (splitOn_ne_nil s rest)
      | cons first others =>
        rw [hrest] at h ih
        rcases List.mem_cons.1 h with rfl | h
        · have hfirst := ih List.mem_cons_self
          simpa [hfirst] using Ne.symm hx
        · exact ih (List.mem_cons_of_mem first h)

/-- The parts are what they have been split from, with the separators between them. -/
theorem intercalate_splitOn (s : α) (xs : List α) : [s].intercalate (splitOn s xs) = xs := by
  induction xs with
  | nil => rfl
  | cons x rest ih =>
    unfold splitOn
    split
    case isTrue hx =>
      cases hrest : splitOn s rest with
      | nil => exact absurd hrest (splitOn_ne_nil s rest)
      | cons first others =>
        rw [hrest] at ih
        rw [List.intercalate_cons_cons, ih, hx]
        rfl
    case isFalse =>
      cases hrest : splitOn s rest with
      | nil => exact absurd hrest (splitOn_ne_nil s rest)
      | cons first others =>
        rw [hrest] at ih
        rw [← ih]
        cases others <;> rfl

/-- What is put together with separators between is split into the same parts. -/
theorem splitOn_intercalate {parts : List (List α)} (hne : parts ≠ []) (h : ∀ part ∈ parts, s ∉ part) :
    splitOn s ([s].intercalate parts) = parts := by
  induction parts with
  | nil => exact absurd rfl hne
  | cons part rest ih =>
    obtain ⟨hpart, hrest⟩ := List.forall_mem_cons.1 h
    cases rest with
    | nil => simpa using splitOn_of_not_mem hpart
    | cons next rest =>
      have hmore := ih (List.cons_ne_nil _ _) hrest
      rw [List.intercalate_cons_cons, List.append_assoc, List.singleton_append, splitOn_append,
        splitOn_of_not_mem hpart, hmore]
      rfl

end Text

open Text

/-- A segment that is a name: something is written, and it is not a single dot. -/
def FileName.IsName (segment : FileName) : Prop := segment ≠ [] ∧ segment ≠ [dot]

instance : DecidablePred FileName.IsName := fun segment =>
  inferInstanceAs (Decidable (segment ≠ [] ∧ segment ≠ [dot]))

/-- The names among segments. -/
def namesOf (segments : List FileName) : List FileName := segments.filter (FileName.IsName ·)

@[simp] theorem namesOf_append (xs ys : List FileName) : namesOf (xs ++ ys) = namesOf xs ++ namesOf ys :=
  List.filter_append ..

theorem namesOf_singleton (segment : FileName) : namesOf [segment] = if segment.IsName then [segment] else [] := by
  split <;> simp [namesOf, *]

theorem namesOf_names {xs : List FileName} (h : ∀ x ∈ xs, x.IsName) : namesOf xs = xs := by
  simpa [namesOf] using h

namespace Path

variable {p q above : Path}

/-- The names in a path. -/
def names (p : Path) : List FileName := namesOf p.segments

/-- Behind a path without a separator at its end another one starts with new segments. -/
theorem names_append_slash (xs ys : Bytes) : names ⟨xs ++ slash :: ys⟩ = names ⟨xs⟩ ++ names ⟨ys⟩ := by
  rw [names, segments, splitOn_append, namesOf_append]
  rfl

theorem names_nil : names ⟨[]⟩ = [] := rfl

/-- What has no separator in it is one name or none. -/
theorem names_of_not_mem {xs : Bytes} (h : slash ∉ xs) : names ⟨xs⟩ = namesOf [xs] := by
  rw [names, segments, splitOn_of_not_mem h]

/-- Separators and single dots at the end add no name. -/
theorem names_dropSlack (bs : Backward) : names (ofBackward bs.dropSlack) = names (ofBackward bs) := by
  fun_induction Backward.dropSlack bs
  case case1 | case2 | case4 => rfl
  case case3 b c rest hslack ih =>
    rw [ih]
    obtain rfl | ⟨rfl, rfl⟩ := hslack
    · have hfront := names_append_slash (c :: rest).reverse []
      simpa [ofBackward, names_nil] using hfront.symm
    · have hwith := names_append_slash rest.reverse [dot]
      have hwithout := names_append_slash rest.reverse []
      simp only [ofBackward, List.reverse_cons, List.append_assoc, List.singleton_append, hwith, hwithout]
      rfl

/-- Nothing is left before which a single dot would stand for nothing. -/
theorem dropSlack_ne (bs rest : Backward) : bs.dropSlack ≠ dot :: slash :: rest := by
  fun_induction Backward.dropSlack bs <;> simp_all

/-- Without the last name of a path that ends in one all others are left. -/
theorem names_dropName {bs : Backward} (hne : ∀ rest, bs ≠ slash :: rest) (hdot : ∀ rest, bs ≠ dot :: slash :: rest) :
    names (ofBackward bs.dropName) = (names (ofBackward bs)).dropLast := by
  obtain ⟨last, hlast⟩ : ∃ last, last = bs.takeWhile (· ≠ slash) := ⟨_, rfl⟩
  have hsplit : bs = last ++ bs.dropName := hlast ▸ List.takeWhile_append_dropWhile.symm
  have hfree : slash ∉ last := by
    rw [hlast]
    intro hmem
    simpa using List.mem_takeWhile_imp hmem
  have hone : names ⟨last.reverse⟩ = namesOf [last.reverse] := names_of_not_mem (by simpa using hfree)
  cases hfront : bs.dropName with
  | nil =>
    rw [hfront, List.append_nil] at hsplit
    rw [hsplit, ofBackward, ofBackward, hone, namesOf_singleton]
    split <;> rfl
  | cons c front =>
    have hc : c = slash := by
      have hhead := List.head?_dropWhile_not (· ≠ slash) bs
      rw [Backward.dropName] at hfront
      rw [hfront] at hhead
      simpa using hhead
    subst hc
    rw [hfront] at hsplit
    have hname : FileName.IsName last.reverse := by
      constructor
      · intro hnil
        rw [List.reverse_eq_nil_iff.1 hnil] at hsplit
        exact hne _ hsplit
      · intro hsingle
        rw [List.reverse_eq_iff.1 hsingle] at hsplit
        exact hdot _ hsplit
    have hwhole := names_append_slash front.reverse last.reverse
    have hbefore := names_append_slash front.reverse []
    rw [hone, namesOf_names (by simpa using hname)] at hwhole
    rw [hsplit, ofBackward, ofBackward, List.reverse_append, List.reverse_cons, List.append_assoc,
      List.singleton_append, hwhole, hbefore, names_nil]
    simp

/-- The parent has all names but the last one. -/
theorem names_of_parent (h : p.parent? = some above) : above.names = p.names.dropLast := by
  obtain ⟨up, hup, rfl⟩ := Option.map_eq_some_iff.1 h
  unfold Backward.parent? at hup
  split at hup
  case h_1 => cases hup
  case h_2 b rest hkept =>
    split at hup
    case isTrue => cases hup
    case isFalse hb =>
      cases hup
      have hpath : names (ofBackward (b :: rest)) = p.names := by
        rw [← hkept, names_dropSlack]
        simp [ofBackward, backward]
      rw [names_dropSlack, names_dropName, hpath]
      · rintro _ ⟨⟩
        exact hb rfl
      · intro front hdot
        exact dropSlack_ne p.backward front (hkept.trans hdot)

/-- A path without a parent has no name. -/
theorem names_of_top (h : p.parent? = none) : p.names = [] := by
  have hpath : names (ofBackward p.backward.dropSlack) = p.names := by
    rw [names_dropSlack]
    simp [ofBackward, backward]
  have hnone : p.backward.parent? = none := by simpa [parent?] using h
  unfold Backward.parent? at hnone
  split at hnone
  case h_1 hkept =>
    rw [← hpath, hkept]
    rfl
  case h_2 b rest hkept =>
    split at hnone
    case isTrue hslash =>
      subst hslash
      rw [← hpath, hkept, Backward.eq_nil_of_dropSlack_eq_cons hkept]
      rfl
    case isFalse => cases hnone

theorem dropSlack_suffix (bs : Backward) : bs.dropSlack <:+ bs := by
  fun_induction Backward.dropSlack bs
  case case1 | case2 | case4 => exact List.suffix_rfl
  case case3 b c rest _ ih => exact ih.trans (List.suffix_cons b _)

/-- The parent is a beginning of the path. -/
theorem prefix_of_parent (h : p.parent? = some above) : above.octets <+: p.octets := by
  obtain ⟨up, hup, rfl⟩ := Option.map_eq_some_iff.1 h
  unfold Backward.parent? at hup
  split at hup
  case h_1 => cases hup
  case h_2 b rest hkept =>
    split at hup
    case isTrue => cases hup
    case isFalse =>
      cases hup
      have hname : Backward.dropName (b :: rest) <:+ p.backward :=
        (List.dropWhile_suffix _).trans (hkept ▸ dropSlack_suffix p.backward)
      have hreverse := List.reverse_prefix.2 ((dropSlack_suffix _).trans hname)
      simpa [backward, ofBackward] using hreverse

theorem getLast?_dropSlack (bs : Backward) : bs.dropSlack.getLast? = bs.getLast? := by
  fun_induction Backward.dropSlack bs <;> simp_all

/-- A separator at the front stays there. -/
theorem getLast?_dropName (bs : Backward) : bs.dropName.getLast? = some slash ↔ bs.getLast? = some slash := by
  have hsplit : bs = bs.takeWhile (· ≠ slash) ++ bs.dropName := List.takeWhile_append_dropWhile.symm
  cases hfront : bs.dropName with
  | nil =>
    have hall := List.dropWhile_eq_nil_iff.1 hfront
    simp only [List.getLast?_nil, reduceCtorEq, false_iff]
    intro hlast
    simpa using hall slash (List.mem_of_getLast? hlast)
  | cons c front =>
    rw [hfront] at hsplit
    rw [hsplit]
    simp [List.getLast?_append]

theorem isAbsolute_ofBackward (bs : Backward) : (ofBackward bs).isAbsolute = true ↔ bs.getLast? = some slash := by
  simp [isAbsolute, ofBackward]

/-- The way up never leaves the root, and never comes to it from elsewhere. -/
theorem isAbsolute_of_parent (h : p.parent? = some above) : above.isAbsolute = p.isAbsolute := by
  obtain ⟨up, hup, rfl⟩ := Option.map_eq_some_iff.1 h
  have hpath : p.isAbsolute = true ↔ p.backward.getLast? = some slash := by
    simp [isAbsolute, backward]
  unfold Backward.parent? at hup
  split at hup
  case h_1 => cases hup
  case h_2 b rest hkept =>
    split at hup
    case isTrue => cases hup
    case isFalse =>
      cases hup
      rw [Bool.eq_iff_iff, hpath, isAbsolute_ofBackward, getLast?_dropSlack, getLast?_dropName, ← hkept,
        getLast?_dropSlack]

section Joining

/-- What is joined to a path brings its own names. -/
theorem segments_join (hq : q.isAbsolute = false) :
    ∃ front, (p.join q).segments = front ++ q.segments ∧ namesOf front = p.names := by
  unfold join
  rw [if_neg (by simp [hq])]
  split
  case isTrue hopen =>
    obtain hempty | hslash := hopen
    · have hnil : p.octets = [] := List.isEmpty_iff.1 hempty
      exact ⟨[], by simp [segments, hnil], by simp [names, segments, hnil, splitOn, namesOf, FileName.IsName]⟩
    · obtain ⟨front, hfront⟩ : ∃ front, p.octets = front ++ [slash] := by
        obtain ⟨last, hlast⟩ := List.head?_eq_some_iff.1 hslash
        exact ⟨last.reverse, by simpa [backward] using congrArg List.reverse hlast⟩
      refine ⟨splitOn slash front, ?_, ?_⟩
      · simp [segments, hfront, splitOn_append]
      · have hnames := names_append_slash front []
        rw [names_nil, List.append_nil, ← hfront] at hnames
        exact hnames.symm
  case isFalse => exact ⟨p.segments, by simp [segments, splitOn_append], rfl⟩

theorem octets_join (hq : q.isAbsolute = false) :
    (p.join q).octets = p.octets ++ q.octets ∨ (p.join q).octets = p.octets ++ slash :: q.octets := by
  unfold join
  rw [if_neg (by simp [hq])]
  split
  · exact .inl rfl
  · exact .inr rfl

theorem names_join (hq : q.isAbsolute = false) : (p.join q).names = p.names ++ q.names := by
  obtain ⟨front, hsegments, hnames⟩ := segments_join (p := p) hq
  rw [names, hsegments, namesOf_append, hnames]
  rfl

theorem isAbsolute_join (hq : q.isAbsolute = false) : (p.join q).isAbsolute = p.isAbsolute := by
  unfold join
  rw [if_neg (by simp [hq])]
  obtain ⟨_ | ⟨b, rest⟩⟩ := p
  · simpa [isAbsolute] using hq
  · split <;> rfl

/-- The path of names has just these names. -/
theorem names_ofNames {names : List FileName} (h : ∀ name ∈ names, name.IsName ∧ slash ∉ name) :
    (ofNames names).names = names := by
  have hfront := names_append_slash [] ([slash].intercalate names)
  rw [names_nil, List.nil_append, List.nil_append] at hfront
  rw [ofNames, hfront]
  cases names with
  | nil => rfl
  | cons name rest =>
    rw [Path.names, segments, splitOn_intercalate (List.cons_ne_nil _ _) fun part hpart => (h part hpart).2]
    exact namesOf_names fun part hpart => (h part hpart).1

end Joining

end Path

end Switchboard
