import Switchboard.Files.Host
import Switchboard.Proofs.Files.Names
/-!
Where a path leads depends on its names alone. A relative path leads to the same place as the names of the working
directory followed by its own.
-/
namespace Switchboard

/-- A name that a file or a directory can have. -/
structure FileName.IsOrdinary (name : FileName) : Prop where
  isName : name.IsName
  notUp : name ≠ [dot, dot]
  short : name.length ≤ FileName.limit
  noSlash : slash ∉ name
  noZero : 0 ∉ name

instance : DecidablePred FileName.IsOrdinary := fun name =>
  decidable_of_iff (name.IsName ∧ name ≠ [dot, dot] ∧ name.length ≤ FileName.limit ∧ slash ∉ name ∧ 0 ∉ name)
    ⟨fun ⟨hname, hup, hshort, hslash, hzero⟩ => ⟨hname, hup, hshort, hslash, hzero⟩,
      fun ⟨hname, hup, hshort, hslash, hzero⟩ => ⟨hname, hup, hshort, hslash, hzero⟩⟩

namespace FileTree

/-- What names lead to is what the later ones lead to from there. -/
theorem at?_append (xs ys : List FileName) (t : FileTree) : t.at? (xs ++ ys) = (t.at? xs).bind (at? ys) := by
  induction xs generalizing t with
  | nil => rfl
  | cons name rest ih =>
    rw [List.cons_append, at?, at?]
    cases t.entry? name with
    | none => rfl
    | some inner => exact ih inner

/-- On the way to anything there are directories. -/
theorem exists_directory_of_at? {name : FileName} {rest : List FileName} {t : FileTree}
    (h : (t.at? (name :: rest)).isSome) : ∃ entries, t = .directory entries := by
  cases t with
  | file content => simp [at?, entry?] at h
  | directory entries => exact ⟨entries, rfl⟩

end FileTree

namespace Place

variable {files : FileTree} {place : Place} {segments : List FileName} {name : FileName}

theorem next_of_not_isName {segment : FileName} (h : ¬segment.IsName) : place.next segment = .ok place := by
  unfold next
  rw [if_pos]
  rwa [FileName.IsName, not_and_or, not_not, not_not] at h

theorem next_of_isOrdinary {names : List FileName} (h : name.IsOrdinary) :
    next ⟨names, 0⟩ name = .ok ⟨names ++ [name], 0⟩ := by
  obtain ⟨⟨hne, hdot⟩, hup, hshort, -, -⟩ := h
  simp [next, child, hne, hdot, hup, Nat.not_lt.2 hshort]

/-- Only the names on a way to a name count. -/
theorem follow_namesOf (segments : List FileName) (place : Place) :
    place.follow files (segments ++ [name]) = place.follow files (namesOf segments ++ [name]) := by
  induction segments generalizing place with
  | nil => rfl
  | cons segment rest ih =>
    by_cases hname : segment.IsName
    · have hkept : namesOf (segment :: rest) = segment :: namesOf rest := by simp [namesOf, hname]
      rw [hkept, List.cons_append, List.cons_append, follow, follow]
      split
      case h_1 | h_2 => rfl
      case h_3 =>
        cases place.next segment with
        | error fault => rfl
        | ok next => exact ih next
    · have hleft : namesOf (segment :: rest) = namesOf rest := by simp [namesOf, hname]
      rw [hleft, ← ih place, List.cons_append, follow, next_of_not_isName hname]
      -- whatever stands there, it is looked at again for what follows
      have hagain : ∃ first others, rest ++ [name] = first :: others := by
        cases rest <;> exact ⟨_, _, rfl⟩
      obtain ⟨first, others, hrest⟩ := hagain
      rw [hrest]
      cases hthere : place.at? files with
      | none => simp [follow, hthere]
      | some tree =>
        cases tree with
        | file content => simp [follow, hthere]
        | directory entries => rfl

/-- Names that lead to a directory are followed to it, and the rest of the way from there. -/
theorem follow_append {before after : List FileName} (hnames : ∀ name ∈ after, name.IsOrdinary)
    (hthere : ∃ entries, files.at? (before ++ after) = some (.directory entries)) (segments : List FileName) :
    follow files ⟨before, 0⟩ (after ++ segments) = follow files ⟨before ++ after, 0⟩ segments := by
  induction after generalizing before with
  | nil => rw [List.nil_append, List.append_nil]
  | cons name rest ih =>
    obtain ⟨hname, hrest⟩ := List.forall_mem_cons.1 hnames
    have hbefore : ∃ entries, files.at? before = some (.directory entries) := by
      obtain ⟨entries, hentries⟩ := hthere
      rw [FileTree.at?_append] at hentries
      obtain ⟨t, ht, hmore⟩ := Option.bind_eq_some_iff.1 hentries
      obtain ⟨entries', rfl⟩ := FileTree.exists_directory_of_at? (Option.isSome_of_eq_some hmore)
      exact ⟨entries', ht⟩
    obtain ⟨entries, hentries⟩ := hbefore
    have hstep : ∃ entries, files.at? ((before ++ [name]) ++ rest) = some (.directory entries) := by
      simpa using hthere
    have hmore := ih hrest hstep
    rw [List.append_assoc, List.singleton_append] at hmore
    rw [List.cons_append, follow, ← hmore]
    simp only [at?, hentries, next_of_isOrdinary hname]
    rfl

end Place

namespace Host

variable {h : Host} {ws : List FileName} {p q : Path}

/-- The program works in a directory that is there. -/
structure WorksIn (h : Host) (ws : List FileName) : Prop where
  place : h.workingDirectory = ⟨ws, 0⟩
  ordinary : ∀ name ∈ ws, name.IsOrdinary
  there : ∃ entries, h.files.at? ws = some (.directory entries)

/-- The names of the directory from which a path is followed. -/
def origin (ws : List FileName) (p : Path) : List FileName := if p.isAbsolute then [] else ws

/-- A path can be followed: it has no zero octet in it and is not too long. -/
structure Followable (p : Path) : Prop where
  noZero : 0 ∉ p.octets
  short : p.octets.length ≤ Path.limit

/-- A file in a directory is where the names lead to it from the root. -/
theorem locate_join (hworks : h.WorksIn ws) (hq : q.segments = [q.octets]) (hrelative : q.isAbsolute = false)
    (hne : q.octets ≠ []) (hfollow : Followable (p.join q)) :
    h.locate (p.join q) = Place.root.follow h.files (origin ws p ++ p.names ++ [q.octets]) := by
  obtain ⟨front, hsegments, hnames⟩ := Path.segments_join (p := p) hrelative
  have hfilled : (p.join q).octets ≠ [] := by
    intro hempty
    have hlast : [[]] = front ++ [q.octets] := by
      rw [← hq, ← hsegments, Path.segments, hempty]
      rfl
    exact hne (by simpa using (congrArg List.getLast? hlast).symm)
  have hstart : h.start (p.join q) = .ok (if p.isAbsolute then Place.root else ⟨ws, 0⟩) := by
    rw [start, if_neg (by simpa using hfollow.noZero), if_neg (by simpa using hfilled),
      if_neg (Nat.not_lt.2 hfollow.short), Path.isAbsolute_join hrelative, hworks.place]
    split <;> rfl
  rw [locate, hstart, hsegments, hq]
  show Place.follow h.files _ _ = _
  rw [Place.follow_namesOf, hnames, origin]
  split
  case isTrue => rfl
  case isFalse =>
    have hthere : ∃ entries, h.files.at? ([] ++ ws) = some (.directory entries) := hworks.there
    rw [List.append_assoc]
    exact (Place.follow_append hworks.ordinary hthere _).symm

end Host

end Switchboard
