import Switchboard.Library.Search
/-!
The order in which a library is looked for. Directories come one after another and in each of them the two file names,
so a file under the less usual name in an earlier directory is found before one under the usual name in a later one.
-/
namespace Switchboard.Library

/-- A turn in looking for a library: which directory it is, and which file name in it. -/
structure Turn where
  directory : Nat
  name : Nat
  deriving DecidableEq, Repr

/-- A turn comes before another one if its directory does, or if the directory is the same and its file name does. -/
def Turn.Before (a b : Turn) : Prop := a.directory < b.directory ∨ a.directory = b.directory ∧ a.name < b.name

/-- The file that is looked for at a turn, if there are so many directories and file names. -/
def candidate? (directories : List Path) (library : String) (t : Turn) : Option Path := do
  let directory ← directories[t.directory]?
  let name ← (Search.fileNames library)[t.name]?
  return directory.join name

/-- A file is there at its turn, and there is none at any turn before. -/
structure First (directories : List Path) (h : Host) (library : String) (t : Turn) (file : Path) : Prop where
  candidate : candidate? directories library t = some file
  present : h.exists? file = true
  least {other : Turn} {file' : Path} (hbefore : other.Before t)
    (hcandidate : candidate? directories library other = some file') : h.exists? file' = false

/-- A directory has a library if it has a file under one of the two names. -/
def Holds (h : Host) (library : String) (directory : Path) : Prop :=
  ∃ name ∈ Search.fileNames library, h.exists? (directory.join name) = true

variable {directories : List Path} {directory file : Path} {h : Host} {library : String} {t : Turn} {s : Search}

theorem candidate?_eq_some_iff : candidate? directories library t = some file ↔
    ∃ directory name, directories[t.directory]? = some directory ∧ (Search.fileNames library)[t.name]? = some name ∧
      directory.join name = file := by
  simp [candidate?, Option.bind_eq_some_iff]

namespace Search

/-- The file of a library in one directory. -/
def findIn? (h : Host) (library : String) (directory : Path) : Option Path :=
  ((fileNames library).map directory.join).find? h.exists?

/-- In a directory the first file name under which there is a file counts. -/
theorem findIn?_eq_some_iff : findIn? h library directory = some file ↔
    ∃ (k : Nat) (name : Path), (fileNames library)[k]? = some name ∧ directory.join name = file ∧
      h.exists? file = true ∧
      ∀ (k' : Nat) (name' : Path), k' < k → (fileNames library)[k']? = some name' →
        h.exists? (directory.join name') = false := by
  rw [findIn?, List.find?_eq_some_iff_getElem]
  constructor
  · rintro ⟨hpresent, k, hk, rfl, hleast⟩
    have hlength : k < (fileNames library).length := by simpa using hk
    have hname := List.getElem?_eq_getElem hlength
    refine ⟨k, (fileNames library)[k], hname, by simp, hpresent, fun k' name' hlt hname => ?_⟩
    obtain ⟨hk', rfl⟩ := List.getElem?_eq_some_iff.1 hname
    simpa using hleast k' hlt
  · rintro ⟨k, name, hname, rfl, hpresent, hleast⟩
    obtain ⟨hk, rfl⟩ := List.getElem?_eq_some_iff.1 hname
    refine ⟨hpresent, k, by simpa using hk, by simp, fun k' hlt => ?_⟩
    have hk' : k' < (fileNames library).length := by omega
    simpa using hleast k' _ hlt (List.getElem?_eq_getElem hk')

theorem findIn?_eq_none_iff : findIn? h library directory = none ↔ ¬Holds h library directory := by
  simp [findIn?, Holds]

/-- A library is looked for in one directory after another. -/
theorem find?_eq_findSome? (hrelative : (Path.ofText library).isAbsolute = false) :
    s.find? h library = s.directories.findSome? (findIn? h library) := by
  rw [find?, hrelative, if_neg Bool.false_ne_true, candidates, List.find?_flatMap]
  rfl

/-- A library is found in the first directory that has it. -/
theorem find?_eq_some_iff_append (hrelative : (Path.ofText library).isAbsolute = false) :
    s.find? h library = some file ↔ ∃ before directory after, s.directories = before ++ directory :: after ∧
      findIn? h library directory = some file ∧ ∀ d ∈ before, ¬Holds h library d := by
  simp only [find?_eq_findSome? hrelative, List.findSome?_eq_some_iff, findIn?_eq_none_iff]

/-- What is found is the first file that there is, by the order of the directories first and of the file names
second. -/
theorem find?_eq_some_iff (hrelative : (Path.ofText library).isAbsolute = false) :
    s.find? h library = some file ↔ ∃ t, First s.directories h library t file := by
  rw [find?_eq_some_iff_append hrelative]
  constructor
  · rintro ⟨before, directory, after, hsplit, hfound, hnone⟩
    obtain ⟨k, name, hname, rfl, hpresent, hleast⟩ := findIn?_eq_some_iff.1 hfound
    have hdirectory : s.directories[before.length]? = some directory := by simp [hsplit]
    refine ⟨⟨before.length, k⟩, candidate?_eq_some_iff.2 ⟨directory, name, hdirectory, hname, rfl⟩, hpresent, ?_⟩
    rintro ⟨i, k'⟩ file' hbefore hcandidate
    obtain ⟨d, name', hd, hname', rfl⟩ := candidate?_eq_some_iff.1 hcandidate
    rcases hbefore with hlt | ⟨heq, hlt⟩
    · -- an earlier directory has no file under either name
      have hmem : d ∈ before := by
        rw [hsplit, List.getElem?_append_left hlt] at hd
        exact List.mem_of_getElem? hd
      refine Bool.eq_false_iff.2 fun hthere => hnone d hmem ⟨name', List.mem_of_getElem? hname', hthere⟩
    · obtain rfl : d = directory := by
        have hsame : i = before.length := heq
        rw [hsame, hdirectory] at hd
        exact (Option.some.inj hd).symm
      exact hleast k' name' hlt hname'
  · rintro ⟨⟨i, k⟩, hcandidate, hpresent, hleast⟩
    obtain ⟨directory, name, hdirectory, hname, rfl⟩ := candidate?_eq_some_iff.1 hcandidate
    obtain ⟨hi, rfl⟩ := List.getElem?_eq_some_iff.1 hdirectory
    refine ⟨s.directories.take i, s.directories[i], s.directories.drop (i + 1), by simp, ?_, ?_⟩
    · refine findIn?_eq_some_iff.2 ⟨k, name, hname, rfl, hpresent, fun k' name' hlt hname' => ?_⟩
      have hearlier : Turn.Before ⟨i, k'⟩ ⟨i, k⟩ := .inr ⟨rfl, hlt⟩
      exact hleast hearlier (candidate?_eq_some_iff.2 ⟨_, name', hdirectory, hname', rfl⟩)
    · rintro d hd ⟨name', hname', hthere⟩
      obtain ⟨i', hd⟩ := List.mem_iff_getElem?.1 hd
      obtain ⟨k', hname'⟩ := List.mem_iff_getElem?.1 hname'
      obtain ⟨hlt, hd⟩ : i' < i ∧ s.directories[i']? = some d := by simpa [List.getElem?_take] using hd
      have hearlier : Turn.Before ⟨i', k'⟩ ⟨i, k⟩ := .inl hlt
      have habsent := hleast hearlier (candidate?_eq_some_iff.2 ⟨d, name', hd, hname', rfl⟩)
      rw [hthere] at habsent
      cases habsent

/-- Nothing is found just if no file is there at any turn. -/
theorem find?_eq_none_iff (hrelative : (Path.ofText library).isAbsolute = false) :
    s.find? h library = none ↔ ∀ t file, candidate? s.directories library t = some file → h.exists? file = false := by
  simp only [find?_eq_findSome? hrelative, List.findSome?_eq_none_iff, findIn?_eq_none_iff]
  constructor
  · intro hnone t file hcandidate
    obtain ⟨directory, name, hdirectory, hname, rfl⟩ := candidate?_eq_some_iff.1 hcandidate
    exact Bool.eq_false_iff.2 fun hthere =>
      hnone directory (List.mem_of_getElem? hdirectory) ⟨name, List.mem_of_getElem? hname, hthere⟩
  · rintro hnone directory hdirectory ⟨name, hname, hthere⟩
    obtain ⟨i, hi⟩ := List.mem_iff_getElem?.1 hdirectory
    obtain ⟨k, hk⟩ := List.mem_iff_getElem?.1 hname
    have habsent := hnone ⟨i, k⟩ _ (candidate?_eq_some_iff.2 ⟨_, _, hi, hk, rfl⟩)
    rw [hthere] at habsent
    cases habsent

/-- A library that one of the first directories has is found in one of these. -/
theorem exists_of_holds (hrelative : (Path.ofText library).isAbsolute = false) {front rest : List Path}
    (hdirectories : s.directories = front ++ rest) (hdirectory : directory ∈ front)
    (hholds : Holds h library directory) :
    ∃ d ∈ front, ∃ name ∈ fileNames library, s.find? h library = some (d.join name) := by
  have hsome : (front.findSome? (findIn? h library)).isSome := by
    refine List.findSome?_isSome_iff.2 ⟨directory, hdirectory, ?_⟩
    rw [Option.isSome_iff_ne_none]
    exact fun hnone => findIn?_eq_none_iff.1 hnone hholds
  obtain ⟨file, hfile⟩ := Option.isSome_iff_exists.1 hsome
  obtain ⟨d, hd, hfound⟩ := List.exists_of_findSome?_eq_some hfile
  obtain ⟨k, name, hname, rfl, -⟩ := findIn?_eq_some_iff.1 hfound
  refine ⟨d, hd, name, List.mem_of_getElem? hname, ?_⟩
  rw [find?_eq_findSome? hrelative, hdirectories, List.findSome?_append, hfile, Option.some_or]

end Search

end Switchboard.Library
