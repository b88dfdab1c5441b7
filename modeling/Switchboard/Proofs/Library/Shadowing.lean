import Mathlib.Logic.Function.Basic
import Switchboard.Bench.Workplace
import Switchboard.Exchange.Process
import Switchboard.Proofs.Library.Search
import Switchboard.Proofs.Lookup
/-!
What a search finds, however it has come about. Directories that have been added to a search, or to the one it was
copied from before that, come before the ones it was made with, the last one first; whatever else goes on between files,
variables and other searches does not change its order.
-/
namespace Switchboard.Bench

open Library

/-- Putting a thing under a name changes what is under this name only. -/
theorem Names.find?_put {α : Type} (ns : Names α) {name other : String} {a : α} :
    (ns.put name a).find? other = if other = name then some a else ns.find? other :=
  find?_replaced ns

namespace Workplace

/-- Where a search comes from: what surrounded it when it was made, and the directories that have been added to it since
then, or to the search it was copied from before that, the last one last. -/
structure Origin where
  host : Host
  added : List Path

/-- The directories of a search in their order: those that have been added, the last one first; the one in the variable
for it and the working directory, as they were when it was made; and those of the platform. -/
def Origin.directories (o : Origin) : List Path :=
  o.added.reverse ++ (o.host.pathOf? "EVER_CLIENT_LIB_DIR").toList ++ o.host.workingPath?.toList ++
    Search.platformDirectories

/-- The origins of searches under their names. -/
abbrev Origins := String → Option Origin

/-- The origins after a command that is obeyed on a host. -/
def Origins.after (known : Origins) (host : Host) : Command → Origins
  | .search name => Function.update known name (some ⟨host, []⟩)
  | .cloneSearch search name =>
    match known search with
    | some o => Function.update known name (some o)
    | none => known
  | .addDirectory search path =>
    match known search with
    | some o => Function.update known search (some { o with added := o.added ++ [path] })
    | none => known
  | _ => known

/-- A workplace after commands. -/
def run (w : Workplace) : List Command → Workplace
  | [] => w
  | c :: cs => run (obey c w).2 cs

/-- The origins after commands to a workplace. -/
def origins (w : Workplace) (known : Origins) : List Command → Origins
  | [] => known
  | c :: cs => origins (obey c w).2 (known.after w.host c) cs

/-- The reply to the command to find a library. -/
def finds (w : Workplace) (name library : String) : Reply := (obey (.find name library) w).1

variable {w : Workplace} {known : Origins} {name other library : String} {path : Path} {s : Search} {o : Origin}

/-- The searches of a workplace have these origins. -/
def Stems (w : Workplace) (known : Origins) : Prop :=
  ∀ name, w.searches.find? name = (known name).map fun o => ⟨o.directories⟩

section Named

variable {α : Type} {names : Workplace → Names α} {f : α → WorkplaceM Reply} {a : α}

theorem withNamed_of_found (h : (names w).find? name = some a) : withNamed names name f w = f a w := by
  simp [withNamed, h]

theorem withNamed_of_missing (h : (names w).find? name = none) : withNamed names name f w = (.unknownName name, w) := by
  simp [withNamed, h]

theorem searches_withNamed (hf : ∀ a, (f a w).2.searches = w.searches) :
    (withNamed names name f w).2.searches = w.searches := by
  cases h : (names w).find? name with
  | none => rw [withNamed_of_missing h]
  | some a => rw [withNamed_of_found h, hf]

end Named

theorem Stems.of_same {w' : Workplace} (h : Stems w known) (hsame : w'.searches = w.searches) : Stems w' known := by
  intro name
  rw [hsame, h name]

/-- What a command does to a search is recorded in its origin, and no command does anything else to one. -/
theorem Stems.obey (h : Stems w known) (c : Command) : Stems (obey c w).2 (known.after w.host c) := by
  cases c with
  | search name =>
    intro other
    refine (Names.find?_put w.searches).trans ?_
    simp only [Origins.after, Function.update_apply]
    split
    case isTrue => rfl
    case isFalse => exact h other
  | cloneSearch search name =>
    cases horigin : known search with
    | none =>
      have hmissing : w.searches.find? search = none := by simp [h search, horigin]
      have hstep : Workplace.obey (.cloneSearch search name) w = (.unknownName search, w) :=
        withNamed_of_missing hmissing
      simpa [hstep, Origins.after, horigin] using h
    | some o =>
      have hfound : w.searches.find? search = some ⟨o.directories⟩ := by simp [h search, horigin]
      have hstep : Workplace.obey (.cloneSearch search name) w =
          (.nothing, { w with searches := w.searches.put name ⟨o.directories⟩ }) := withNamed_of_found hfound
      intro other
      simp only [hstep, Names.find?_put, Origins.after, horigin, Function.update_apply]
      split
      case isTrue => rfl
      case isFalse => exact h other
  | addDirectory search path =>
    cases horigin : known search with
    | none =>
      have hmissing : w.searches.find? search = none := by simp [h search, horigin]
      have hstep : Workplace.obey (.addDirectory search path) w = (.unknownName search, w) :=
        withNamed_of_missing hmissing
      simpa [hstep, Origins.after, horigin] using h
    | some o =>
      have hfound : w.searches.find? search = some ⟨o.directories⟩ := by simp [h search, horigin]
      have hstep : Workplace.obey (.addDirectory search path) w =
          (.nothing, { w with searches := w.searches.put search ⟨path :: o.directories⟩ }) := withNamed_of_found hfound
      intro other
      simp only [hstep, Names.find?_put, Origins.after, horigin, Function.update_apply]
      split
      case isTrue => simp [Origin.directories]
      case isFalse => exact h other
  | loadDirectory => exact h.of_same (searches_withNamed fun _ => rfl)
  | loadFile => exact h.of_same (searches_withNamed fun _ => rfl)
  | directories => exact h.of_same (searches_withNamed fun _ => rfl)
  | find => exact h.of_same (searches_withNamed fun _ => rfl)
  | openLibrary search library =>
    refine h.of_same (searches_withNamed fun s => ?_)
    simp only [stateM_bind, stateM_get]
    cases s.find w.host library <;> rfl
  | _ => exact h

/-- The searches of a workplace have the origins that the commands to it have given them. -/
theorem Stems.run (h : Stems w known) (cs : List Command) : Stems (w.run cs) (origins w known cs) := by
  induction cs generalizing w known with
  | nil => exact h
  | cons c cs ih => exact ih (h.obey c)

theorem finds_of_found (h : w.searches.find? name = some s) :
    finds w name library = .path (s.find? w.host library) := by
  have hfound : (Workplace.searches w).find? name = some s := h
  simp [finds, Workplace.obey, withSearch, withNamed, hfound]

theorem finds_of_missing (h : w.searches.find? name = none) : finds w name library = .unknownName name := by
  simp [finds, Workplace.obey, withSearch, withNamed, h]

/-- What is found depends on the search and on the host only. -/
theorem finds_congr {w' : Workplace} (hhost : w'.host = w.host)
    (hsearch : w'.searches.find? name = w.searches.find? name) : finds w' name library = finds w name library := by
  cases h : w.searches.find? name with
  | none => rw [finds_of_missing h, finds_of_missing (hsearch.trans h)]
  | some s => rw [finds_of_found h, finds_of_found (hsearch.trans h), hhost]

/-- Adding a directory to a search touches neither the host nor any other search. -/
theorem addDirectory_other (path : Path) (hother : other ≠ name) : (obey (.addDirectory other path) w).2.host = w.host ∧
    (obey (.addDirectory other path) w).2.searches.find? name = w.searches.find? name := by
  cases h : w.searches.find? other with
  | none =>
    have hstep : obey (.addDirectory other path) w = (.unknownName other, w) := withNamed_of_missing h
    simp [hstep]
  | some s =>
    have hstep : obey (.addDirectory other path) w =
        (.nothing, { w with searches := w.searches.put other (s.add path) }) := withNamed_of_found h
    simp [hstep, Names.find?_put, hother.symm]

/-- Adding directories to other searches changes nothing for a search. -/
theorem finds_addDirectories {additions : List (String × Path)} (hothers : ∀ a ∈ additions, a.1 ≠ name) :
    finds (w.run (additions.map fun a => .addDirectory a.1 a.2)) name library = finds w name library := by
  induction additions generalizing w with
  | nil => rfl
  | cons a additions ih =>
    obtain ⟨hhost, hsearch⟩ := addDirectory_other (w := w) a.2 (hothers a (by simp))
    calc finds (w.run ((a :: additions).map fun a => .addDirectory a.1 a.2)) name library
        = finds (obey (.addDirectory a.1 a.2) w).2 name library := ih fun b hb => hothers b (by simp [hb])
      _ = finds w name library := finds_congr hhost hsearch

/-- In a workplace that has had any commands, a search finds the first file that there is, by the order of its
directories and, in one directory, of the two file names; it finds none just if there is none. So a directory wins over
all that have been added before it, whichever of the two names the file in it has. Directories that are added to other
searches, copies or not, change nothing. -/
theorem finds_first_shadowing (cs : List Command) (hbare : w.searches = [])
    (horigin : origins w (fun _ => none) cs name = some o) (hrelative : (Path.ofText library).isAbsolute = false) :
    (∀ file, finds (w.run cs) name library = .path (some file) ↔
        ∃ t, First o.directories (w.run cs).host library t file) ∧
      (finds (w.run cs) name library = .path none ↔
        ∀ t file, candidate? o.directories library t = some file → (w.run cs).host.exists? file = false) ∧
      (∀ i late, o.added[i]? = some late → Holds (w.run cs).host library late →
        ∃ d ∈ o.added.drop i, ∃ fileName ∈ Search.fileNames library,
          finds (w.run cs) name library = .path (some (d.join fileName))) ∧
      ∀ additions : List (String × Path), (∀ a ∈ additions, a.1 ≠ name) →
        finds ((w.run cs).run (additions.map fun a => .addDirectory a.1 a.2)) name library =
          finds (w.run cs) name library := by
  have hstems : Stems (w.run cs) (origins w (fun _ => none) cs) :=
    Stems.run (fun name => by rw [hbare]; rfl) cs
  have hfound : (w.run cs).searches.find? name = some ⟨o.directories⟩ := by rw [hstems name, horigin]; rfl
  have hfinds : finds (w.run cs) name library = .path (Search.find? ⟨o.directories⟩ (w.run cs).host library) :=
    finds_of_found hfound
  refine ⟨fun file => ?_, ?_, fun i late hlate hholds => ?_, fun additions hothers => finds_addDirectories hothers⟩
  · rw [hfinds, Reply.path.injEq]
    exact Search.find?_eq_some_iff hrelative
  · rw [hfinds, Reply.path.injEq]
    exact Search.find?_eq_none_iff hrelative
  · have hsplit : o.directories = (o.added.drop i).reverse ++ ((o.added.take i).reverse ++
        ((o.host.pathOf? "EVER_CLIENT_LIB_DIR").toList ++ (o.host.workingPath?.toList ++
          Search.platformDirectories))) := by
      rw [Origin.directories, ← List.append_assoc (o.added.drop i).reverse, ← List.reverse_append,
        List.take_append_drop]
      simp
    have hmem : late ∈ (o.added.drop i).reverse := by
      rw [List.mem_reverse]
      exact List.mem_of_getElem? (i := 0) (by simpa using hlate)
    obtain ⟨d, hd, fileName, hname, hfile⟩ := Search.exists_of_holds (s := ⟨o.directories⟩) hrelative hsplit hmem hholds
    exact ⟨d, List.mem_reverse.1 hd, fileName, hname, by rw [hfinds, hfile]⟩

/-- Two directories are added to a search, which is copied in between. The one that is added first has the library under
its usual name, the other one under the other name. -/
def twoDirectories : List Command :=
  [.write (.ofText "old/libengine.so") [], .write (.ofText "new/engine.so") [], .search "search",
    .addDirectory "search" (.ofText "old"), .cloneSearch "search" "copy", .addDirectory "search" (.ofText "new")]

/-- The search finds the file in the directory that has been added last, and finds it still when its copy gets more
directories. -/
theorem finds_first_shadowing_copied :
    finds ((start (.ofText "/work")).run twoDirectories) "search" "engine" = .path (some (.ofText "new/engine.so")) ∧
      finds (((start (.ofText "/work")).run twoDirectories).run [.addDirectory "copy" (.ofText "old")]) "search"
        "engine" = .path (some (.ofText "new/engine.so")) := by
  have horigin : ∃ h : Host, origins (start (.ofText "/work")) (fun _ => none) twoDirectories "search" =
      some ⟨h, [.ofText "old", .ofText "new"]⟩ := ⟨_, rfl⟩
  obtain ⟨h, horigin⟩ := horigin
  have hstart : (start (.ofText "/work")).searches = [] := rfl
  have hrelative : (Path.ofText "engine").isAbsolute = false := by decide +kernel
  obtain ⟨hfound, -, -, hothers⟩ := finds_first_shadowing twoDirectories hstart horigin hrelative
  have hfirst : First (Origin.directories ⟨h, [.ofText "old", .ofText "new"]⟩)
      ((start (.ofText "/work")).run twoDirectories).host "engine" ⟨0, 1⟩ (.ofText "new/engine.so") := by
    refine ⟨by rfl, by decide +kernel, ?_⟩
    rintro ⟨i, k⟩ file hbefore hcandidate
    obtain ⟨rfl, rfl⟩ : i = 0 ∧ k = 0 := by
      simp only [Turn.Before] at hbefore
      omega
    cases hcandidate
    decide +kernel
  have hnew := (hfound _).2 ⟨_, hfirst⟩
  exact ⟨hnew, (hothers [("copy", .ofText "old")] (by decide)).trans hnew⟩

end Workplace

end Switchboard.Bench
