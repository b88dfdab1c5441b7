import Mathlib.Data.List.Induction
import Mathlib.Data.List.Find
import Mathlib.Data.List.Infix
import Switchboard.Proofs.Files.Following
import Switchboard.Proofs.Form.Basic
import Switchboard.Proofs.Settings.Source
/-!
Relative and absolute paths of the directory where the search for a project's file starts. Both find the same file if it
is below the working directory, but a relative path does not lead above it: there only the absolute one finds something.
-/
namespace Switchboard

namespace Path

variable {p q above : Path}

/-- What holds of a path without a parent, and of each path of whose parent it holds, holds of every path. -/
@[elab_as_elim]
theorem climb_induction {motive : Path → Prop} (top : ∀ p : Path, p.parent? = none → motive p)
    (up : ∀ p above : Path, p.parent? = some above → motive above → motive p) (p : Path) : motive p := by
  match hparent : p.parent? with
  | none => exact top p hparent
  | some above => exact up p above hparent (climb_induction top up above)
termination_by p.octets.length
decreasing_by exact length_of_parent hparent

/-- All on the way up is a beginning of the path, and as absolute as it is. -/
theorem of_mem_ancestors (h : q ∈ p.ancestors) : q.octets <+: p.octets ∧ q.isAbsolute = p.isAbsolute := by
  induction p using climb_induction with
  | top p hparent =>
    rw [ancestors_of_top hparent] at h
    cases List.mem_singleton.1 h
    exact ⟨List.prefix_rfl, rfl⟩
  | up p above hparent ih =>
    rw [ancestors_of_parent hparent] at h
    obtain rfl | h := List.mem_cons.1 h
    · exact ⟨List.prefix_rfl, rfl⟩
    · obtain ⟨hbegins, habsolute⟩ := ih h
      exact ⟨hbegins.trans (prefix_of_parent hparent), habsolute.trans (isAbsolute_of_parent hparent)⟩

/-- The longest beginning of names that has a property. -/
def longest? (holds : List FileName → Bool) (names : List FileName) : Option (List FileName) :=
  names.inits.reverse.find? holds

theorem longest?_nil (holds : List FileName → Bool) : longest? holds [] = if holds [] then some [] else none := by
  cases h : holds [] <;> simp [longest?, h]

theorem longest?_concat (holds : List FileName → Bool) (names : List FileName) (name : FileName) :
    longest? holds (names ++ [name]) = if holds (names ++ [name]) then some (names ++ [name]) else longest? holds names := by
  rw [longest?, List.inits_append]
  cases h : holds (names ++ [name]) <;> simp [longest?, h]

/-- Names that have the property are the longest beginning of themselves; else the last one is of no use. -/
theorem longest?_step (holds : List FileName → Bool) (names : List FileName) :
    longest? holds names = if holds names then some names else longest? holds names.dropLast := by
  obtain rfl | ⟨front, last, rfl⟩ := List.eq_nil_or_concat names
  · cases h : holds [] <;> simp [longest?_nil, h]
  · simp [longest?_concat]

/-- The first directory on the way up with a property of names is that of the longest beginning that has it. -/
theorem find?_ancestors (holds : List FileName → Bool) (p : Path) :
    (p.ancestors.find? fun a => holds a.names).map names = longest? holds p.names := by
  induction p using climb_induction with
  | top p hparent =>
    rw [ancestors_of_top hparent, longest?_step, names_of_top hparent]
    cases h : holds [] <;> simp [longest?_nil, h, names_of_top hparent]
  | up p above hparent ih =>
    rw [ancestors_of_parent hparent, longest?_step, ← names_of_parent hparent, ← ih]
    cases h : holds p.names <;> simp [h]

/-- The longest beginning of names after others is among the later ones, or it ends before the last of the others. -/
theorem longest?_append (holds : List FileName → Bool) (before after : List FileName) :
    longest? holds (before ++ after) =
      ((longest? (fun names => holds (before ++ names)) after).map (before ++ ·)).or
        (if before = [] then none else longest? holds before.dropLast) := by
  induction after using List.reverseRecOn with
  | nil =>
    rw [List.append_nil, longest?_step, longest?_nil, List.append_nil]
    cases h : holds before
    · by_cases hbefore : before = []
      · subst hbefore
        simp [longest?_nil, h]
      · simp [hbefore]
    · simp
  | append_singleton front last ih =>
    rw [← List.append_assoc, longest?_concat, ih, longest?_concat, List.append_assoc]
    split <;> simp

end Path

namespace SettingsError

/-- An error without the path that it names. -/
def unplaced : SettingsError → SettingsError
  | .notFound _ => .notFound ⟨[]⟩
  | .misspelled _ => .misspelled ⟨[]⟩
  | e => e

end SettingsError

namespace Settings

open Switchboard.Path

variable {h : Host} {l : Loader} {ws : List FileName} {p w file file' : Path}

/-- The same settings have been loaded, or the same is wrong, wherever it is said to be. -/
def Alike (a b : Except SettingsError Settings) : Prop :=
  a.mapError SettingsError.unplaced = b.mapError SettingsError.unplaced

theorem Alike.refl (a : Except SettingsError Settings) : Alike a a := rfl

theorem Alike.bind {a b : Except SettingsError Settings} (hab : Alike a b)
    (f : Settings → Except SettingsError Settings) : Alike (a >>= f) (b >>= f) := by
  unfold Alike at *
  cases a with
  | ok s =>
    cases b with
    | ok t => rw [Except.ok.inj hab]
    | error e => cases hab
  | error e =>
    cases b with
    | ok t => cases hab
    | error e' => exact hab

/-- What is loaded from a file depends on where its path leads. -/
theorem load_alike (hplace : h.locate file = h.locate file') : Alike (Settings.load h file) (Settings.load h file') := by
  have htext : h.readText file = h.readText file' := by
    rw [Host.readText, Host.readText, Host.read, Host.read, hplace]
  unfold Settings.load
  rw [htext]
  cases h.readText file' with
  | error fault => cases fault <;> rfl
  | ok text =>
    dsimp only [Except.mapError, bind, Except.bind]
    cases ofToml? text with
    | none => rfl
    | some s => exact .refl _

/-- Whether there is a project's file in the directory of names. -/
def hasProject (h : Host) (names : List FileName) : Bool :=
  (Place.root.follow h.files (names ++ [projectFile.octets])).isOk

theorem locate_project (hworks : h.WorksIn ws) (hfollow : Host.Followable (p.join projectFile)) :
    h.locate (p.join projectFile) =
      Place.root.follow h.files (Host.origin ws p ++ p.names ++ [projectFile.octets]) :=
  Host.locate_join hworks (by decide) (by decide) (by decide) hfollow

/-- A file in one directory can be followed to if one in another can be, of which the path has all that is in the
first one's path and more. -/
theorem followable_of_shorter {a : Path} (hpart : a.octets ⊆ p.octets) (hshorter : a.octets.length < p.octets.length)
    (hfollow : Host.Followable (p.join projectFile)) : Host.Followable (a.join projectFile) := by
  have hjoin (q : Path) : ∃ between, (∀ b ∈ between, b = slash) ∧ between.length ≤ 1 ∧
      (q.join projectFile).octets = q.octets ++ between ++ projectFile.octets := by
    obtain h | h := octets_join (p := q) (q := projectFile) (by decide)
    · exact ⟨[], by simp, by simp, by simp [h]⟩
    · exact ⟨[slash], by simp, by simp, by simp [h]⟩
  obtain ⟨between, -, -, hp⟩ := hjoin p
  obtain ⟨between', hslash, hlength, ha⟩ := hjoin a
  have hzero := hfollow.noZero
  have hshort := hfollow.short
  rw [hp, List.append_assoc, List.mem_append, not_or] at hzero
  rw [hp, List.append_assoc, List.length_append, List.length_append] at hshort
  have hfront : 0 ∉ a.octets := fun hmem => hzero.1 (hpart hmem)
  have hbetween : 0 ∉ between' := fun hmem => absurd (hslash 0 hmem) (by decide)
  have hfile : 0 ∉ projectFile.octets := by decide
  refine ⟨by simp [ha, hfront, hbetween, hfile], ?_⟩
  rw [ha, List.append_assoc, List.length_append, List.length_append]
  omega

theorem followable_of_beginning {a : Path} (hbegins : a.octets <+: p.octets)
    (hfollow : Host.Followable (p.join projectFile)) : Host.Followable (a.join projectFile) := by
  obtain hlength | hlength := Nat.lt_or_eq_of_le hbegins.length_le
  · exact followable_of_shorter hbegins.subset hlength hfollow
  · have hsame : a = p := congrArg Path.mk (hbegins.eq_of_length hlength)
    exact hsame ▸ hfollow

/-- What a search has found is the project's file in the directory of names, if there are any. -/
def FoundIn (h : Host) : Option Path → Option (List FileName) → Prop :=
  Option.Rel fun file names => h.locate file = Place.root.follow h.files (names ++ [projectFile.octets])

theorem FoundIn.eq_none_iff {found : Option Path} {names : Option (List FileName)} (hfound : FoundIn h found names) :
    found = none ↔ names = none := by
  cases hfound <;> simp

/-- The search for a project's file finds the one in the directory of the longest beginning of names that has one. The
names go on from the working directory if the path is relative. -/
theorem projectFile?_foundIn (hworks : h.WorksIn ws) (hfollow : Host.Followable (p.join projectFile)) :
    FoundIn h (projectFile? h p)
      ((longest? (fun names => hasProject h (Host.origin ws p ++ names)) p.names).map (Host.origin ws p ++ ·)) := by
  have hlocate : ∀ a ∈ p.ancestors, h.locate (a.join projectFile) =
      Place.root.follow h.files (Host.origin ws p ++ a.names ++ [projectFile.octets]) := by
    intro a ha
    obtain ⟨hbegins, habsolute⟩ := of_mem_ancestors ha
    rw [locate_project hworks (followable_of_beginning hbegins hfollow), Host.origin, habsolute, Host.origin]
  have hfind : projectFile? h p = (p.ancestors.find? fun a => hasProject h (Host.origin ws p ++ a.names)).map
      (·.join projectFile) := by
    rw [projectFile?, List.find?_map]
    refine congrArg _ (List.find?_congr fun a ha => ?_)
    rw [Function.comp, Host.exists?, hlocate a ha, hasProject]
  rw [hfind, ← find?_ancestors]
  cases hfound : p.ancestors.find? fun a => hasProject h (Host.origin ws p ++ a.names) with
  | none => exact .none
  | some a => exact .some (hlocate a (List.mem_of_find?_eq_some hfound))

/-- The user's own settings, overridden. -/
def Loader.loadOwn (l : Loader) (h : Host) : Except SettingsError Settings := do
  ((← l.loadGlobal h).override h.textOf?).mapError .invalid

/-- What a start above a directory gives; above the root there are only the user's own settings. -/
def Loader.loadAbove (l : Loader) (h : Host) (w : Path) : Except SettingsError Settings :=
  match w.parent? with
  | some up => l.load h up
  | none => l.loadOwn h

theorem load_of_none (hnone : projectFile? h p = none) : l.load h p = l.loadOwn h := by
  rw [Loader.load, Loader.loadPlain, hnone]
  rfl

theorem load_of_some (hfile : projectFile? h p = some file) : l.load h p = loadOverridden h file := by
  rw [Loader.load, Loader.loadPlain, hfile]
  rfl

/-- Searches that come to the same place give the same. -/
theorem alike_of_foundIn {q : Path} {found : Option (List FileName)} (hp : FoundIn h (projectFile? h p) found)
    (hq : FoundIn h (projectFile? h q) found) : Alike (l.load h p) (l.load h q) := by
  cases hpfile : projectFile? h p <;> cases hqfile : projectFile? h q <;> rw [hpfile] at hp <;> rw [hqfile] at hq
  case none.none =>
    rw [load_of_none hpfile, load_of_none hqfile]
    exact .refl _
  case some.some =>
    rw [load_of_some hpfile, load_of_some hqfile]
    cases hp with
    | some hplace =>
      cases hq with
      | some hplace' => exact (load_alike (hplace.trans hplace'.symm)).bind _
  case none.some => cases hp; cases hq
  case some.none => cases hq; cases hp

/-- How a start below the working directory compares, if its path is relative, with the same one behind the path of the
working directory. -/
structure Compares (h : Host) (l : Loader) (w p : Path) : Prop where
  /-- If a project's file is in a directory of the relative path, both find it. -/
  below : (projectFile? h p).isSome → Alike (l.load h p) (l.load h (w.join p))
  /-- Otherwise the relative path leads to the user's own settings, whatever is above the working directory. -/
  relative : projectFile? h p = none → l.load h p = l.loadOwn h
  /-- The absolute one leads to what is above the working directory. -/
  absolute : projectFile? h p = none → Alike (l.load h (w.join p)) (l.loadAbove h w)
  /-- So they agree only by chance if no project's file is below. -/
  agree : Alike (l.load h p) (l.load h (w.join p)) ↔
    (projectFile? h p).isSome ∨ Alike (l.loadOwn h) (l.loadAbove h w)

section Comparison

variable (hworks : h.WorksIn ws) (hrelative : p.isAbsolute = false)
  (hfollow : Host.Followable (((ofNames ws).join p).join projectFile))
include hworks hrelative hfollow

omit hworks in
theorem followable_relative : Host.Followable (p.join projectFile) := by
  refine followable_of_shorter (p := (ofNames ws).join p) ?_ ?_ hfollow
  · obtain h | h := octets_join (p := ofNames ws) hrelative
    · exact h ▸ List.subset_append_right _ _
    · exact h ▸ List.Subset.trans (List.subset_cons_self slash p.octets) (List.subset_append_right _ _)
  · have hroot : 0 < (ofNames ws).octets.length := by simp [ofNames]
    obtain h | h := octets_join (p := ofNames ws) hrelative
    · rw [h, List.length_append]
      omega
    · rw [h, List.length_append, List.length_cons]
      omega

theorem foundIn_relative :
    FoundIn h (projectFile? h p) ((longest? (fun names => hasProject h (ws ++ names)) p.names).map (ws ++ ·)) := by
  have hfound := projectFile?_foundIn hworks (followable_relative hrelative hfollow)
  simpa [Host.origin, hrelative] using hfound

/-- Behind the path of the working directory the search goes on above it. -/
theorem foundIn_absolute : FoundIn h (projectFile? h ((ofNames ws).join p))
    (((longest? (fun names => hasProject h (ws ++ names)) p.names).map (ws ++ ·)).or
      (if ws = [] then none else longest? (hasProject h) ws.dropLast)) := by
  have hfound := projectFile?_foundIn hworks hfollow
  have habsolute : ((ofNames ws).join p).isAbsolute = true := isAbsolute_join hrelative
  have hnames : ((ofNames ws).join p).names = ws ++ p.names := by
    rw [names_join hrelative, names_ofNames fun name hname =>
      ⟨(hworks.ordinary name hname).isName, (hworks.ordinary name hname).noSlash⟩]
  rw [← longest?_append, ← hnames]
  simpa [Host.origin, habsolute] using hfound

theorem foundIn_above {up : Path} (hup : (ofNames ws).parent? = some up) :
    FoundIn h (projectFile? h up) (longest? (hasProject h) ws.dropLast) := by
  have hbegins : up.octets <+: ((ofNames ws).join p).octets := by
    refine (prefix_of_parent hup).trans ?_
    obtain h | h := octets_join (p := ofNames ws) hrelative <;> exact h ▸ List.prefix_append _ _
  have hfound := projectFile?_foundIn hworks (followable_of_beginning hbegins hfollow)
  have habsolute : up.isAbsolute = true := isAbsolute_of_parent hup
  have hnames : up.names = ws.dropLast := by
    rw [names_of_parent hup, names_ofNames fun name hname =>
      ⟨(hworks.ordinary name hname).isName, (hworks.ordinary name hname).noSlash⟩]
  rw [← hnames]
  simpa [Host.origin, habsolute] using hfound

/-- A start above the working directory finds what the absolute path finds there. -/
theorem alike_above (hnone : projectFile? h p = none) (l : Loader) :
    Alike (l.load h ((ofNames ws).join p)) (l.loadAbove h (ofNames ws)) := by
  have hrel := foundIn_relative hworks hrelative hfollow
  have habs := foundIn_absolute hworks hrelative hfollow
  rw [hrel.eq_none_iff.1 hnone, Option.none_or] at habs
  unfold Loader.loadAbove
  split
  case h_1 up hup =>
    have hne : ws ≠ [] := by
      rintro rfl
      have htop : (ofNames []).parent? = none := by decide
      cases htop.symm.trans hup
    rw [if_neg hne] at habs
    exact alike_of_foundIn habs (foundIn_above hworks hrelative hfollow hup)
  case h_2 htop =>
    have hempty : ws = [] := by
      have hnames := names_of_top htop
      rwa [names_ofNames fun name hname =>
        ⟨(hworks.ordinary name hname).isName, (hworks.ordinary name hname).noSlash⟩] at hnames
    rw [if_pos hempty] at habs
    rw [load_of_none (habs.eq_none_iff.2 rfl)]
    exact .refl _

end Comparison

/-- A relative start and an absolute one agree if there is a project's file in the working directory or below it, on the
way. Above the working directory the relative one finds nothing. -/
theorem load_relative (hworks : h.WorksIn ws) (hrelative : p.isAbsolute = false)
    (hfollow : Host.Followable (((ofNames ws).join p).join projectFile)) (l : Loader) :
    Compares h l (ofNames ws) p := by
  have hbelow (hfile : (projectFile? h p).isSome) : Alike (l.load h p) (l.load h ((ofNames ws).join p)) := by
    have hrel := foundIn_relative hworks hrelative hfollow
    have habs := foundIn_absolute hworks hrelative hfollow
    refine alike_of_foundIn hrel ?_
    cases hlongest : (longest? (fun names => hasProject h (ws ++ names)) p.names).map (ws ++ ·) with
    | none => simp [hrel.eq_none_iff.2 hlongest] at hfile
    | some names =>
      rw [hlongest] at habs
      exact habs
  have habove (hnone : projectFile? h p = none) := alike_above hworks hrelative hfollow hnone l
  constructor
  case below => exact hbelow
  case relative => exact load_of_none
  case absolute => exact habove
  case agree =>
    constructor
    · intro hagree
      cases hfile : projectFile? h p with
      | some file => exact .inl rfl
      | none =>
        rw [load_of_none hfile] at hagree
        exact .inr (hagree.trans (habove hfile))
    · rintro (hfile | hagree)
      · exact hbelow hfile
      · cases hfile : projectFile? h p with
        | some file => exact hbelow (by rw [hfile]; rfl)
        | none =>
          rw [load_of_none hfile]
          exact Eq.trans hagree (habove hfile).symm

/-- A project with a directory in it where a program works. -/
def project : Host where
  files := .directory [(Utf8.encode "project", .directory [
    (Utf8.encode "ever.toml", .file (Utf8.encode "local_storage_path = \"store\"")),
    (Utf8.encode "part", .directory [(Utf8.encode "sub", .directory [])])])]
  workingDirectory := ⟨[Utf8.encode "project", Utf8.encode "part"], 0⟩
  environment := []

/-- Whoever starts in the subdirectory comes to the same place either way, but finds the project only by the path of the
working directory. -/
theorem load_relative_project :
    Compares project {} (ofNames [Utf8.encode "project", Utf8.encode "part"]) (.ofText "sub/.") ∧
      projectFile? project (.ofText "sub/.") = none :=
  ⟨load_relative ⟨rfl, by decide, [(Utf8.encode "sub", .directory [])], rfl⟩ (by decide) ⟨by decide, by decide⟩ {},
    by decide +kernel⟩

/-- The working directory by its own path belongs to the project, and by a single dot it does not. -/
theorem not_alike_of_dot : project.workingPath? = some (.ofText "/project/part") ∧
    ¬Alike (Loader.load {} project (.ofText "."))
      (Loader.load {} project ((Path.ofText "/project/part").join (.ofText "."))) := by
  have hrelative : Loader.load {} project (.ofText ".") = .ok {} := eq_ok_of_toOption (by decide +kernel)
  have habsolute : Loader.load {} project ((Path.ofText "/project/part").join (.ofText ".")) =
      .ok { localStoragePath := some "store" } := eq_ok_of_toOption (by decide +kernel)
  refine ⟨by decide, fun halike => ?_⟩
  rw [hrelative, habsolute] at halike
  cases halike

end Settings

end Switchboard
