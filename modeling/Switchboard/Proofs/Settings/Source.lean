import Switchboard.Settings.Loader
/-!
Where the settings for a directory come from. The file of a project is looked for in the directory and, one textual
parent after another, above it; the user's own file counts only if no project has one. Whatever is found first is the
only source, also if it cannot be read.
-/
namespace Switchboard

namespace Path

/-- The path without separators and single dots at its end. -/
def trimmed (p : Path) : Path := ofBackward (Backward.dropSlack p.backward)

/-- The empty path or the root, possibly with separators and single dots after it. -/
def IsTop (p : Path) : Prop := p.trimmed.octets = [] ∨ p.trimmed.octets = [slash]

/-- Paths, each of which is the parent of the one before it, up to one that has no parent. -/
inductive Climb : List Path → Prop where
  | top {p : Path} (h : p.parent? = none) : Climb [p]
  | up {p above : Path} {rest : List Path} (h : p.parent? = some above) (hrest : Climb (above :: rest)) :
      Climb (p :: above :: rest)

variable {p above : Path}

theorem ofBackward_backward (p : Path) : ofBackward p.backward = p := by
  simp [ofBackward, backward]

theorem backward_ofBackward (bs : Backward) : (ofBackward bs).backward = bs := by
  simp [ofBackward, backward]

theorem ancestors_of_top (h : p.parent? = none) : p.ancestors = [p] := by
  have hnone : p.backward.parent? = none := by simpa [parent?] using h
  rw [ancestors, Backward.ancestors]
  split
  · simp [ofBackward_backward]
  · rename_i up hup
    rw [hnone] at hup
    cases hup

theorem ancestors_of_parent (h : p.parent? = some above) : p.ancestors = p :: above.ancestors := by
  obtain ⟨up, hup, rfl⟩ := Option.map_eq_some_iff.1 h
  rw [ancestors, Backward.ancestors]
  split
  · rename_i hnone
    rw [hup] at hnone
    cases hnone
  · rename_i up' hup'
    cases hup.symm.trans hup'
    simp [ofBackward_backward, ancestors, backward_ofBackward]

theorem length_of_parent (h : p.parent? = some above) : above.octets.length < p.octets.length := by
  obtain ⟨up, hup, rfl⟩ := Option.map_eq_some_iff.1 h
  simpa [ofBackward, backward] using Backward.length_parent?_lt hup

/-- A path that has no parent is at the top. -/
theorem isTop_of_parent (h : p.parent? = none) : p.IsTop := by
  have hnone : p.backward.parent? = none := by simpa [parent?] using h
  unfold Backward.parent? at hnone
  split at hnone
  case h_1 hkept => exact .inl (by simp [trimmed, hkept, ofBackward])
  case h_2 b rest hkept =>
    split at hnone
    case isTrue hslash =>
      subst hslash
      have hrest := Backward.eq_nil_of_dropSlack_eq_cons hkept
      exact .inr (by simp [trimmed, hkept, hrest, ofBackward])
    case isFalse => cases hnone

/-- From every path the way up is its ancestors, and it comes to an end. -/
theorem climb_ancestors (p : Path) : ∃ rest, p.ancestors = p :: rest ∧ Climb (p :: rest) := by
  match hparent : p.parent? with
  | none => exact ⟨[], ancestors_of_top hparent, .top hparent⟩
  | some above =>
    obtain ⟨rest, hrest, hclimb⟩ := climb_ancestors above
    exact ⟨above :: rest, by rw [ancestors_of_parent hparent, hrest], .up hparent hclimb⟩
termination_by p.octets.length
decreasing_by exact length_of_parent hparent

theorem Climb.isTop {ps : List Path} (h : Climb ps) {q : Path} (hq : q ∈ ps.getLast?) : q.IsTop := by
  induction h with
  | top hparent =>
    cases hq
    exact isTop_of_parent hparent
  | up _ _ ih => exact ih (by simpa using hq)

end Path

namespace Host

variable {h : Host} {p : Path}

/-- The end of a way that could be followed is there. -/
theorem isSome_of_follow {files : FileTree} {start place : Place} {segments : List FileName}
    (hfollow : start.follow files segments = .ok place) : (place.at? files).isSome := by
  induction segments generalizing start with
  | nil =>
    unfold Place.follow at hfollow
    split at hfollow
    case isTrue hthere =>
      cases hfollow
      exact hthere
    case isFalse => cases hfollow
  | cons segment rest ih =>
    unfold Place.follow at hfollow
    split at hfollow
    case h_1 | h_2 => cases hfollow
    case h_3 =>
      cases hnext : start.next segment with
      | error fault =>
        rw [hnext] at hfollow
        cases hfollow
      | ok next =>
        rw [hnext] at hfollow
        exact ih hfollow

/-- A path leads to what is there. -/
theorem isSome_of_locate {place : Place} (hplace : h.locate p = .ok place) : (place.at? h.files).isSome := by
  unfold locate at hplace
  cases hstart : h.start p with
  | error fault =>
    rw [hstart] at hplace
    cases hplace
  | ok start =>
    rw [hstart] at hplace
    exact isSome_of_follow hplace

/-- What exists can be read, or there is another reason why not. -/
theorem readText_ne_notFound (hexists : h.exists? p = true) : h.readText p ≠ .error .notFound := by
  unfold exists? at hexists
  cases hplace : h.locate p with
  | error fault =>
    rw [hplace] at hexists
    cases hexists
  | ok place =>
    obtain ⟨tree, htree⟩ := Option.isSome_iff_exists.1 (isSome_of_locate hplace)
    cases tree with
    | directory entries => simp [readText, read, hplace, htree, bind, Except.bind, throw, throwThe, MonadExceptOf.throw]
    | file content =>
      cases htext : Utf8.text? content <;>
        simp [readText, read, hplace, htree, htext, bind, Except.bind, throw, throwThe, MonadExceptOf.throw, pure,
          Except.pure]

end Host

namespace Settings

variable {h : Host} {l : Loader} {start file : Path}

/-- Where settings come from: the file of a project, the user's own file, or nowhere. -/
inductive Source where
  | project (file : Path)
  | own (file : Path)
  | nowhere
  deriving DecidableEq

namespace Source

/-- The file of a source. -/
def file? : Source → Option Path
  | .project file | .own file => some file
  | .nowhere => none

/-- The settings of a source alone, overridden by the variables of the environment. -/
def load (h : Host) : Source → Except SettingsError Settings
  | .project file | .own file => loadOverridden h file
  | .nowhere => (override h.textOf? {}).mapError .invalid

/-- A source counts on a way up: the file of a project in the first directory that has one; the user's own file if no
directory has one; nothing if the user has none either. -/
inductive Counts (h : Host) (l : Loader) (way : List Path) : Source → Prop where
  | project {before after : List Path} {p : Path} (hway : way = before ++ p :: after)
      (hfirst : ∀ q ∈ before, h.exists? (q.join projectFile) = false)
      (hfile : h.exists? (p.join projectFile) = true) : Counts h l way (.project (p.join projectFile))
  | own {file : Path} (hnone : ∀ q ∈ way, h.exists? (q.join projectFile) = false)
      (hown : l.globalFile? h = some file) (hfile : h.exists? file = true) : Counts h l way (.own file)
  | nowhere (hnone : ∀ q ∈ way, h.exists? (q.join projectFile) = false)
      (hown : ∀ file, l.globalFile? h = some file → h.exists? file = false) : Counts h l way .nowhere

end Source

/-- Of what exists it is never said that it has not been found. -/
theorem load_ne_notFound (hexists : h.exists? file = true) (other : Path) :
    Settings.load h file ≠ .error (.notFound other) := by
  have hread := Host.readText_ne_notFound hexists
  intro hload
  unfold Settings.load at hload
  cases htext : h.readText file with
  | error fault =>
    rw [htext] at hload hread
    cases fault with
    | notFound => exact hread rfl
    | _ => cases hload
  | ok text =>
    rw [htext, show (Except.ok text).mapError (SettingsError.ofReadFault file) = .ok text from rfl] at hload
    simp only [bind, Except.bind] at hload
    cases hsettings : ofToml? text with
    | none =>
      rw [hsettings] at hload
      cases hload
    | some s =>
      rw [hsettings] at hload
      cases hvalid : s.validate <;> simp only [hvalid] at hload <;> cases hload

section Resolution

variable {way : List Path} {source other : Source}

/-- On every way some source counts. -/
theorem Source.exists_counts (h : Host) (l : Loader) (way : List Path) : ∃ source, Source.Counts h l way source := by
  by_cases hproject : ∃ q ∈ way, h.exists? (q.join projectFile) = true
  · obtain ⟨p, before, after, hway, hfile, hfirst⟩ :
        ∃ p before after, way = before ++ p :: after ∧ h.exists? (p.join projectFile) = true ∧
          ∀ q ∈ before, h.exists? (q.join projectFile) = false := by
      obtain ⟨p, hp⟩ := Option.isSome_iff_exists.1 (List.find?_isSome.2 hproject)
      obtain ⟨hfile, before, after, hway, hfirst⟩ := List.find?_eq_some_iff_append.1 hp
      exact ⟨p, before, after, hway, hfile, fun q hq => by simpa using hfirst q hq⟩
    exact ⟨_, .project hway hfirst hfile⟩
  · have hnone : ∀ q ∈ way, h.exists? (q.join projectFile) = false := by simpa using hproject
    match hown : l.globalFile? h with
    | none => exact ⟨.nowhere, .nowhere hnone (by simp [hown])⟩
    | some file =>
      cases hfile : h.exists? file with
      | true => exact ⟨.own file, .own hnone hown hfile⟩
      | false => exact ⟨.nowhere, .nowhere hnone (by simp [hown, hfile])⟩

/-- The file of a project in the first directory that has one is the one that is found. -/
theorem find?_of_first {before after : List Path} {p : Path} (hway : way = before ++ p :: after)
    (hfirst : ∀ q ∈ before, h.exists? (q.join projectFile) = false) (hfile : h.exists? (p.join projectFile) = true) :
    (way.map (·.join projectFile)).find? h.exists? = some (p.join projectFile) := by
  subst hway
  have hbefore : (before.map (·.join projectFile)).find? h.exists? = none := by simpa using hfirst
  rw [List.map_append, List.find?_append, hbefore, List.map_cons, List.find?_cons_of_pos hfile]
  rfl

theorem find?_of_none (hnone : ∀ q ∈ way, h.exists? (q.join projectFile) = false) :
    (way.map (·.join projectFile)).find? h.exists? = none := by
  simpa using hnone

/-- What counts is the only source. -/
theorem Source.Counts.unique (hsource : Source.Counts h l way source) (hother : Source.Counts h l way other) :
    other = source := by
  cases hsource with
  | project hway hfirst hfile =>
    have hfound := find?_of_first hway hfirst hfile
    cases hother with
    | project hway' hfirst' hfile' => rw [Option.some.inj ((find?_of_first hway' hfirst' hfile').symm.trans hfound)]
    | own hnone | nowhere hnone => cases (find?_of_none hnone).symm.trans hfound
  | own hnone hown hfile =>
    cases hother with
    | project hway' hfirst' hfile' => cases (find?_of_none hnone).symm.trans (find?_of_first hway' hfirst' hfile')
    | own _ hown' _ => rw [Option.some.inj (hown'.symm.trans hown)]
    | nowhere _ hown' => cases (hown' _ hown).symm.trans hfile
  | nowhere hnone hown =>
    cases hother with
    | project hway' hfirst' hfile' => cases (find?_of_none hnone).symm.trans (find?_of_first hway' hfirst' hfile')
    | own _ hown' hfile' => cases (hown _ hown').symm.trans hfile'
    | nowhere => rfl

/-- What is loaded for a directory is what the source that counts on the way up says. -/
theorem load_eq (hsource : Source.Counts h l start.ancestors source) : l.load h start = source.load h := by
  cases hsource with
  | project hway hfirst hfile =>
    have hfound : projectFile? h start = some _ := find?_of_first hway hfirst hfile
    simp [Loader.load, Loader.loadPlain, hfound, Source.load, loadOverridden]
  | own hnone hown hfile =>
    have hfound : projectFile? h start = none := find?_of_none hnone
    simp [Loader.load, Loader.loadPlain, Loader.loadGlobal, hfound, hown, hfile, Source.load, loadOverridden]
  | nowhere hnone hown =>
    have hfound : projectFile? h start = none := find?_of_none hnone
    have hplain : l.loadPlain h start = .ok {} := by
      simp only [Loader.loadPlain, Loader.loadGlobal, hfound]
      cases hfile : l.globalFile? h with
      | none => rfl
      | some file => simp [hown file hfile]
    simp [Loader.load, hplain, Source.load, bind, Except.bind]

/-- Overriding never says that a file has not been found. -/
theorem overridden_ne_notFound (loaded : Except SettingsError Settings)
    (hloaded : ∀ other, loaded ≠ .error (.notFound other)) (textOf? : String → Option String) (other : Path) :
    (loaded >>= fun s => (s.override textOf?).mapError .invalid) ≠ .error (.notFound other) := by
  cases loaded with
  | error e => exact hloaded other
  | ok s =>
    intro h
    change (s.override textOf?).mapError SettingsError.invalid = _ at h
    cases hover : s.override textOf? <;> rw [hover] at h <;> cases h

theorem Source.Counts.load_ne_notFound (hsource : Source.Counts h l way source) (other : Path) :
    source.load h ≠ .error (.notFound other) := by
  cases hsource with
  | project _ _ hfile | own _ _ hfile =>
    exact overridden_ne_notFound _ (Settings.load_ne_notFound hfile) h.textOf? other
  | nowhere => exact overridden_ne_notFound (.ok {}) (fun _ h => nomatch h) h.textOf? other

/-- What a source says depends on the text of its file and on the variables alone. -/
theorem Source.load_congr {h' : Host} (henv : h'.textOf? = h.textOf?)
    (htext : ∀ file, source.file? = some file → h'.readText file = h.readText file) :
    source.load h' = source.load h := by
  cases source with
  | project file | own file => simp [Source.load, loadOverridden, Settings.load, htext file rfl, henv]
  | nowhere => simp [Source.load, henv]

end Resolution

/-- The settings for a directory come from one source, which counts on a way up. -/
structure Resolves (h : Host) (l : Loader) (start : Path) (way : List Path) (source : Source) : Prop where
  /-- The way begins where it is asked for. -/
  starts : way.head? = some start
  /-- Each path of the way is the parent of the one before it. -/
  climb : Path.Climb way
  /-- It ends at the root or at the empty path. -/
  ends : ∀ top ∈ way.getLast?, top.IsTop
  counts : Source.Counts h l way source
  only : ∀ other, Source.Counts h l way other → other = source
  /-- What is loaded is what the source says, errors included. -/
  result : l.load h start = source.load h
  /-- Nothing but the source's own text and the variables is in the result. -/
  alone : ∀ h' : Host, h'.textOf? = h.textOf? →
    (∀ file, source.file? = some file → h'.readText file = h.readText file) → source.load h' = l.load h start
  /-- It is never said that a file has not been found. -/
  found : ∀ file, l.load h start ≠ .error (.notFound file)

/-- Wherever one starts, the settings come from exactly one source: the nearest file of a project on the way up, else
the user's own file, else nothing. -/
theorem load_uses_one_source (h : Host) (l : Loader) (start : Path) : ∃ way source, Resolves h l start way source := by
  obtain ⟨rest, hway, hclimb⟩ := start.climb_ancestors
  obtain ⟨source, hsource⟩ := Source.exists_counts h l start.ancestors
  have hresult := load_eq hsource
  refine ⟨start.ancestors, source, ?_⟩
  exact {
    starts := by simp [hway]
    climb := hway ▸ hclimb
    ends := fun top htop => hclimb.isTop (hway ▸ htop)
    counts := hsource
    only := fun other hother => hsource.unique hother
    result := hresult
    alone := fun h' henv htext => (Source.load_congr henv htext).trans hresult.symm
    found := fun file => hresult ▸ hsource.load_ne_notFound file }

end Settings

end Switchboard
