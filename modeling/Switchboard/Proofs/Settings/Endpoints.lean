import Switchboard.Proofs.Files.Names
import Switchboard.Proofs.Lookup
import Switchboard.Proofs.Settings.Overriding
import Switchboard.Proofs.Text.Utf8
/-!
The endpoints in a variable of the environment. A list of endpoints is read from every text that spells it, with any
blank space around the endpoints and with any number of items left out; and whatever is read from a text is read again
from the same endpoints with nothing but commas between them.
-/
namespace Switchboard

theorem Utf8.text?_encode (s : String) : Utf8.text? (Utf8.encode s) = some s := by
  have hchars (cs : List Char) : Utf8.chars? (cs.map .char) = some cs := by
    induction cs with
    | nil => rfl
    | cons c cs ih => simp [Utf8.chars?, ih]
  simp [Utf8.text?, Utf8.pieces_encode, hchars]

namespace Settings

open Text

/-- A text that can be an endpoint between commas: it is not empty, has no comma, and nothing blank at its ends. -/
structure IsEndpoint (e : String) : Prop where
  filled : e.toList ≠ []
  bare : Bare e.toList
  noComma : ',' ∉ e.toList

/-- The texts that spell a list of endpoints. Between the commas stand the endpoints in their order, with any blank
space around each; before, between and behind them there may be any number of items with blank space or nothing. -/
inductive SpellsEndpoints : List Char → List String → Prop where
  | blank {cs : List Char} (h : cs.all isBlank) : SpellsEndpoints cs []
  | last {cs : List Char} {e : String} (h : Padded cs e.toList) : SpellsEndpoints cs [e]
  | skip {cs rest : List Char} {es : List String} (h : cs.all isBlank) (hrest : SpellsEndpoints rest es) :
      SpellsEndpoints (cs ++ ',' :: rest) es
  | next {cs rest : List Char} {e : String} {es : List String} (h : Padded cs e.toList)
      (hrest : SpellsEndpoints rest es) : SpellsEndpoints (cs ++ ',' :: rest) (e :: es)

section Reading

variable {cs xs ys : List Char} {e raw : String} {es : List String}

/-- The endpoints before a comma and those behind it are read apart. -/
theorem endpointsOf_append (xs ys : List Char) : endpointsOf (.ofList (xs ++ ',' :: ys)) =
    endpointsOf (.ofList xs) ++ endpointsOf (.ofList ys) := by
  simp [endpointsOf, splitOn_append]

/-- Without a comma there is one endpoint, or none if all is blank. -/
theorem endpointsOf_of_not_mem (h : ',' ∉ cs) :
    endpointsOf (.ofList cs) = if trimChars cs = [] then [] else [.ofList (trimChars cs)] := by
  simp only [endpointsOf, String.toList_ofList, splitOn_of_not_mem h]
  by_cases hempty : trimChars cs = [] <;> simp [hempty]

theorem not_mem_of_isBlank (h : cs.all isBlank) : ',' ∉ cs := by
  intro hmem
  have hcomma := List.all_eq_true.1 h _ hmem
  revert hcomma
  decide

theorem endpointsOf_of_isBlank (h : cs.all isBlank) : endpointsOf (.ofList cs) = [] := by
  have hpadded : Padded cs [] := ⟨cs, [], by simp, h, rfl⟩
  have htrimmed := hpadded.trimChars_eq ⟨by simp, by simp⟩
  rw [endpointsOf_of_not_mem (not_mem_of_isBlank h), if_pos htrimmed]

theorem endpointsOf_of_padded (h : Padded cs e.toList) (he : IsEndpoint e) : endpointsOf (.ofList cs) = [e] := by
  have htrimmed := h.trimChars_eq he.bare
  have hcomma : ',' ∉ cs := by
    obtain ⟨before, after, rfl, hbefore, hafter⟩ := h
    simp [not_mem_of_isBlank hbefore, not_mem_of_isBlank hafter, he.noComma]
  rw [endpointsOf_of_not_mem hcomma, htrimmed, if_neg he.filled, String.ofList_toList]

/-- Endpoints are read from every text that spells them. -/
theorem endpointsOf_of_spells (h : SpellsEndpoints cs es) (hes : ∀ e ∈ es, IsEndpoint e) :
    endpointsOf (.ofList cs) = es := by
  induction h with
  | blank h => exact endpointsOf_of_isBlank h
  | last h => exact endpointsOf_of_padded h (hes _ (by simp))
  | skip h _ ih => rw [endpointsOf_append, endpointsOf_of_isBlank h, ih hes, List.nil_append]
  | next h _ ih =>
    obtain ⟨he, hrest⟩ := List.forall_mem_cons.1 hes
    rw [endpointsOf_append, endpointsOf_of_padded h he, ih hrest, List.singleton_append]

/-- Whatever is read are endpoints. -/
theorem isEndpoint_of_mem (h : e ∈ endpointsOf raw) : IsEndpoint e := by
  obtain ⟨cs, hcs, rfl⟩ := List.mem_map.1 h
  obtain ⟨htrimmed, hfilled⟩ := List.mem_filter.1 hcs
  obtain ⟨part, hpart, rfl⟩ := List.mem_map.1 htrimmed
  obtain ⟨before, after, hsplit, -, -⟩ := padded_trimChars part
  have hcomma : ',' ∉ trimChars part := fun hmem => by
    have hwithin : ',' ∈ before ++ trimChars part ++ after := by simp [hmem]
    rw [← hsplit] at hwithin
    exact not_mem_of_mem_splitOn hpart hwithin
  exact ⟨by simpa using hfilled, by simpa using bare_trimChars part, by simpa using hcomma⟩

/-- A text without a comma spells what is read from it. -/
theorem spells_of_not_mem (h : ',' ∉ cs) : SpellsEndpoints cs (endpointsOf (.ofList cs)) := by
  rw [endpointsOf_of_not_mem h]
  split
  case isTrue hempty =>
    obtain ⟨before, after, hsplit, hbefore, hafter⟩ := padded_trimChars cs
    rw [hempty] at hsplit
    exact .blank (by rw [hsplit]; simp_all)
  case isFalse => exact .last (by simpa using padded_trimChars cs)

/-- What stands before the first comma goes before what the rest spells. -/
theorem spells_append (h : ',' ∉ xs) (hrest : SpellsEndpoints ys es) :
    SpellsEndpoints (xs ++ ',' :: ys) (endpointsOf (.ofList xs) ++ es) := by
  generalize hfirst : endpointsOf (.ofList xs) = first
  have hspells := spells_of_not_mem h
  rw [hfirst] at hspells
  cases hspells with
  | blank hblank => exact .skip hblank hrest
  | last hpadded => exact .next hpadded hrest
  | skip => simp at h
  | next => simp at h

/-- Every text spells what is read from it. -/
theorem spells_endpointsOf (raw : String) : SpellsEndpoints raw.toList (endpointsOf raw) := by
  suffices hparts : ∀ parts : List (List Char), parts ≠ [] → (∀ part ∈ parts, ',' ∉ part) →
      SpellsEndpoints ([','].intercalate parts) (endpointsOf (.ofList ([','].intercalate parts))) by
    have hraw := hparts (splitOn ',' raw.toList) (splitOn_ne_nil _ _) fun _ => not_mem_of_mem_splitOn
    rwa [intercalate_splitOn, String.ofList_toList] at hraw
  intro parts hne hparts
  induction parts with
  | nil => exact absurd rfl hne
  | cons part rest ih =>
    obtain ⟨hpart, hrest⟩ := List.forall_mem_cons.1 hparts
    cases rest with
    | nil => simpa using spells_of_not_mem hpart
    | cons next rest =>
      rw [List.intercalate_cons_cons, List.append_assoc, List.singleton_append, endpointsOf_append]
      exact spells_append hpart (ih (List.cons_ne_nil _ _) hrest)

/-- Endpoints with a comma between each two are spelled by that. -/
theorem spells_intercalate (es : List String) : SpellsEndpoints (",".intercalate es).toList es := by
  have hself (e : String) : Padded e.toList e.toList := ⟨[], [], by simp, rfl, rfl⟩
  induction es with
  | nil => exact .blank rfl
  | cons e rest ih =>
    cases rest with
    | nil => simpa using .last (hself e)
    | cons next rest =>
      rw [String.toList_intercalate] at ih ⊢
      simpa [List.intercalate_cons_cons] using .next (hself e) ih

end Reading

section Loading

variable {h : Host} {text name : String} {s t : Settings}

/-- A way to load settings: for a directory, with a loader, or from a file. -/
inductive Way where
  | directory (loader : Loader) (start : Path)
  | file (path : Path)

/-- The settings that are loaded in a way, before anything overrides them. -/
def Way.plain (h : Host) : Way → Except SettingsError Settings
  | .directory l start => l.loadPlain h start
  | .file path => Settings.load h path

/-- The settings that are loaded in a way. -/
def Way.load (h : Host) : Way → Except SettingsError Settings
  | .directory l start => l.load h start
  | .file path => loadOverridden h path

variable {way : Way}

theorem Way.load_eq_ok : way.load h = .ok t ↔ ∃ s, way.plain h = .ok s ∧ Overridden h.textOf? s t := by
  cases way with
  | directory => exact Settings.load_eq_ok
  | file => exact loadOverridden_eq_ok

theorem Way.validate_of_plain (hplain : way.plain h = .ok s) : s.validate = .ok () := by
  cases way with
  | directory => exact validate_of_loadPlain hplain
  | file => exact validate_of_load hplain

/-- The host with a text in the variable for the endpoints. -/
def setEndpoints (h : Host) (text : String) : Host := h.setVariable "EVER_ENDPOINTS" (some (Utf8.encode text))

theorem octetsOf?_setEndpoints : (setEndpoints h text).octetsOf? name =
    if name = "EVER_ENDPOINTS" then some (Utf8.encode text) else h.octetsOf? name :=
  find?_replaced h.environment

theorem textOf?_setEndpoints : (setEndpoints h text).textOf? name =
    if name = "EVER_ENDPOINTS" then some text else h.textOf? name := by
  rw [Host.textOf?, octetsOf?_setEndpoints]
  split
  · exact Utf8.text?_encode text
  · rfl

/-- The variable says nothing about which settings are loaded. -/
theorem Way.plain_setEndpoints : way.plain (setEndpoints h text) = way.plain h := by
  cases way with
  | file => rfl
  | directory l start =>
    have hhome : (setEndpoints h text).home? = h.home? := by
      simp only [Host.home?, Host.pathOf?, octetsOf?_setEndpoints]
      rfl
    have hglobal : l.globalFile? (setEndpoints h text) = l.globalFile? h := by
      simp only [Loader.globalFile?, globalDirectory, hhome]
    simp only [Way.plain, Loader.loadPlain, Loader.loadGlobal, hglobal]
    rfl

/-- Whatever the text in the variable, the other variables are right or wrong as they are. -/
theorem not_misread_setEndpoints (hnumbers : ∀ v, ¬Misread h.textOf? v) (v : InvalidValue) :
    ¬Misread (setEndpoints h text).textOf? v := by
  rintro (⟨hset, hwrong⟩ | ⟨hretries, hset, hwrong⟩)
  · exact hnumbers _ (.retries (by simpa [textOf?_setEndpoints] using hset) hwrong)
  · refine hnumbers _ (.waitForTimeout (fun raw hraw => hretries raw ?_) ?_ hwrong)
    · simpa [textOf?_setEndpoints] using hraw
    · simpa [textOf?_setEndpoints] using hset

/-- Settings that can be loaded are loaded also with a text in the variable, and have the endpoints in it. -/
theorem Way.exists_load (hplain : way.plain h = .ok s) (hnumbers : ∀ v, ¬Misread h.textOf? v) (text : String) :
    ∃ t, way.load (setEndpoints h text) = .ok t ∧ Overridden (setEndpoints h text).textOf? s t ∧
      t.network.map Network.endpoints = some (endpointsOf text) := by
  have hvalid := Way.validate_of_plain hplain
  have hset : (setEndpoints h text).textOf? "EVER_ENDPOINTS" = some text := by simp [textOf?_setEndpoints]
  cases hresult : override (setEndpoints h text).textOf? s with
  | error v => exact absurd ((override_eq_error hvalid).1 hresult) (not_misread_setEndpoints hnumbers v)
  | ok t =>
    have hoverridden := (override_eq_ok hvalid).1 hresult
    refine ⟨t, Way.load_eq_ok.2 ⟨s, Way.plain_setEndpoints.trans hplain, hoverridden⟩, hoverridden, ?_⟩
    have hendpoints : t.networkOrDefault.endpoints = endpointsOf text := by rw [hoverridden.endpoints, hset]; rfl
    cases hnetwork : t.network with
    | none =>
      obtain ⟨-, hunset, -⟩ := hoverridden.missing.1 hnetwork
      rw [hset] at hunset
      cases hunset
    | some n =>
      rw [networkOrDefault, hnetwork] at hendpoints
      exact congrArg some hendpoints

/-- Two texts with the same endpoints override settings alike. -/
theorem Overridden.of_same_endpoints {text' : String} (hover : Overridden (setEndpoints h text).textOf? s t)
    (hsame : endpointsOf text' = endpointsOf text) : Overridden (setEndpoints h text').textOf? s t where
  valid := hover.valid
  missing := by simpa [textOf?_setEndpoints] using hover.missing
  endpoints := by simpa [textOf?_setEndpoints, hsame] using hover.endpoints
  accessKey := by simpa [textOf?_setEndpoints] using hover.accessKey
  retries := by simpa [textOf?_setEndpoints] using hover.retries
  timeout := by simpa [textOf?_setEndpoints] using hover.timeout
  network := hover.network
  others := hover.others

/-- Wherever settings are loaded from, as long as nothing else is wrong, the endpoints in the variable take the place of
all others: a list of endpoints whichever text spells it, in its order and with all that stands in it twice. Each text
spells a list of endpoints, and with nothing but commas between these the same settings are loaded. -/
theorem load_endpoints (way : Way) (hplain : way.plain h = .ok s) (hnumbers : ∀ v, ¬Misread h.textOf? v) :
    (∀ (es : List String) (text : String), (∀ e ∈ es, IsEndpoint e) → SpellsEndpoints text.toList es →
        ∃ t, way.load (setEndpoints h text) = .ok t ∧ t.network.map Network.endpoints = some es) ∧
      ∀ text : String, ∃ t es, way.load (setEndpoints h text) = .ok t ∧ t.network.map Network.endpoints = some es ∧
        (∀ e ∈ es, IsEndpoint e) ∧ SpellsEndpoints text.toList es ∧
        way.load (setEndpoints h (",".intercalate es)) = .ok t := by
  constructor
  · intro es text hes hspells
    obtain ⟨t, hload, -, hendpoints⟩ := Way.exists_load hplain hnumbers text
    have hread := endpointsOf_of_spells hspells hes
    rw [String.ofList_toList] at hread
    exact ⟨t, hload, by rw [hendpoints, hread]⟩
  · intro text
    obtain ⟨t, hload, hoverridden, hendpoints⟩ := Way.exists_load hplain hnumbers text
    have hes : ∀ e ∈ endpointsOf text, IsEndpoint e := fun e => isEndpoint_of_mem
    have hjoined := endpointsOf_of_spells (spells_intercalate (endpointsOf text)) hes
    rw [String.ofList_toList] at hjoined
    refine ⟨t, endpointsOf text, hload, hendpoints, hes, spells_endpointsOf text, Way.load_eq_ok.2 ⟨s, ?_, ?_⟩⟩
    · exact Way.plain_setEndpoints.trans hplain
    · exact hoverridden.of_same_endpoints hjoined

/-- A host with nothing but a root directory. -/
def bareHost : Host := ⟨.empty, .root, [], none⟩

/-- A text of three endpoints, one of them twice, between blank space and items that are left out. -/
def spaced : String := ",main ,,\t\u2003spare,main\n, "

/-- They are loaded where there is no file at all. -/
theorem load_endpoints_spaced : ∃ t, Way.load (setEndpoints bareHost spaced) (.directory {} (.ofText "")) = .ok t ∧
    t.network.map Network.endpoints = some ["main", "spare", "main"] := by
  have hplain : (Way.directory {} (.ofText "")).plain bareHost = .ok {} := eq_ok_of_toOption (by decide +kernel)
  have hnumbers : ∀ v, ¬Misread bareHost.textOf? v := by
    rintro _ (⟨hset, -⟩ | ⟨-, hset, -⟩) <;> cases hset
  have hread : endpointsOf spaced = ["main", "spare", "main"] := by decide +kernel
  have hspells : SpellsEndpoints spaced.toList ["main", "spare", "main"] := hread ▸ spells_endpointsOf spaced
  have hes : ∀ e ∈ ["main", "spare", "main"], IsEndpoint e := fun e he => isEndpoint_of_mem (hread ▸ he)
  exact (load_endpoints _ hplain hnumbers).1 _ _ hes hspells

end Loading

end Settings

end Switchboard
