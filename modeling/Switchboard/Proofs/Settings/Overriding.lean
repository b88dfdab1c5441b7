import Switchboard.Settings.Loader
import Switchboard.Proofs.Form.Basic
import Switchboard.Proofs.Text.Numbers
/-!
Variables of the environment in the place of settings. Settings that pass the checks pass them also when they are
overridden, so that only the two variables with numbers can be wrong; whatever no variable stands for stays as it is.
-/
namespace Switchboard.Settings

open Text

variable {text? : String → Option String} {s t : Settings} {o : Overrides} {n : Network} {raw : String}
  {v : InvalidValue}

/-- A text writes an integer of 32 bits with a sign, between any blank space. -/
def WritesInt32 (raw : String) (i : Int32) : Prop := ∃ core, Padded raw.toList core ∧ SpellsInt core i.toInt

/-- A text writes an integer of 32 bits without a sign, between any blank space. -/
def WritesUInt32 (raw : String) (i : UInt32) : Prop := ∃ core, Padded raw.toList core ∧ SpellsNat core i.toNat

/-- What is read as a number of retries is just what writes one. -/
theorem retriesOf?_eq_some {i : Int32} : retriesOf? raw = some i ↔ WritesInt32 raw i := by
  rw [WritesInt32, ← readInt?_trimChars, retriesOf?]
  constructor
  · intro h
    split at h
    case h_1 read hread =>
      split at h
      case isTrue hrange =>
        cases h
        rw [hread, Int32.toInt_ofInt_of_le (by omega) (by omega)]
      case isFalse => cases h
    case h_2 => cases h
  · intro h
    have hlow := i.le_toInt
    have hhigh := i.toInt_lt
    simp only [h]
    rw [if_pos (by omega), Int32.ofInt_toInt]

/-- What is read as a number of milliseconds is just what writes one. -/
theorem millisecondsOf?_eq_some {i : UInt32} : millisecondsOf? raw = some i ↔ WritesUInt32 raw i := by
  rw [WritesUInt32, ← readNat?_trimChars, millisecondsOf?]
  constructor
  · intro h
    split at h
    case h_1 read hread =>
      split at h
      case isTrue hrange =>
        cases h
        rw [hread, UInt32.toNat_ofNat_of_lt' (Nat.lt_of_le_of_lt hrange (by decide))]
      case isFalse => cases h
    case h_2 => cases h
  · intro h
    have hhigh := i.toNat_lt
    simp only [h]
    rw [if_pos (by omega), UInt32.ofNat_toNat]

/-- No endpoint that is taken from a text is blank. -/
theorem not_blank_of_endpointsOf : (endpointsOf raw).any isBlankText = false := by
  rw [List.any_eq_false]
  intro e he hblank
  obtain ⟨cs, hcs, rfl⟩ := List.mem_map.1 he
  obtain ⟨htrimmed, hfilled⟩ := List.mem_filter.1 hcs
  obtain ⟨part, -, rfl⟩ := List.mem_map.1 htrimmed
  have hall : (trimChars part).all isBlank := by simpa [isBlankText] using hblank
  have hempty := eq_nil_of_isBlank_trimChars hall
  simp [hempty] at hfilled

section Checks

/-- Settings of the network pass the checks if no endpoint is blank and messages are sent to one at least. -/
theorem Network.validate_eq_ok :
    n.validate = .ok () ↔ n.endpoints.any isBlankText = false ∧ n.sendingEndpointCount ≠ some 0 := by
  unfold Network.validate
  cases n.endpoints.any isBlankText <;> by_cases hcount : n.sendingEndpointCount = some 0 <;>
    simp [hcount, bind, Except.bind, pure, Except.pure, throw, throwThe, MonadExceptOf.throw]

theorem validate_eq_ok :
    s.validate = .ok () ↔ validatePart Network.validate s.network = .ok () ∧
      validatePart Crypto.validate s.crypto = .ok () ∧ validatePart Abi.validate s.abi = .ok () := by
  simp only [validate, bind_eq_ok]
  exact ⟨fun ⟨_, hnetwork, _, hcrypto, habi⟩ => ⟨hnetwork, hcrypto, habi⟩,
    fun ⟨hnetwork, hcrypto, habi⟩ => ⟨_, hnetwork, _, hcrypto, habi⟩⟩

theorem validate_networkOrDefault (hvalid : s.validate = .ok ()) : s.networkOrDefault.validate = .ok () := by
  have hnetwork := (validate_eq_ok.1 hvalid).1
  unfold networkOrDefault
  cases h : s.network with
  | none => rfl
  | some n => simpa [h, validatePart] using hnetwork

end Checks

/-- What the variables say, if those with numbers are right. -/
structure Overrides.Says (text? : String → Option String) (o : Overrides) : Prop where
  endpoints : o.endpoints = (text? "EVER_ENDPOINTS").map endpointsOf
  accessKey : o.accessKey = text? "EVER_ACCESS_KEY"
  retries : Option.Rel WritesInt32 (text? "EVER_NETWORK_RETRIES") o.networkRetriesCount
  timeout : Option.Rel WritesUInt32 (text? "EVER_WAIT_FOR_TIMEOUT") o.waitForTimeout

/-- A variable with a number is wrong. That of the retries is looked at first. -/
inductive Misread (text? : String → Option String) : InvalidValue → Prop where
  | retries {raw : String} (hset : text? "EVER_NETWORK_RETRIES" = some raw) (hwrong : ∀ i, ¬WritesInt32 raw i) :
      Misread text? (.retries raw)
  | waitForTimeout {raw : String}
      (hretries : ∀ raw, text? "EVER_NETWORK_RETRIES" = some raw → ∃ i, WritesInt32 raw i)
      (hset : text? "EVER_WAIT_FOR_TIMEOUT" = some raw) (hwrong : ∀ i, ¬WritesUInt32 raw i) :
      Misread text? (.waitForTimeout raw)

namespace Overrides

variable {α : Type} {read? : String → Option α} {wrong : String → InvalidValue} {set? : Option String}
  {writes : String → α → Prop}

theorem check_eq_ok (hread : ∀ {raw a}, read? raw = some a ↔ writes raw a) {a? : Option α} :
    check read? wrong set? = .ok a? ↔ Option.Rel writes set? a? := by
  cases set? with
  | none => cases a? <;> simp [check]
  | some raw =>
    cases h : read? raw with
    | none =>
      have hwrong a : ¬writes raw a := fun ha => by simp [hread.2 ha] at h
      cases a? <;> simp [check, h, hwrong]
    | some a =>
      have hunique b : writes raw b ↔ a = b := by rw [← hread, h, Option.some.injEq]
      cases a? <;> simp [check, h, hunique]

theorem check_eq_error (hread : ∀ {raw a}, read? raw = some a ↔ writes raw a) :
    check read? wrong set? = .error v ↔ ∃ raw, set? = some raw ∧ (∀ a, ¬writes raw a) ∧ wrong raw = v := by
  cases set? with
  | none => simp [check]
  | some raw =>
    cases h : read? raw with
    | none =>
      have hwrong a : ¬writes raw a := fun ha => by simp [hread.2 ha] at h
      simp [check, h, hwrong]
    | some a =>
      have hright : writes raw a := hread.1 h
      simp only [check, h, reduceCtorEq, Option.some.injEq, exists_eq_left', false_iff]
      exact fun hwrong => hwrong.1 a hright

/-- The variables are read as what they say. -/
theorem ofVariables_eq_ok : ofVariables text? = .ok o ↔ o.Says text? := by
  simp only [ofVariables, bind_eq_ok, check_eq_ok retriesOf?_eq_some, check_eq_ok millisecondsOf?_eq_some]
  constructor
  · rintro ⟨retries, hretries, timeout, htimeout, h⟩
    cases h
    exact ⟨rfl, rfl, hretries, htimeout⟩
  · obtain ⟨endpoints, accessKey, retries, timeout⟩ := o
    rintro ⟨rfl, rfl, hretries, htimeout⟩
    exact ⟨retries, hretries, timeout, htimeout, rfl⟩

/-- The number of retries is read if it is right wherever it is set. -/
theorem exists_rel_iff : (∃ a?, Option.Rel writes set? a?) ↔ ∀ raw, set? = some raw → ∃ a, writes raw a := by
  constructor
  · rintro ⟨a?, hrel⟩ raw rfl
    cases hrel with
    | some h => exact ⟨_, h⟩
  · intro h
    cases set? with
    | none => exact ⟨none, .none⟩
    | some raw =>
      obtain ⟨a, ha⟩ := h raw rfl
      exact ⟨some a, .some ha⟩

/-- Only a variable with a number can be wrong. -/
theorem ofVariables_eq_error : ofVariables text? = .error v ↔ Misread text? v := by
  simp only [ofVariables, bind_eq_error, check_eq_ok retriesOf?_eq_some, check_eq_error retriesOf?_eq_some,
    check_eq_error millisecondsOf?_eq_some]
  constructor
  · rintro (⟨raw, hset, hwrong, rfl⟩ | ⟨retries, hretries, ⟨raw, hset, hwrong, rfl⟩ | ⟨_, _, h⟩⟩)
    · exact .retries hset hwrong
    · exact .waitForTimeout (exists_rel_iff.1 ⟨retries, hretries⟩) hset hwrong
    · cases h
  · rintro (⟨hset, hwrong⟩ | ⟨hretries, hset, hwrong⟩)
    · exact .inl ⟨_, hset, hwrong, rfl⟩
    · obtain ⟨retries, hrel⟩ := exists_rel_iff.2 hretries
      exact .inr ⟨retries, hrel, .inl ⟨_, hset, hwrong, rfl⟩⟩

/-- Overrides that put no blank endpoint in the place of others leave settings that pass the checks. -/
theorem validate_apply (hvalid : s.validate = .ok ()) (ho : o.Says text?) : (o.apply s).validate = .ok () := by
  unfold apply
  split
  case isTrue => exact hvalid
  case isFalse =>
    obtain ⟨-, hcrypto, habi⟩ := validate_eq_ok.1 hvalid
    obtain ⟨hfilled, hsending⟩ := Network.validate_eq_ok.1 (validate_networkOrDefault hvalid)
    refine validate_eq_ok.2 ⟨Network.validate_eq_ok.2 ⟨?_, hsending⟩, hcrypto, habi⟩
    rw [onNetwork, ho.endpoints]
    cases text? "EVER_ENDPOINTS" with
    | none => exact hfilled
    | some raw => exact not_blank_of_endpointsOf

theorem isNone_of_rel {a? : Option α} (h : Option.Rel writes set? a?) : a?.isNone = set?.isNone := by
  cases h <;> rfl

theorem isEmpty_iff (ho : o.Says text?) :
    o.isEmpty = true ↔ text? "EVER_ENDPOINTS" = none ∧ text? "EVER_ACCESS_KEY" = none ∧
      text? "EVER_NETWORK_RETRIES" = none ∧ text? "EVER_WAIT_FOR_TIMEOUT" = none := by
  rw [isEmpty, ho.endpoints, ho.accessKey, isNone_of_rel ho.retries, isNone_of_rel ho.timeout]
  simp [and_assoc]

theorem networkOrDefault_apply : (o.apply s).networkOrDefault = o.onNetwork s.networkOrDefault := by
  unfold apply
  split
  case isTrue hempty =>
    obtain ⟨endpoints, accessKey, retries, timeout⟩ := o
    obtain ⟨⟨⟨rfl, rfl⟩, rfl⟩, rfl⟩ : ((endpoints = none ∧ accessKey = none) ∧ retries = none) ∧ timeout = none := by
      simpa [isEmpty] using hempty
    simp [onNetwork]
  case isFalse => rfl

end Overrides

/-- A number in the settings is the one that a variable writes, or what was there before if the variable is not
set. -/
inductive Replaced {α : Type} (writes : String → α → Prop) (before : Option α) : Option String → Option α → Prop where
  | unset : Replaced writes before none before
  | set {raw : String} {a : α} (h : writes raw a) : Replaced writes before (some raw) (some a)

theorem Replaced.of_rel {α : Type} {writes : String → α → Prop} {before a? : Option α} {set? : Option String}
    (h : Option.Rel writes set? a?) : Replaced writes before set? (a? <|> before) := by
  cases h with
  | none => exact .unset
  | some h => exact .set h

theorem Replaced.exists_writes {α : Type} {writes : String → α → Prop} {before after : Option α} {set? : Option String}
    (h : Replaced writes before set? after) {raw : String} (hset : set? = some raw) : ∃ a, writes raw a := by
  cases h with
  | unset => cases hset
  | set h =>
    cases hset
    exact ⟨_, h⟩

theorem Replaced.unique {α : Type} {writes : String → α → Prop} {before after other : Option α} {set? : Option String}
    (hwrites : ∀ {raw a b}, writes raw a → writes raw b → a = b) (h : Replaced writes before set? after)
    (hother : Replaced writes before set? other) : after = other := by
  cases h with
  | unset =>
    cases hother
    rfl
  | set h =>
    cases hother with
    | set hb => rw [hwrites h hb]

/-- Settings of the network without what variables stand for. -/
def Network.unnamed (n : Network) : Network :=
  { n with endpoints := [], accessKey := none, networkRetriesCount := none, waitForTimeout := none }

theorem Network.eq_of_unnamed {m : Network} (h : n.unnamed = m.unnamed) (hendpoints : n.endpoints = m.endpoints)
    (hkey : n.accessKey = m.accessKey) (hretries : n.networkRetriesCount = m.networkRetriesCount)
    (htimeout : n.waitForTimeout = m.waitForTimeout) : n = m := by
  cases n
  cases m
  simp_all [unnamed]

/-- What settings have become by the variables of the environment. -/
structure Overridden (text? : String → Option String) (s t : Settings) : Prop where
  /-- They pass the checks. -/
  valid : t.validate = .ok ()
  /-- There are no settings of the network just if there were none and no variable is set. -/
  missing : t.network = none ↔ s.network = none ∧ text? "EVER_ENDPOINTS" = none ∧ text? "EVER_ACCESS_KEY" = none ∧
    text? "EVER_NETWORK_RETRIES" = none ∧ text? "EVER_WAIT_FOR_TIMEOUT" = none
  endpoints : t.networkOrDefault.endpoints =
    ((text? "EVER_ENDPOINTS").map endpointsOf).getD s.networkOrDefault.endpoints
  accessKey : t.networkOrDefault.accessKey = (text? "EVER_ACCESS_KEY" <|> s.networkOrDefault.accessKey)
  retries : Replaced WritesInt32 s.networkOrDefault.networkRetriesCount (text? "EVER_NETWORK_RETRIES")
    t.networkOrDefault.networkRetriesCount
  timeout : Replaced WritesUInt32 s.networkOrDefault.waitForTimeout (text? "EVER_WAIT_FOR_TIMEOUT")
    t.networkOrDefault.waitForTimeout
  /-- Nothing else in the settings of the network is touched. -/
  network : t.networkOrDefault.unnamed = s.networkOrDefault.unnamed
  /-- No other part of the settings is touched. -/
  others : { t with network := none } = { s with network := none }

namespace Overridden

/-- Putting what the variables say in its place overrides the settings. -/
theorem apply (hvalid : s.validate = .ok ()) (ho : o.Says text?) : Overridden text? s (o.apply s) where
  valid := Overrides.validate_apply hvalid ho
  missing := by
    rw [← Overrides.isEmpty_iff ho, Overrides.apply]
    split
    case isTrue hempty => simp [hempty]
    case isFalse hempty => simp [hempty]
  endpoints := by rw [Overrides.networkOrDefault_apply, Overrides.onNetwork, ho.endpoints]
  accessKey := by rw [Overrides.networkOrDefault_apply, Overrides.onNetwork, ho.accessKey]
  retries := by
    rw [Overrides.networkOrDefault_apply]
    exact .of_rel ho.retries
  timeout := by
    rw [Overrides.networkOrDefault_apply]
    exact .of_rel ho.timeout
  network := by
    rw [Overrides.networkOrDefault_apply]
    rfl
  others := by
    unfold Overrides.apply
    split <;> rfl

/-- There is one way only to override settings. -/
theorem unique {t' : Settings} (h : Overridden text? s t) (h' : Overridden text? s t') : t = t' := by
  have hnetwork : t.networkOrDefault = t'.networkOrDefault := by
    refine Network.eq_of_unnamed (h.network.trans h'.network.symm) (h.endpoints.trans h'.endpoints.symm)
      (h.accessKey.trans h'.accessKey.symm) (h.retries.unique (fun ha hb => ?_) h'.retries)
      (h.timeout.unique (fun ha hb => ?_) h'.timeout)
    · exact Option.some.inj ((retriesOf?_eq_some.2 ha).symm.trans (retriesOf?_eq_some.2 hb))
    · exact Option.some.inj ((millisecondsOf?_eq_some.2 ha).symm.trans (millisecondsOf?_eq_some.2 hb))
  have hmissing := h.missing.trans h'.missing.symm
  have hothers := h.others.trans h'.others.symm
  obtain ⟨binding, network, crypto, abi, boc, proofs, path⟩ := t
  obtain ⟨binding', network', crypto', abi', boc', proofs', path'⟩ := t'
  cases network <;> cases network' <;> simp_all [networkOrDefault]

end Overridden

/-- Settings that pass the checks are overridden exactly as the variables say. -/
theorem override_eq_ok (hvalid : s.validate = .ok ()) : override text? s = .ok t ↔ Overridden text? s t := by
  have hoverride : override text? s = .ok t ↔ ∃ o : Overrides, o.Says text? ∧ o.apply s = t := by
    simp only [override, bind_eq_ok, Overrides.ofVariables_eq_ok]
    constructor
    · rintro ⟨o, ho, _, -, h⟩
      exact ⟨o, ho, Except.ok.inj h⟩
    · rintro ⟨o, ho, rfl⟩
      exact ⟨o, ho, _, Overrides.validate_apply hvalid ho, rfl⟩
  rw [hoverride]
  constructor
  · rintro ⟨o, ho, rfl⟩
    exact .apply hvalid ho
  · intro h
    obtain ⟨retries, hretries⟩ := Overrides.exists_rel_iff.2 fun _ => h.retries.exists_writes
    obtain ⟨timeout, htimeout⟩ := Overrides.exists_rel_iff.2 fun _ => h.timeout.exists_writes
    have ho : Overrides.Says text? ⟨_, _, retries, timeout⟩ := ⟨rfl, rfl, hretries, htimeout⟩
    exact ⟨_, ho, (Overridden.apply hvalid ho).unique h⟩

/-- The checks that follow never fail; only a variable with a number can be wrong. -/
theorem override_eq_error (hvalid : s.validate = .ok ()) : override text? s = .error v ↔ Misread text? v := by
  simp only [override, bind_eq_error, Overrides.ofVariables_eq_error, Overrides.ofVariables_eq_ok]
  constructor
  · rintro (h | ⟨o, ho, h | ⟨_, _, h⟩⟩)
    · exact h
    · rw [Overrides.validate_apply hvalid ho] at h
      cases h
    · cases h
  · exact .inl

section Loading

variable {h : Host} {l : Loader} {file start : Path}

theorem mapError_eq_ok {ε δ α : Type} {x : Except ε α} {f : ε → δ} {a : α} : x.mapError f = .ok a ↔ x = .ok a := by
  cases x <;> simp [Except.mapError]

theorem validate_of_load (hload : load h file = .ok s) : s.validate = .ok () := by
  obtain ⟨_, -, hload⟩ := bind_eq_ok.1 hload
  split at hload
  case h_1 => cases hload
  case h_2 =>
    obtain ⟨_, hvalid, hload⟩ := bind_eq_ok.1 hload
    cases hload
    exact mapError_eq_ok.1 hvalid

theorem validate_of_loadGlobal (hload : l.loadGlobal h = .ok s) : s.validate = .ok () := by
  unfold Loader.loadGlobal at hload
  split at hload
  case h_1 =>
    split at hload
    case isTrue => exact validate_of_load hload
    case isFalse =>
      cases hload
      rfl
  case h_2 =>
    cases hload
    rfl

theorem validate_of_loadPlain (hload : l.loadPlain h start = .ok s) : s.validate = .ok () := by
  unfold Loader.loadPlain at hload
  split at hload
  case h_1 => exact validate_of_load hload
  case h_2 => exact validate_of_loadGlobal hload

/-- Settings for a directory are those of its source, overridden exactly as the variables say. -/
theorem load_eq_ok : l.load h start = .ok t ↔ ∃ s, l.loadPlain h start = .ok s ∧ Overridden h.textOf? s t := by
  rw [Loader.load, bind_eq_ok]
  refine exists_congr fun s => and_congr_right fun hplain => ?_
  rw [mapError_eq_ok, override_eq_ok (validate_of_loadPlain hplain)]

/-- Settings in a file are overridden exactly as the variables say. -/
theorem loadOverridden_eq_ok : loadOverridden h file = .ok t ↔ ∃ s, load h file = .ok s ∧ Overridden h.textOf? s t := by
  rw [loadOverridden, bind_eq_ok]
  refine exists_congr fun s => and_congr_right fun hload => ?_
  rw [mapError_eq_ok, override_eq_ok (validate_of_load hload)]

end Loading

/-- Settings that pass the checks stay so under any variables of the environment. It fails just if one of the two
variables with numbers is wrong, and else gives the one outcome in which what is set is replaced and all else is kept.
So whatever a loader gives passes the checks. -/
theorem override_keeps_valid :
    (∀ (s : Settings) (text? : String → Option String), s.validate = .ok () →
        (∀ v, override text? s = .error v ↔ Misread text? v) ∧
          ∀ t, override text? s = .ok t ↔ Overridden text? s t) ∧
      ∀ (h : Host) (t : Settings), (∀ file, loadOverridden h file = .ok t → t.validate = .ok ()) ∧
        ∀ (l : Loader) (start : Path), l.load h start = .ok t → t.validate = .ok () := by
  refine ⟨fun s text? hvalid => ⟨fun v => override_eq_error hvalid, fun t => override_eq_ok hvalid⟩, fun h t => ⟨?_, ?_⟩⟩
  · intro file hload
    obtain ⟨s, -, hoverridden⟩ := loadOverridden_eq_ok.1 hload
    exact hoverridden.valid
  · intro l start hload
    obtain ⟨s, -, hoverridden⟩ := load_eq_ok.1 hload
    exact hoverridden.valid

/-- Variables with endpoints between commas, some of them blank, and a number between blank space. -/
def crowded (name : String) : Option String :=
  if name = "EVER_ENDPOINTS" then some "main, ,\tspare," else if name = "EVER_NETWORK_RETRIES" then some " +7\n" else none

/-- They override settings that have a section for the network; a number of milliseconds that is too large is refused
in empty ones. -/
theorem override_keeps_valid_crowded :
    Overridden crowded { network := some { endpoints := ["old"], accessKey := some "key" } }
        { network := some { endpoints := ["main", "spare"], accessKey := some "key", networkRetriesCount := some 7 } } ∧
      Misread (fun name => if name = "EVER_WAIT_FOR_TIMEOUT" then some "4294967296" else none)
        (.waitForTimeout "4294967296") :=
  ⟨((override_keeps_valid.1 _ crowded (eq_ok_of_toOption (by decide +kernel))).2 _).1
      (eq_ok_of_toOption (by decide +kernel)),
    ((override_keeps_valid.1 {} _ rfl).1 _).1 (by rfl)⟩

end Switchboard.Settings
