import Switchboard.Form.Choice
import Switchboard.Proofs.Decimal.Finite
import Switchboard.Proofs.Json.Reader
/-!
Forms that read what they write. A form is total if every value is read back from its own document, and stable if this
holds at least for the values that it reads from JSON documents. Floats are taken to be read back from their texts.
-/
namespace Switchboard

section Floats

/-- The text of a number in JSON is read as the same number. Only real numbers have a text. -/
def Double.ReadsBack (d : Double) : Prop :=
  ∀ n, d.numeral? = some n → Form.value.read (Utf8.encode (String.ofList n.chars)) = .ok (.double d)

/-- The text of a number in JSON is read as the same number. Only real numbers have a text. -/
def Single.ReadsBack (s : Single) : Prop :=
  ∀ n, s.numeral? = some n → Form.single.read (Utf8.encode (String.ofList n.chars)) = .ok s

/-- Whether a number is neither infinite nor "not a number". -/
def Single.IsReal (s : Single) : Prop := s.numeral?.isSome

theorem Single.readsBack_of_numeral {s : Single} {n : Numeral} (hn : s.numeral? = some n)
    (hread : Form.single.read (Utf8.encode (String.ofList n.chars)) = .ok s) : s.IsReal ∧ s.ReadsBack := by
  refine ⟨by simp [IsReal, hn], fun n' hn' => ?_⟩
  cases hn.symm.trans hn'
  exact hread

/-- An untyped value in which each float is read back from its text. -/
inductive Value.Exact : Value → Prop where
  | null : Exact .null
  | bool (b : Bool) : Exact (.bool b)
  | integer (i : Int) : Exact (.integer i)
  | double {d : Double} (h : d.ReadsBack) : Exact (.double d)
  | string (s : String) : Exact (.string s)
  | array {items : List Value} (h : ∀ v ∈ items, Exact v) : Exact (.array items)
  | object {members : List (String × Value)} (h : ∀ m ∈ members, Exact m.2) : Exact (.object members)

/-- What it is for the values of a type to be exact: each float in them is read back from its text, and those of 32 bits
are real numbers. Where nothing else is said there are no floats in the values. -/
class HoldsFloats (α : Type) where
  Exact : α → Prop := fun _ => True

export HoldsFloats (Exact)

instance : HoldsFloats Unit where
instance : HoldsFloats Bool where
instance : HoldsFloats String where
instance : HoldsFloats UInt8 where
instance : HoldsFloats UInt32 where
instance : HoldsFloats UInt64 where
instance : HoldsFloats Int32 where
instance : HoldsFloats Int64 where

instance : HoldsFloats Single where
  Exact s := s.IsReal ∧ s.ReadsBack

instance : HoldsFloats Value where
  Exact := Value.Exact

variable {α β : Type} [HoldsFloats α] [HoldsFloats β]

instance : HoldsFloats (Option α) where
  Exact o := ∀ a ∈ o, Exact a

instance : HoldsFloats (List α) where
  Exact as := ∀ a ∈ as, Exact a

instance : HoldsFloats (α × β) where
  Exact p := Exact p.1 ∧ Exact p.2

end Floats

theorem orMalformed_eq_ok {α : Type} {o : Option α} {a : α} : orMalformed o = .ok a ↔ o = some a := by
  cases o <;> simp [orMalformed]

/-- What succeeds after something else succeeds after what that has given. -/
theorem bind_eq_ok {ε α β : Type} {x : Except ε α} {f : α → Except ε β} {b : β} :
    x >>= f = .ok b ↔ ∃ a, x = .ok a ∧ f a = .ok b := by
  cases x <;> simp [bind, Except.bind]

/-- What fails after something else fails with it, or after what it has given. -/
theorem bind_eq_error {ε α β : Type} {x : Except ε α} {f : α → Except ε β} {e : ε} :
    x >>= f = .error e ↔ x = .error e ∨ ∃ a, x = .ok a ∧ f a = .error e := by
  cases x <;> simp [bind, Except.bind]

theorem eq_ok_of_toOption {ε α : Type} {x : Except ε α} {a : α} (h : x.toOption = some a) : x = .ok a := by
  cases x <;> cases h
  rfl

theorem map_eq_ok {ε α β : Type} {x : Except ε α} {f : α → β} {b : β} :
    f <$> x = .ok b ↔ ∃ a, x = .ok a ∧ f a = b := by
  cases x <;> simp [Functor.map, Except.map]

namespace Reading

variable {r inner : Reading}

theorem room_of_enter (henter : r.enter = .ok inner) : inner.room + 1 = r.room := by
  simp only [enter] at henter
  split at henter <;> cases henter
  simp [*]

theorem exists_enter {depth : Nat} (hroom : depth + 1 ≤ r.room) : ∃ inner, r.enter = .ok inner ∧ depth ≤ inner.room := by
  rcases r with ⟨_ | room, language⟩
  · exact absurd hroom (Nat.not_succ_le_zero depth)
  · exact ⟨⟨room, language⟩, rfl, Nat.le_of_succ_le_succ hroom⟩

end Reading

/-- All of a document fits where it stands, also if no field takes it. -/
def Doc.Whole (r : Reading) (d : Doc) : Prop := ∃ v, Value.ofDoc r d = .ok v

namespace Form

variable {α β : Type} {form : Form α} {r : Reading} {d : Doc} {a b : α}

section Text

variable {octets : Bytes}

theorem read_of_text (h : Json.Text.ofBytes octets = ⟨d, true⟩) :
    form.read octets = form.decode (.ofLanguage .json) d := by
  simp only [read, h]
  cases form.decode (.ofLanguage .json) d <;> rfl

theorem decode_of_read (h : form.read octets = .ok a) :
    form.decode (.ofLanguage .json) (Json.Text.ofBytes octets).root = .ok a := by
  obtain ⟨b, hdecode, hrest⟩ := bind_eq_ok.1 h
  split at hrest <;> cases hrest
  exact hdecode

/-- What is read is read from the document that all of the text writes. -/
theorem read_eq_ok : form.read octets = .ok a ↔
    ∃ d, Json.Text.ofBytes octets = ⟨d, true⟩ ∧ form.decode (.ofLanguage .json) d = .ok a := by
  constructor
  · intro h
    obtain ⟨b, hdecode, hrest⟩ := bind_eq_ok.1 h
    split at hrest
    case isTrue hcomplete =>
      cases hrest
      exact ⟨_, congrArg (Json.Text.mk _) hcomplete, hdecode⟩
    case isFalse => cases hrest
  · rintro ⟨d, htext, hdecode⟩
    exact (read_of_text htext).trans hdecode

/-- What is read from the text of a numeral is read from the numeral. -/
theorem decode_numeral_of_read (hgap : ∀ r f, form.decode r (.gap f) = .error f) {n : Numeral}
    (h : form.read (Utf8.encode (String.ofList n.chars)) = .ok a) :
    n.WellFormed ∧ form.decode (.ofLanguage .json) (.numeral n) = .ok a := by
  rcases Json.Text.ofBytes_chars n with ⟨hn, htext⟩ | ⟨f, hroot⟩
  · exact ⟨hn, by rw [← h, read_of_text htext]⟩
  · have hdecode := decode_of_read h
    rw [hroot, hgap] at hdecode
    cases hdecode

end Text

/-- A value is written as a document that is read as a value. It is the same one unless writing loses something. -/
structure Rereads (form : Form α) (r : Reading) (a b : α) : Prop where
  decode_encode : form.decode r (form.encode a) = .ok b
  legible : (form.encode a).Legible
  whole : (form.encode a).Whole r

theorem Rereads.read_write (h : form.Rereads (.ofLanguage .json) a b) :
    form.read (Utf8.encode (form.write a)) = .ok b := by
  rw [write, read_of_text (Json.Text.ofBytes_write h.legible), h.decode_encode]

/-- A form in which every value is read back. No value but null is written as null. -/
class Total [HoldsFloats α] (form : Form α) where
  /-- So many lists and records stand inside each other in a value. -/
  depth : Nat
  rereads {r : Reading} {a : α} (hroom : depth ≤ r.room) (ha : Exact a) : form.Rereads r a a
  solid {a : α} (ha : Exact a) : form.encode a ≠ .null

/-- A form in which what has been read is read back. -/
class Stable [HoldsFloats α] (form : Form α) where
  /-- So many lists and records may have to be entered for what was left out in the text. -/
  depth : Nat
  rereads {r : Reading} {d : Doc} {a : α} (hroom : depth ≤ r.room) (hd : d.IsJson) (hread : form.decode r d = .ok a)
    (ha : Exact a) : form.Rereads r a a
  solid {r : Reading} {d : Doc} {a : α} (hd : d.IsJson) (hread : form.decode r d = .ok a) (ha : Exact a)
    (hnull : d ≠ .null) : form.encode a ≠ .null

instance (priority := low) [HoldsFloats α] [Total form] : Stable form where
  depth := Total.depth form
  rereads hroom _ _ ha := Total.rereads hroom ha
  solid _ _ ha _ := Total.solid ha

/-- What has been read from a text is read back from its own text. -/
theorem Stable.read_write [HoldsFloats α] [Stable form] (hdepth : Stable.depth form ≤ 127) {octets : Bytes}
    (h : form.read octets = .ok a) (ha : Exact a) : form.read (Utf8.encode (form.write a)) = .ok a :=
  (Stable.rereads (r := .ofLanguage .json) hdepth (Json.isJson_ofBytes octets) (decode_of_read h) ha).read_write

section Scalars

instance : Total Form.text where
  depth := 0
  rereads {_ a} _ _ := ⟨rfl, .text a, _, rfl⟩
  solid _ := nofun

instance : Total Form.bool where
  depth := 0
  rereads {_ a} _ _ := ⟨rfl, .bool a, _, rfl⟩
  solid _ := nofun

/-- Integers of up to 64 bits are read from their numerals. -/
theorem integer?_ofInt {i : Int} (hlow : -9223372036854775808 ≤ i) (hhigh : i ≤ 18446744073709551615) :
    (Numeral.ofInt i).integer? = some i := by
  have hword : wordMax = 18446744073709551615 := by decide
  have hpower : twoPow 63 = 9223372036854775808 := by decide
  simp only [Numeral.integer?, Numeral.ofInt, Text.ofDigits_digits, hword, hpower]
  rw [if_pos ⟨rfl, rfl⟩]
  by_cases hneg : i < 0
  · rw [if_pos (decide_eq_true hneg), if_neg (by omega), Int.ofNat_natAbs_of_nonpos (by omega), Int.neg_neg]
  · rw [if_neg (by simpa using hneg), if_pos (by omega), Int.natAbs_of_nonneg (by omega)]

/-- Integers within bounds of 64 bits, if each stands for itself. -/
@[reducible] def totalInteger {low high : Int} {ofInt : Int → α} {toInt : α → Int} [HoldsFloats α]
    (hlow : -9223372036854775808 ≤ low) (hhigh : high ≤ 18446744073709551615)
    (hrange : ∀ a, low ≤ toInt a ∧ toInt a ≤ high) (hback : ∀ a, ofInt (toInt a) = a) :
    Total (integer low high ofInt toInt) where
  depth := 0
  rereads {r a} _ _ := by
    obtain ⟨hleast, hmost⟩ := hrange a
    have hinteger := integer?_ofInt (i := toInt a) (by omega) (by omega)
    exact {
      decode_encode := by simp [integer, Doc.int, hinteger, hleast, hmost, hback]
      legible := .int (toInt a)
      whole := ⟨.integer (toInt a), by simp [integer, Doc.int, Value.ofDoc, hinteger]⟩ }
  solid _ := nofun

instance : Total Form.uint8 :=
  totalInteger (by decide) (by decide) (fun a => by have := a.toNat_lt; omega) fun a => by simp

instance : Total Form.uint32 :=
  totalInteger (by decide) (by decide) (fun a => by have := a.toNat_lt; omega) fun a => by simp

instance : Total Form.uint64 :=
  totalInteger (by decide) (by decide) (fun a => by have := a.toNat_lt; omega) fun a => by simp

instance : Total Form.int32 :=
  totalInteger (by decide) (by decide) (fun a => ⟨a.le_toInt, by have := a.toInt_lt; omega⟩) fun a => by simp

instance : Total Form.int64 :=
  totalInteger (by decide) (by decide) (fun a => ⟨a.le_toInt, by have := a.toInt_lt; omega⟩) fun a => by simp

/-- A numeral that is read as a number of 32 bits is a number of 64 bits as well. -/
theorem whole_of_single {n : Numeral} {s : Single} (h : Form.single.decode r (.numeral n) = .ok s) :
    (Doc.numeral n).Whole r := by
  simp only [single] at h
  cases hinteger : n.integer? with
  | some i => exact ⟨.integer i, by simp [Value.ofDoc, hinteger]⟩
  | none =>
    cases hdouble : n.double? with
    | some d => exact ⟨.double d, by simp [Value.ofDoc, hinteger, hdouble]⟩
    | none => simp [hinteger, hdouble] at h

instance : Total Form.single where
  depth := 0
  rereads {r a} _ ha := by
    obtain ⟨n, hn⟩ := Option.isSome_iff_exists.1 ha.1
    obtain ⟨hlegible, hread⟩ := decode_numeral_of_read (fun _ _ => rfl) (ha.2 n hn)
    have hencode : Form.single.encode a = .numeral n := by simp [single, hn]
    exact {
      decode_encode := by rw [hencode]; exact hread
      legible := by rw [hencode]; exact .numeral hlegible
      whole := by rw [hencode]; exact whole_of_single (r := r) hread }
  solid {a} ha := by
    obtain ⟨n, hn⟩ := Option.isSome_iff_exists.1 ha.1
    simp [single, hn]

/-- Named values, if each is found under its name. -/
@[reducible] def totalNames [HoldsFloats α] {name : α → String} {all : List α}
    (hall : ∀ a, all.find? (fun b => name b == name a) = some a) : Total (names name all) where
  depth := 0
  rereads {r a} _ _ := {
    decode_encode := by
      change (do orMalformed (all.find? fun b => name b == name a)) = .ok a
      rw [hall a]
      rfl
    legible := .text (name a)
    whole := ⟨.string (name a), rfl⟩ }
  solid _ := nofun

/-- Values that are written as values of another type, if each is found again. -/
@[reducible] def totalVia [HoldsFloats α] [HoldsFloats β] {form : Form β} [t : Total form] {into : α → β}
    {back : β → Option α} (hexact : ∀ a, Exact a → Exact (into a)) (hback : ∀ a, back (into a) = some a) :
    Total (via form into back) where
  depth := t.depth
  rereads {r a} hroom ha := by
    have hinto := t.rereads hroom (hexact a ha)
    exact {
      decode_encode := by simp [via, hinto.decode_encode, hback, bind, Except.bind, pure, Except.pure]
      legible := hinto.legible
      whole := hinto.whole }
  solid {a} ha := t.solid (hexact a ha)

end Scalars

section Nullable

theorem nullable_of_ne_null (hnull : d ≠ .null) : form.nullable.decode r d = some <$> form.decode r d := by
  cases d with
  | null => exact absurd rfl hnull
  | _ => rfl

/-- What is read where null may stand is null, or is read as without null. -/
theorem exists_of_nullable {o : Option α} (hnull : d ≠ .null) (hread : form.nullable.decode r d = .ok o) :
    ∃ a, o = some a ∧ form.decode r d = .ok a := by
  rw [nullable_of_ne_null hnull] at hread
  obtain ⟨a, hvalue, rfl⟩ := map_eq_ok.1 hread
  exact ⟨a, rfl, hvalue⟩

/-- A value is read back where null may stand, unless it is written as null itself. -/
theorem Rereads.nullable (h : form.Rereads r a b) (hnull : form.encode a ≠ .null) :
    form.nullable.Rereads r (some a) (some b) where
  decode_encode := by
    change form.nullable.decode r (form.encode a) = _
    rw [nullable_of_ne_null hnull, h.decode_encode]
    rfl
  legible := h.legible
  whole := h.whole

theorem rereads_none (form : Form α) (r : Reading) : form.nullable.Rereads r none none :=
  ⟨rfl, .null, _, rfl⟩

instance [HoldsFloats α] [s : Stable form] : Stable form.nullable where
  depth := s.depth
  rereads {r d o} hroom hd hread ho := by
    by_cases hnull : d = .null
    · subst hnull
      cases hread
      exact rereads_none form r
    · obtain ⟨a, rfl, hvalue⟩ := exists_of_nullable hnull hread
      have ha : Exact a := ho a rfl
      exact (s.rereads hroom hd hvalue ha).nullable (s.solid hd hvalue ha hnull)
  solid {r d o} hd hread ho hnull := by
    obtain ⟨a, rfl, hvalue⟩ := exists_of_nullable hnull hread
    exact s.solid hd hvalue (ho a rfl) hnull

end Nullable

section List

variable {items : List Doc} {as : List α}

/-- What is written for the items of a list is read back, one after another. -/
theorem decodeItems_map (h : ∀ a ∈ as, form.Rereads r a a) : form.decodeItems r (as.map form.encode) = .ok as := by
  induction as with
  | nil => rfl
  | cons a as ih =>
    have hfirst := (h a (by simp)).decode_encode
    have hrest := ih fun b hb => h b (by simp [hb])
    simp [decodeItems, hfirst, hrest, bind, Except.bind, pure, Except.pure]

theorem ofItems_map (h : ∀ a ∈ as, form.Rereads r a a) : ∃ vs, Value.ofItems r (as.map form.encode) = .ok vs := by
  induction as with
  | nil => exact ⟨[], rfl⟩
  | cons a as ih =>
    obtain ⟨v, hv⟩ := (h a (by simp)).whole
    obtain ⟨vs, hvs⟩ := ih fun b hb => h b (by simp [hb])
    exact ⟨v :: vs, by simp [Value.ofItems, hv, hvs, bind, Except.bind, pure, Except.pure]⟩

/-- A list is read back if all its items are. -/
theorem rereads_list {inner : Reading} (henter : r.enter = .ok inner) (h : ∀ a ∈ as, form.Rereads inner a a) :
    form.list.Rereads r as as where
  decode_encode := by simp [list, henter, decodeItems_map h, bind, Except.bind]
  legible := .list (by simpa using fun a ha => (h a ha).legible)
  whole := by
    obtain ⟨vs, hvs⟩ := ofItems_map h
    exact ⟨.array vs, by simp [list, Value.ofDoc, henter, hvs, bind, Except.bind, pure, Except.pure]⟩

/-- Each item of a list that has been read has been read from one of the documents. -/
theorem mem_of_decodeItems (hread : form.decodeItems r items = .ok as) (ha : a ∈ as) :
    ∃ d ∈ items, form.decode r d = .ok a := by
  induction items generalizing as with
  | nil =>
    cases hread
    cases ha
  | cons d items ih =>
    obtain ⟨b, hfirst, hread⟩ := bind_eq_ok.1 hread
    obtain ⟨bs, hrest, hread⟩ := bind_eq_ok.1 hread
    cases hread
    rcases List.mem_cons.1 ha with rfl | ha
    · exact ⟨d, by simp, hfirst⟩
    · obtain ⟨d', hd', hvalue⟩ := ih hrest ha
      exact ⟨d', by simp [hd'], hvalue⟩

/-- A list is read after it has been entered. -/
theorem exists_of_list (hread : form.list.decode r d = .ok as) :
    ∃ inner items, d = .list items ∧ r.enter = .ok inner ∧ form.decodeItems inner items = .ok as := by
  simp only [list] at hread
  split at hread
  case h_1 items =>
    obtain ⟨inner, henter, hitems⟩ := bind_eq_ok.1 hread
    exact ⟨inner, items, rfl, henter, hitems⟩
  case h_2 => exact absurd hread (by cases d <;> simp [Doc.unfit])

instance [HoldsFloats α] [t : Total form] : Total form.list where
  depth := t.depth + 1
  rereads {r as} hroom has := by
    obtain ⟨inner, henter, hinner⟩ := Reading.exists_enter hroom
    exact rereads_list henter fun a ha => t.rereads hinner (has a ha)
  solid _ := nofun

instance [HoldsFloats α] [s : Stable form] : Stable form.list where
  depth := s.depth + 1
  rereads {r d as} hroom hd hread has := by
    obtain ⟨inner, items, rfl, henter, hitems⟩ := exists_of_list hread
    have hinner := Reading.room_of_enter henter
    refine rereads_list henter fun a ha => ?_
    obtain ⟨d, hmem, hvalue⟩ := mem_of_decodeItems hitems ha
    cases hd with
    | list hd => exact s.rereads (by omega) (hd d hmem) hvalue (has a ha)
  solid _ _ _ _ := nofun

end List

end Form

end Switchboard
