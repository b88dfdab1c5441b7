import Switchboard.Json.Reader
import Switchboard.Proofs.Json.Lexeme
import Switchboard.Proofs.Text.Utf8
/-!
A document that is written as a JSON text is read as the same document.
-/
namespace Switchboard

/-- A document that a JSON text can spell: all strings and names are text, all numbers are well-formed numerals, and
there is no gap. -/
inductive Doc.Legible : Doc → Prop where
  | null : Legible .null
  | bool (b : Bool) : Legible (.bool b)
  | numeral {n : Numeral} (h : n.WellFormed) : Legible (.numeral n)
  | text (s : String) : Legible (.text s)
  | list {items : List Doc} (h : ∀ d ∈ items, Legible d) : Legible (.list items)
  | record {members : List (Except Fault String × Doc)} (hnames : ∀ m ∈ members, ∃ s, m.1 = .ok s)
      (h : ∀ m ∈ members, Legible m.2) : Legible (.record members)

/-- A document as JSON texts have it: all its numbers are numerals. -/
inductive Doc.IsJson : Doc → Prop where
  | null : IsJson .null
  | bool (b : Bool) : IsJson (.bool b)
  | numeral (n : Numeral) : IsJson (.numeral n)
  | string (s : Except Fault String) : IsJson (.string s)
  | list {items : List Doc} (h : ∀ d ∈ items, IsJson d) : IsJson (.list items)
  | record {members : List (Except Fault String × Doc)} (h : ∀ m ∈ members, IsJson m.2) : IsJson (.record members)
  | gap (f : Fault) : IsJson (.gap f)

theorem Doc.Legible.int (i : Int) : (Doc.int i).Legible := .numeral (Numeral.wellFormed_ofInt i)

namespace Json

open Utf8

variable {d : Doc} {n : Nat} {rest : List Piece}

/-- The text of a document is read as the document, whatever may follow it. -/
def Reads (d : Doc) : Prop :=
  ∀ (n : Nat) (rest : List Piece), (chars d).length ≤ n → Stops rest →
    value n ((chars d).map .char ++ rest) = (d, some rest)

/-- A character with which a value may begin: no blank and no closing bracket. -/
def Leads (c : Char) : Prop :=
  (∀ rest, skipBlank (.char c :: rest) = .char c :: rest) ∧ c ≠ ']'

theorem leads_digit (d : Text.Digit) : Leads d.char := by
  obtain ⟨hspace, htab, hfeed, hreturn, hbracket⟩ :
      d.char ≠ ' ' ∧ d.char ≠ '\t' ∧ d.char ≠ '\n' ∧ d.char ≠ '\r' ∧ d.char ≠ ']' :=
    (show ∀ d : Text.Digit, d.char ≠ ' ' ∧ d.char ≠ '\t' ∧ d.char ≠ '\n' ∧ d.char ≠ '\r' ∧ d.char ≠ ']' by decide) d
  exact ⟨fun rest => by simp [skipBlank, hspace, htab, hfeed, hreturn], hbracket⟩

/-- A numeral begins with a minus sign or a digit. -/
theorem Numeral.chars_eq_cons {n : Numeral} (h : n.WellFormed) :
    ∃ c cs, n.chars = c :: cs ∧ Leads c ∧ (c = '-' ∨ (Text.digit? c).isSome) := by
  rcases n with ⟨negative, whole, fraction, exponent⟩
  cases negative with
  | true => exact ⟨'-', _, rfl, ⟨fun _ => rfl, by decide⟩, .inl rfl⟩
  | false =>
    obtain ⟨d, ds, rfl⟩ := List.exists_cons_of_ne_nil h.whole
    exact ⟨d.char, _, rfl, leads_digit d, .inr (by simp [Text.digit?_char])⟩

/-- A legible document begins as a value does. -/
theorem chars_eq_cons (h : d.Legible) : ∃ c cs, chars d = c :: cs ∧ Leads c := by
  cases h with
  | null => exact ⟨_, _, rfl, fun _ => rfl, by decide⟩
  | bool b => cases b <;> exact ⟨_, _, rfl, fun _ => rfl, by decide⟩
  | numeral h =>
    obtain ⟨c, cs, hcs, hlead, -⟩ := Numeral.chars_eq_cons h
    exact ⟨c, cs, by simpa [chars] using hcs, hlead⟩
  | text s => exact ⟨_, _, rfl, fun _ => rfl, by decide⟩
  | list => exact ⟨_, _, rfl, fun _ => rfl, by decide⟩
  | record => exact ⟨_, _, rfl, fun _ => rfl, by decide⟩

/-- No other value begins as a numeral does. -/
theorem value_numeral {c : Char} (hlead : Leads c) (hc : c = '-' ∨ (Text.digit? c).isSome) :
    value (n + 1) (.char c :: rest) = ofWord .numeral (numeral (.char c :: rest)) := by
  have hother : c ≠ 'n' ∧ c ≠ 't' ∧ c ≠ 'f' ∧ c ≠ '"' ∧ c ≠ '[' ∧ c ≠ '{' := by
    refine ⟨?_, ?_, ?_, ?_, ?_, ?_⟩ <;> rintro rfl <;> revert hc <;> decide
  obtain ⟨hn, ht, hf, hquote, hbracket, hbrace⟩ := hother
  rw [value, hlead.1]
  split
  case h_8 heq =>
    cases heq
    exact if_pos hc
  all_goals simp_all

theorem reads_numeral {n : Numeral} (h : n.WellFormed) : Reads (.numeral n) := by
  intro k rest hk hrest
  obtain ⟨c, cs, hcs, hlead, hc⟩ := Numeral.chars_eq_cons h
  have hread := numeral_of_wellFormed hrest h
  simp only [chars] at hk ⊢
  rw [hcs] at hk hread ⊢
  obtain ⟨k, rfl⟩ : ∃ m, k = m + 1 := Nat.exists_eq_succ_of_ne_zero (by simp at hk; omega)
  rw [List.map_cons, List.cons_append] at hread ⊢
  rw [value_numeral hlead hc, hread]
  rfl

theorem reads_text (s : String) : Reads (.text s) := by
  intro k rest hk hrest
  obtain ⟨k, rfl⟩ : ∃ m, k = m + 1 := Nat.exists_eq_succ_of_ne_zero (by simp [Doc.text, chars, quote] at hk; omega)
  have hstring := string_quote s rest
  simp [Doc.text, chars, quote, Doc.sortKey, value, skipBlank, ofWord, hstring]

theorem items_chars {ds : List Doc} (hne : ds ≠ []) (hds : ∀ d ∈ ds, Reads d) (hn : (itemChars ds).length ≤ n) :
    items n ((itemChars ds).map .char ++ rest) = (ds, some rest) := by
  induction ds generalizing n with
  | nil => exact absurd rfl hne
  | cons d ds ih =>
    have hd : Reads d := hds d (by simp)
    cases ds with
    | nil =>
      obtain ⟨n, rfl⟩ : ∃ m, n = m + 1 := Nat.exists_eq_succ_of_ne_zero (by simp [itemChars] at hn; omega)
      have hvalue := hd n (.char ']' :: rest) (by simp [itemChars] at hn; omega) (.bracket rest)
      simp [itemChars, items, hvalue, skipBlank]
    | cons e ds =>
      obtain ⟨n, rfl⟩ : ∃ m, n = m + 1 := Nat.exists_eq_succ_of_ne_zero (by simp [itemChars] at hn; omega)
      have hvalue := hd n (.char ',' :: ((itemChars (e :: ds)).map .char ++ rest))
        (by simp [itemChars] at hn; omega) (.comma _)
      have hrest := ih (n := n) (by simp) (fun d hd => hds d (by simp [hd])) (by simp [itemChars] at hn ⊢; omega)
      simp [itemChars, items, hvalue, skipBlank, hrest]

theorem members_chars {ms : List (Except Fault String × Doc)} (hne : ms ≠ []) (hnames : ∀ m ∈ ms, ∃ s, m.1 = .ok s)
    (hms : ∀ m ∈ ms, Reads m.2) (hn : (memberChars ms).length ≤ n) :
    members n ((memberChars ms).map .char ++ rest) = (ms, some rest) := by
  induction ms generalizing n with
  | nil => exact absurd rfl hne
  | cons m ms ih =>
    obtain ⟨name, d⟩ := m
    obtain ⟨s, rfl⟩ : ∃ s, name = .ok s := hnames (name, d) (by simp)
    have hd : Reads d := hms (.ok s, d) (by simp)
    cases ms with
    | nil =>
      obtain ⟨n, rfl⟩ : ∃ m, n = m + 1 := Nat.exists_eq_succ_of_ne_zero (by simp [memberChars] at hn; omega)
      have hvalue := hd n (.char '}' :: rest) (by simp [memberChars] at hn; omega) (.brace rest)
      have hstring := string_quote s (.char ':' :: ((chars d).map .char ++ .char '}' :: rest))
      simp [memberChars, quote, Doc.sortKey, members, hvalue, skipBlank, hstring]
    | cons e ms =>
      obtain ⟨n, rfl⟩ : ∃ m, n = m + 1 := Nat.exists_eq_succ_of_ne_zero (by simp [memberChars] at hn; omega)
      have hvalue := hd n (.char ',' :: ((memberChars (e :: ms)).map .char ++ rest))
        (by simp [memberChars] at hn; omega) (.comma _)
      have hstring := string_quote s
        (.char ':' :: ((chars d).map .char ++ .char ',' :: ((memberChars (e :: ms)).map .char ++ rest)))
      have hrest := ih (n := n) (by simp) (fun m hm => hnames m (by simp [hm])) (fun m hm => hms m (by simp [hm]))
        (by simp [memberChars] at hn ⊢; omega)
      simp [memberChars, quote, Doc.sortKey, members, hvalue, skipBlank, hstring, hrest]

/-- A list goes on with its first item. -/
theorem value_list {c : Char} (hlead : Leads c) :
    value (n + 1) (.char '[' :: .char c :: rest) =
      (.list (items n (.char c :: rest)).1, (items n (.char c :: rest)).2) := by
  simp only [value]
  rw [show skipBlank (.char '[' :: .char c :: rest) = .char '[' :: .char c :: rest from rfl]
  simp only [hlead.1]
  split
  case h_1 heq =>
    cases heq
    exact absurd rfl hlead.2
  case h_2 => rfl

theorem reads_list {ds : List Doc} (hlegible : ∀ d ∈ ds, d.Legible) (hds : ∀ d ∈ ds, Reads d) : Reads (.list ds) := by
  intro k rest hk hrest
  obtain ⟨k, rfl⟩ : ∃ m, k = m + 1 := Nat.exists_eq_succ_of_ne_zero (by simp [chars] at hk; omega)
  cases ds with
  | nil => simp [chars, itemChars, value, skipBlank]
  | cons d ds =>
    obtain ⟨c, cs, hcs, hlead⟩ := chars_eq_cons (hlegible d (by simp))
    obtain ⟨cs', hcs'⟩ : ∃ cs', itemChars (d :: ds) = c :: cs' := by
      cases ds <;> simp [itemChars, hcs]
    have hitems : items k ((itemChars (d :: ds)).map .char ++ rest) = (d :: ds, some rest) :=
      items_chars (by simp) hds (by simpa [chars] using hk)
    rw [hcs', List.map_cons, List.cons_append] at hitems
    rw [chars, hcs', List.map_cons, List.map_cons, List.cons_append, List.cons_append, value_list hlead, hitems]

theorem reads_record {ms : List (Except Fault String × Doc)} (hnames : ∀ m ∈ ms, ∃ s, m.1 = .ok s)
    (hms : ∀ m ∈ ms, Reads m.2) : Reads (.record ms) := by
  intro k rest hk hrest
  obtain ⟨k, rfl⟩ : ∃ m, k = m + 1 := Nat.exists_eq_succ_of_ne_zero (by simp [chars] at hk; omega)
  cases ms with
  | nil => simp [chars, memberChars, value, skipBlank]
  | cons m ms =>
    obtain ⟨cs, hcs⟩ : ∃ cs, memberChars (m :: ms) = '"' :: cs := by
      cases ms <;> simp [memberChars, quote]
    have hmembers : members k ((memberChars (m :: ms)).map .char ++ rest) = (m :: ms, some rest) :=
      members_chars (by simp) hnames hms (by simpa [chars] using hk)
    rw [hcs] at hmembers
    simp [chars, hcs, value, skipBlank] at hmembers ⊢
    simp [hmembers]

/-- A legible document is read as it is written. -/
theorem reads_of_legible (h : d.Legible) : Reads d := by
  induction h with
  | null =>
    rintro (_ | n) rest hn -
    · simp [chars] at hn
    · rfl
  | bool b =>
    rintro (_ | n) rest hn -
    · cases b <;> simp [chars] at hn
    · cases b <;> rfl
  | numeral h => exact reads_numeral h
  | text s => exact reads_text s
  | list h ih => exact reads_list h ih
  | record hnames _ ih => exact reads_record hnames ih

/-- The text of a legible document is a text of that document. -/
theorem Text.ofBytes_write (h : d.Legible) : Text.ofBytes (Utf8.encode (write d)) = ⟨d, true⟩ := by
  have hpieces : pieces (Utf8.encode (write d)) = (chars d).map .char := by simp [pieces_encode, write]
  have hvalue := reads_of_legible h (2 * ((chars d).map Piece.char).length + 1) [] (by simp; omega) .nil
  rw [List.append_nil] at hvalue
  simp only [Text.ofBytes, hpieces, hvalue]
  rfl

/-- Where a word should stand that is no numeral, there is a gap. -/
theorem value_of_not_wellFormed {n : Numeral} (h : ¬n.WellFormed) (k : Nat) :
    ∃ f, value (k + 1) (n.chars.map .char) = broken f := by
  have hstart {c : Char} {cs : List Char} (hcs : n.chars = c :: cs) (hlead : Leads c)
      (hc : c = '-' ∨ (Text.digit? c).isSome) : ∃ f, value (k + 1) (n.chars.map .char) = broken f := by
    cases hread : numeral (n.chars.map .char) with
    | error f =>
      rw [hcs, List.map_cons] at hread ⊢
      exact ⟨f, by rw [value_numeral hlead hc, hread]; rfl⟩
    | ok x => exact absurd (wellFormed_of_numeral .nil (by simpa using hread)) h
  rcases n with ⟨negative, whole, fraction, exponent⟩
  match negative, whole, fraction, exponent with
  | true, _, _, _ => exact hstart rfl ⟨fun _ => rfl, by decide⟩ (.inl rfl)
  | false, d :: _, _, _ => exact hstart rfl (leads_digit d) (.inr (by simp [Text.digit?_char]))
  | false, [], _ :: _, _ => exact ⟨.malformed, rfl⟩
  | false, [], [], some (_, _) => exact ⟨.malformed, rfl⟩
  | false, [], [], none => exact ⟨.cut, rfl⟩

/-- The text of a numeral has that numeral as its document, or no document at all. -/
theorem Text.ofBytes_chars (n : Numeral) :
    n.WellFormed ∧ Text.ofBytes (Utf8.encode (String.ofList n.chars)) = ⟨.numeral n, true⟩ ∨
      ∃ f, (Text.ofBytes (Utf8.encode (String.ofList n.chars))).root = .gap f := by
  by_cases h : n.WellFormed
  · exact .inl ⟨h, by simpa [write, chars] using Text.ofBytes_write (.numeral h)⟩
  · obtain ⟨f, hf⟩ := value_of_not_wellFormed h (2 * (n.chars.map Piece.char).length)
    refine .inr ⟨f, ?_⟩
    simp only [Text.ofBytes, pieces_encode, String.toList_ofList, hf, broken]

theorem isJson_ofLiteral (hd : d.IsJson) (taken : Except Fault (List Piece)) : (ofLiteral d taken).1.IsJson := by
  cases taken with
  | ok rest => exact hd
  | error f => exact .gap f

theorem isJson_ofWord {α : Type} {build : α → Doc} (hbuild : ∀ a, (build a).IsJson)
    (taken : Except Fault (α × List Piece)) : (ofWord build taken).1.IsJson := by
  rcases taken with f | ⟨a, rest⟩
  · exact .gap f
  · exact hbuild a

/-- What is taken with so much fuel is a document as JSON has it, wherever the text stops. -/
structure TakesJson (n : Nat) : Prop where
  value : ∀ ps, (value n ps).1.IsJson
  items : ∀ ps, ∀ d ∈ (items n ps).1, d.IsJson
  members : ∀ ps, ∀ m ∈ (members n ps).1, m.2.IsJson

theorem TakesJson.value_succ (h : TakesJson n) (ps : List Piece) : (Json.value (n + 1) ps).1.IsJson := by
  rw [Json.value]
  split
  · exact .gap _
  · exact isJson_ofLiteral .null _
  · exact isJson_ofLiteral (.bool true) _
  · exact isJson_ofLiteral (.bool false) _
  · exact isJson_ofWord .string _
  · split
    · exact .list (by simp)
    · exact .list (h.items _)
  · split
    · exact .record (by simp)
    · exact .record (h.members _)
  · split
    · exact isJson_ofWord .numeral _
    · exact .gap _
  · exact .gap _

theorem TakesJson.items_succ (h : TakesJson n) (ps : List Piece) : ∀ d ∈ (Json.items (n + 1) ps).1, d.IsJson := by
  have hfirst := h.value ps
  rw [Json.items]
  split
  case h_1 heq => simpa [heq] using hfirst
  case h_2 heq =>
    rw [heq] at hfirst
    split
    · simpa [Doc.IsJson.gap] using hfirst
    · simpa using ⟨hfirst, h.items _⟩
    · simpa using hfirst
    · simpa [Doc.IsJson.gap] using hfirst

theorem TakesJson.members_succ (h : TakesJson n) (ps : List Piece) :
    ∀ m ∈ (Json.members (n + 1) ps).1, m.2.IsJson := by
  rw [Json.members]
  split
  · simp [brokenMember, Doc.IsJson.gap]
  · split
    · simp [brokenMember, Doc.IsJson.gap]
    · split
      · simp [Doc.IsJson.gap]
      case h_2 rest _ =>
        have hfirst := h.value rest
        split
        case h_1 heq => simpa [heq] using hfirst
        case h_2 heq =>
          rw [heq] at hfirst
          split
          · simpa [Doc.IsJson.gap] using hfirst
          · simpa using ⟨hfirst, fun name d => h.members _ (name, d)⟩
          · simpa using hfirst
          · simpa [Doc.IsJson.gap] using hfirst
      · simp [Doc.IsJson.gap]
  · simp [brokenMember, Doc.IsJson.gap]

/-- The three readers call one another with less fuel. -/
theorem takesJson (n : Nat) : TakesJson n := by
  induction n with
  | zero =>
    refine ⟨fun ps => .gap _, fun ps d hd => ?_, fun ps m hm => ?_⟩
    · obtain rfl := List.mem_singleton.1 hd
      exact .gap _
    · obtain rfl := List.mem_singleton.1 hm
      exact .gap _
  | succ n ih => exact ⟨ih.value_succ, ih.items_succ, ih.members_succ⟩

/-- A JSON text has a document as JSON has it. -/
theorem isJson_ofBytes (octets : Bytes) : (Text.ofBytes octets).root.IsJson := by
  have hvalue := (takesJson (2 * (pieces octets).length + 1)).value (pieces octets)
  simp only [Text.ofBytes]
  split
  case h_1 heq | h_2 heq => simpa [heq] using hvalue

end Json

end Switchboard
