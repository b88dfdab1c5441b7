import Switchboard.Json.Writer
import Switchboard.Json.Lexeme
import Switchboard.Proofs.Text.Digits
/-!
Words of a JSON text are read as what they write: numerals, and texts in quotes.
-/
namespace Switchboard

namespace Numeral

/-- A numeral as JSON has it: there is a digit before the point, no zero stands before another digit there, and an
exponent has a digit. -/
structure WellFormed (n : Numeral) : Prop where
  whole : n.whole ≠ []
  zero : ∀ ds, n.whole = 0 :: ds → ds = []
  exponent : ∀ sign, n.exponent ≠ some (sign, [])

/-- The numeral of an integer is well formed. -/
theorem wellFormed_ofInt (i : Int) : (ofInt i).WellFormed where
  whole := Text.digits_ne_nil _
  zero _ h := Text.digits_eq_zero_cons h
  exponent _ h := nomatch h

end Numeral

namespace Json

open Switchboard.Text Utf8

/-- The text goes on with a comma or a closing bracket, or not at all. -/
inductive Stops : List Piece → Prop where
  | nil : Stops []
  | comma (rest : List Piece) : Stops (.char ',' :: rest)
  | bracket (rest : List Piece) : Stops (.char ']' :: rest)
  | brace (rest : List Piece) : Stops (.char '}' :: rest)

variable {n : Numeral} {rest : List Piece}

section Digits

/-- The pieces of digits. -/
def digitPieces (ds : List Digit) : List Piece := ds.map fun d => .char d.char

theorem takeDigits_digits (hrest : takeDigits rest = ([], rest)) (ds : List Digit) :
    takeDigits (digitPieces ds ++ rest) = (ds, rest) := by
  induction ds with
  | nil => exact hrest
  | cons d ds ih =>
    have htail : takeDigits (ds.map (fun d => Piece.char d.char) ++ rest) = (ds, rest) := ih
    simp [digitPieces, takeDigits, digit?_char, htail]

theorem takeDigits_of_stops (h : Stops rest) : takeDigits rest = ([], rest) := by
  cases h <;> rfl

/-- The pieces of a fraction. -/
def fractionPieces (ds : List Digit) : List Piece := if ds.isEmpty then [] else .char '.' :: digitPieces ds

/-- The pieces of an exponent. -/
def exponentPieces : Option (Bool × List Digit) → List Piece
  | none => []
  | some (negative, ds) => .char 'e' :: .char (if negative then '-' else '+') :: digitPieces ds

/-- The pieces of a numeral without its sign. -/
def unsignedPieces (n : Numeral) : List Piece :=
  digitPieces n.whole ++ (fractionPieces n.fraction ++ exponentPieces n.exponent)

theorem map_chars (n : Numeral) :
    n.chars.map Piece.char = (if n.negative then [.char '-'] else []) ++ unsignedPieces n := by
  rcases n with ⟨negative, whole, fraction, exponent⟩
  simp only [Numeral.chars, unsignedPieces, digitPieces, fractionPieces]
  cases negative <;> cases fraction <;> rcases exponent with _ | ⟨sign, ds⟩ <;>
    simp [exponentPieces, digitPieces, Function.comp_def]

theorem takeDigits_exponent (h : Stops rest) (e : Option (Bool × List Digit)) :
    takeDigits (exponentPieces e ++ rest) = ([], exponentPieces e ++ rest) := by
  rcases e with _ | ⟨sign, ds⟩
  · exact takeDigits_of_stops h
  · rfl

theorem takeDigits_fraction (h : Stops rest) (fraction : List Digit) (e : Option (Bool × List Digit)) :
    takeDigits (fractionPieces fraction ++ (exponentPieces e ++ rest)) =
      ([], fractionPieces fraction ++ (exponentPieces e ++ rest)) := by
  cases fraction with
  | nil => exact takeDigits_exponent h e
  | cons => rfl

/-- Digits are taken where one is needed. -/
theorem someDigits_digits (hrest : takeDigits rest = ([], rest)) {ds : List Digit} (h : ds ≠ []) :
    someDigits (digitPieces ds ++ rest) = .ok (ds, rest) := by
  unfold someDigits
  rw [takeDigits_digits hrest]
  cases ds with
  | nil => exact absurd rfl h
  | cons => rfl

theorem fractionDigits_fraction (h : Stops rest) (fraction : List Digit) (e : Option (Bool × List Digit)) :
    fractionDigits (fractionPieces fraction ++ (exponentPieces e ++ rest)) =
      .ok (fraction, exponentPieces e ++ rest) := by
  cases fraction with
  | nil =>
    rcases e with _ | ⟨sign, ds⟩
    · cases h <;> rfl
    · rfl
  | cons d ds => exact someDigits_digits (takeDigits_exponent h e) (List.cons_ne_nil d ds)

theorem exponentPart_exponent (h : Stops rest) {e : Option (Bool × List Digit)} (he : ∀ sign, e ≠ some (sign, [])) :
    exponentPart (exponentPieces e ++ rest) = .ok (e, rest) := by
  rcases e with _ | ⟨sign, ds⟩
  · cases h <;> rfl
  · have hds : ds ≠ [] := fun hnil => he sign (hnil ▸ rfl)
    have hdigits := someDigits_digits (takeDigits_of_stops h) hds
    cases sign <;> simp [exponentPieces, exponentPart, exponentDigits, hdigits, bind, Except.bind, pure, Except.pure]

/-- An exponent without digits is none. -/
theorem exponentPart_of_no_digit (h : Stops rest) (sign : Bool) :
    ∃ f, exponentPart (exponentPieces (some (sign, [])) ++ rest) = .error f := by
  cases sign <;> cases h <;> exact ⟨_, rfl⟩

theorem wholeDigits_digits (hrest : takeDigits rest = ([], rest)) {ds : List Digit} (hds : ds ≠ [])
    (hzero : ∀ tail, ds = 0 :: tail → tail = []) : wholeDigits (digitPieces ds ++ rest) = .ok (ds, rest) := by
  unfold wholeDigits
  rw [takeDigits_digits hrest]
  match ds with
  | [] => exact absurd rfl hds
  | [0] => rfl
  | 0 :: d :: tail => exact absurd (hzero _ rfl) (List.cons_ne_nil d tail)
  | ⟨k + 1, hk⟩ :: tail => rfl

/-- No digits, and a zero before other digits, are no number. -/
theorem exists_wholeDigits_eq_error (hrest : takeDigits rest = ([], rest)) {ds : List Digit}
    (hds : ¬(ds ≠ [] ∧ ∀ tail, ds = 0 :: tail → tail = [])) :
    ∃ f, wholeDigits (digitPieces ds ++ rest) = .error f := by
  unfold wholeDigits
  rw [takeDigits_digits hrest]
  match ds with
  | [] => exact ⟨_, rfl⟩
  | [0] => exact absurd ⟨List.cons_ne_nil _ _, fun _ h => (List.cons.inj h).2.symm⟩ hds
  | 0 :: d :: tail => exact ⟨_, rfl⟩
  | ⟨k + 1, hk⟩ :: tail =>
    exact absurd ⟨List.cons_ne_nil _ _, fun _ h => absurd (congrArg Fin.val (List.cons.inj h).1) (Nat.succ_ne_zero k)⟩ hds

/-- Without its sign a well-formed numeral is read as it is. -/
theorem unsigned_pieces (h : Stops rest) (hn : n.WellFormed) :
    unsigned n.negative (unsignedPieces n ++ rest) = .ok (n, rest) := by
  have hwhole := wholeDigits_digits (takeDigits_fraction h n.fraction n.exponent) hn.whole hn.zero
  simp [unsigned, unsignedPieces, hwhole, fractionDigits_fraction h, exponentPart_exponent h hn.exponent, bind,
    Except.bind, pure, Except.pure]

/-- What is read as a numeral without its sign is well formed. -/
theorem wellFormed_of_unsigned (h : Stops rest) {x : Numeral × List Piece}
    (hread : unsigned n.negative (unsignedPieces n ++ rest) = .ok x) : n.WellFormed := by
  simp only [unsigned, unsignedPieces, List.append_assoc] at hread
  by_cases hwhole : n.whole ≠ [] ∧ ∀ tail, n.whole = 0 :: tail → tail = []
  · rw [wholeDigits_digits (takeDigits_fraction h n.fraction n.exponent) hwhole.1 hwhole.2] at hread
    refine ⟨hwhole.1, hwhole.2, fun sign hsign => ?_⟩
    obtain ⟨f, hf⟩ := exponentPart_of_no_digit h sign
    simp [fractionDigits_fraction h, hsign, hf, bind, Except.bind] at hread
  · obtain ⟨f, hf⟩ := exists_wholeDigits_eq_error (takeDigits_fraction h n.fraction n.exponent) hwhole
    rw [hf] at hread
    cases hread

/-- The first piece of a numeral without its sign is no sign. -/
theorem numeral_unsignedPieces (h : Stops rest) (n : Numeral) :
    numeral (unsignedPieces n ++ rest) = unsigned false (unsignedPieces n ++ rest) := by
  rcases n with ⟨sign, whole, fraction, exponent⟩
  match whole, fraction, exponent with
  | d :: ds, fraction, exponent =>
    have hd : d.char ≠ '-' := (show ∀ d : Digit, d.char ≠ '-' by decide) d
    unfold numeral
    split
    case h_1 heq => exact absurd (Piece.char.inj (List.cons.inj heq).1) hd
    case h_2 => rfl
  | [], _ :: _, exponent => rfl
  | [], [], some (_, _) => rfl
  | [], [], none => cases h <;> rfl

/-- A numeral's sign is read first. -/
theorem numeral_chars (h : Stops rest) (n : Numeral) :
    numeral (n.chars.map .char ++ rest) = unsigned n.negative (unsignedPieces n ++ rest) := by
  rw [map_chars]
  cases hsign : n.negative with
  | true => rfl
  | false => exact numeral_unsignedPieces h n

/-- A well-formed numeral is read as it is. -/
theorem numeral_of_wellFormed (h : Stops rest) (hn : n.WellFormed) :
    numeral (n.chars.map .char ++ rest) = .ok (n, rest) := by
  rw [numeral_chars h, unsigned_pieces h hn]

/-- What is read as a numeral is well formed. -/
theorem wellFormed_of_numeral (h : Stops rest) {x : Numeral × List Piece}
    (hread : numeral (n.chars.map .char ++ rest) = .ok x) : n.WellFormed := by
  rw [numeral_chars h] at hread
  exact wellFormed_of_unsigned h hread

end Digits

section Strings

variable {cs : List Char}

theorem quoted_quote (q : Quoted) : quoted q (.char '"' :: rest) = .ok (q.close, rest) := by
  rw [quoted]

/-- A letter after a backslash stands for a character. -/
theorem quoted_escaped {letter c : Char} (hletter : escaped? letter = some c) (q : Quoted) :
    quoted q (.char '\\' :: .char letter :: rest) = quoted (q.push c) rest := by
  have hu : letter ≠ 'u' := by
    rintro rfl
    cases hletter
  simp [quoted, hu, hletter]

/-- A character that needs no escape stands for itself. -/
theorem quoted_plain {c : Char} (hquote : c ≠ '"') (hslash : c ≠ '\\') (hprintable : ¬c.toNat < 0x20) (q : Quoted) :
    quoted q (.char c :: rest) = quoted (q.push c) rest := by
  rw [quoted.eq_def]
  split
  case h_9 heq =>
    cases heq
    exact if_neg hprintable
  all_goals simp_all

/-- A character's code in four hexadecimal digits. -/
theorem quoted_unit {n : Nat} (hn : n < 0x20) (cs : List Char) :
    quoted (.held cs none false) (.char '\\' :: .char 'u' :: .char '0' :: .char '0' :: .char (hexChar (n / 16)) ::
      .char (hexChar (n % 16)) :: rest) = quoted (.held (Char.ofNat n :: cs) none false) rest := by
  have hzero : hexDigit? '0' = some 0 := by decide
  have hhigh := hexDigit?_hexChar (n := n / 16) (by omega)
  have hlow := hexDigit?_hexChar (n := n % 16) (by omega)
  have hunit : hexUnit? (.char '0') (.char '0') (.char (hexChar (n / 16))) (.char (hexChar (n % 16))) = some n := by
    simp [hexUnit?, hzero, hhigh, hlow]
    omega
  have hpush : (Quoted.held cs none false).pushUnit n = .held (Char.ofNat n :: cs) none false := by
    simp only [Quoted.pushUnit]
    rw [if_neg (by omega), if_neg (by omega)]
  rw [quoted, hunit]
  exact congrArg (quoted · rest) hpush

/-- The characters that write a character are read as that character. -/
theorem quoted_escape (c : Char) (cs : List Char) :
    quoted (.held cs none false) ((escape c).map .char ++ rest) = quoted (.held (c :: cs) none false) rest := by
  unfold escape
  split
  case h_8 hquote hslash _ _ _ _ _ =>
    split
    case isTrue hcontrol => simpa using quoted_unit hcontrol cs
    case isFalse hprintable => exact quoted_plain hquote hslash hprintable _
  all_goals exact quoted_escaped rfl _

theorem quoted_escapes (written cs : List Char) :
    quoted (.held cs none false) ((written.flatMap escape).map .char ++ rest) =
      quoted (.held (written.reverse ++ cs) none false) rest := by
  induction written generalizing cs with
  | nil => rfl
  | cons c written ih =>
    rw [List.flatMap_cons, List.map_append, List.append_assoc, quoted_escape, ih, List.reverse_cons, List.append_assoc]
    rfl

/-- A text in quotes is read as that text. -/
theorem string_quote (s : String) (rest : List Piece) :
    string ((s.toList.flatMap escape).map .char ++ .char '"' :: rest) = .ok (.ok s, rest) := by
  unfold string Quoted.empty
  rw [quoted_escapes, quoted_quote]
  simp [Quoted.close]

end Strings

end Json

end Switchboard
