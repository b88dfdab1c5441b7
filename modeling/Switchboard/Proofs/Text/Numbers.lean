import Mathlib.Data.List.TakeWhile
import Switchboard.Text.Blank
import Switchboard.Proofs.Text.Digits
/-!
Numbers as people write them: with blank space around them, perhaps with a sign, and with zeros in front. What is read
as a number is exactly what spells one.
-/
namespace Switchboard.Text

variable {cs core : List Char} {ds : List Digit} {n : Nat} {i : Int}

/-- A text is something with nothing but blank space around it. -/
def Padded (cs core : List Char) : Prop :=
  ∃ before after, cs = before ++ core ++ after ∧ before.all isBlank ∧ after.all isBlank

/-- What trimming takes away is blank. -/
theorem padded_trimChars (cs : List Char) : Padded cs (trimChars cs) := by
  have hfront := List.takeWhile_append_dropWhile (p := isBlank) (l := cs)
  have hend := List.takeWhile_append_dropWhile (p := isBlank) (l := (cs.dropWhile isBlank).reverse)
  refine ⟨cs.takeWhile isBlank, ((cs.dropWhile isBlank).reverse.takeWhile isBlank).reverse, ?_, List.all_takeWhile, ?_⟩
  · rw [trimChars, dropEnd, List.append_assoc, ← List.reverse_append, hend, List.reverse_reverse, hfront]
  · rw [List.all_reverse]
    exact List.all_takeWhile

/-- Nothing blank stands at either end of a text. -/
structure Bare (cs : List Char) : Prop where
  head : ∀ c ∈ cs.head?, isBlank c = false
  last : ∀ c ∈ cs.getLast?, isBlank c = false

theorem bare_of_isBlank (h : ∀ c ∈ cs, isBlank c = false) : Bare cs :=
  ⟨fun c hc => h c (List.mem_of_head? hc), fun c hc => h c (List.mem_of_getLast? hc)⟩

theorem dropWhile_isBlank (hhead : ∀ c ∈ core.head?, isBlank c = false) : core.dropWhile isBlank = core := by
  cases core with
  | nil => rfl
  | cons c rest => exact List.dropWhile_cons_of_neg (by simp [hhead c rfl])

/-- What has no blank space at its ends is what trimming leaves of it. -/
theorem Padded.trimChars_eq (h : Padded cs core) (hcore : Bare core) : trimChars cs = core := by
  obtain ⟨before, after, rfl, hbefore, hafter⟩ := h
  have hfront : (before ++ core ++ after).dropWhile isBlank = core ++ after ∨
      (before ++ core ++ after).dropWhile isBlank = core := by
    rw [List.append_assoc, List.dropWhile_append_of_pos (by simpa using hbefore), List.dropWhile_append,
      dropWhile_isBlank hcore.head]
    split
    case isTrue hempty =>
      rw [List.dropWhile_eq_nil_iff.2 (by simpa using hafter)]
      exact .inr (List.isEmpty_iff.1 hempty).symm
    case isFalse => exact .inl rfl
  have hback : dropEnd isBlank core = core := by
    rw [dropEnd, dropWhile_isBlank (by simpa using hcore.last), List.reverse_reverse]
  rw [trimChars]
  obtain h | h := hfront
  · rw [h, dropEnd, List.reverse_append, List.dropWhile_append_of_pos (by simpa using hafter)]
    exact hback
  · rw [h, hback]

/-- Trimming leaves nothing blank at either end. -/
theorem bare_trimChars (cs : List Char) : Bare (trimChars cs) where
  head c hc := by
    have hfront := List.head?_dropWhile_not isBlank cs
    obtain ⟨after, hafter⟩ : trimChars cs <+: cs.dropWhile isBlank := by
      rw [← List.reverse_suffix, trimChars, dropEnd, List.reverse_reverse]
      exact List.dropWhile_suffix _
    have hhead : (cs.dropWhile isBlank).head? = some c := by rw [← hafter, List.head?_append, hc, Option.some_or]
    simpa [hhead] using hfront
  last c hc := by
    have hend := List.head?_dropWhile_not isBlank (cs.dropWhile isBlank).reverse
    have hhead : ((cs.dropWhile isBlank).reverse.dropWhile isBlank).head? = some c := by
      simpa [trimChars, dropEnd] using hc
    simpa [hhead] using hend

/-- What trimming leaves is not blank, unless it is nothing. -/
theorem eq_nil_of_isBlank_trimChars (h : (trimChars cs).all isBlank) : trimChars cs = [] := by
  cases hleft : trimChars cs with
  | nil => rfl
  | cons c rest =>
    have hbare := (bare_trimChars cs).head c (by simp [hleft])
    simp [hleft, hbare] at h

/-- The texts of a number without a sign, or with a plus sign. -/
inductive SpellsNat : List Char → Nat → Prop where
  | plain {ds : List Digit} (h : ds ≠ []) : SpellsNat (ds.map Digit.char) (ofDigits ds)
  | plus {ds : List Digit} (h : ds ≠ []) : SpellsNat ('+' :: ds.map Digit.char) (ofDigits ds)

/-- The texts of an integer: those of a number, or digits after a minus sign. -/
inductive SpellsInt : List Char → Int → Prop where
  | natural {cs : List Char} {n : Nat} (h : SpellsNat cs n) : SpellsInt cs n
  | minus {ds : List Digit} (h : ds ≠ []) : SpellsInt ('-' :: ds.map Digit.char) (-(ofDigits ds : Int))

theorem isBlank_digit : ∀ d : Digit, isBlank d.char = false := by decide

theorem SpellsNat.isBlank (h : SpellsNat cs n) : ∀ c ∈ cs, isBlank c = false := by
  cases h with
  | plain => simpa using fun d _ => isBlank_digit d
  | plus => simpa using ⟨by decide, fun d _ => isBlank_digit d⟩

theorem SpellsInt.isBlank (h : SpellsInt cs i) : ∀ c ∈ cs, isBlank c = false := by
  cases h with
  | natural h => exact h.isBlank
  | minus => simpa using ⟨by decide, fun d _ => isBlank_digit d⟩

theorem digit?_eq_some {c : Char} {d : Digit} : digit? c = some d ↔ c = d.char := by
  refine ⟨fun h => ?_, fun h => h ▸ digit?_char d⟩
  unfold digit? at h
  split at h
  case isTrue hc =>
    cases h
    have hcode : 48 + (c.toNat - 48) = c.toNat := by omega
    simp [Digit.char, hcode]
  case isFalse => cases h

theorem mapM_digit? : cs.mapM digit? = some ds ↔ cs = ds.map Digit.char := by
  induction cs generalizing ds with
  | nil => cases ds <;> simp
  | cons c rest ih =>
    cases ds with
    | nil => simp [List.mapM_cons, Option.bind_eq_bind, Option.bind_eq_some_iff]
    | cons d ds => simp [List.mapM_cons, Option.bind_eq_bind, Option.bind_eq_some_iff, digit?_eq_some, ih]

theorem digitList?_eq_some : digitList? cs = some ds ↔ ds ≠ [] ∧ cs = ds.map Digit.char := by
  unfold digitList?
  split
  case isTrue hempty =>
    simp only [reduceCtorEq, false_iff, not_and]
    rintro hds rfl
    exact hds (by simpa using hempty)
  case isFalse hfilled =>
    rw [mapM_digit?]
    refine ⟨fun h => ⟨?_, h⟩, And.right⟩
    rintro rfl
    exact hfilled (by simp [h])

/-- A digit is no sign. -/
theorem char_ne_sign : ∀ d : Digit, d.char ≠ '+' ∧ d.char ≠ '-' := by decide

theorem readNat?_eq_some : readNat? cs = some n ↔ SpellsNat cs n := by
  constructor
  · intro h
    unfold readNat? at h
    split at h
    all_goals
      obtain ⟨ds, hds, rfl⟩ := Option.map_eq_some_iff.1 h
      obtain ⟨hne, rfl⟩ := digitList?_eq_some.1 hds
    · exact .plus hne
    · exact .plain hne
  · rintro (@⟨ds, hne⟩ | @⟨ds, hne⟩)
    · unfold readNat?
      split
      case h_1 cs heq =>
        obtain ⟨d, rest, rfl⟩ := List.exists_cons_of_ne_nil hne
        exact absurd (List.cons.inj heq).1 (char_ne_sign d).1
      case h_2 => simp [digitList?_eq_some.2 ⟨hne, rfl⟩]
    · simp [readNat?, digitList?_eq_some.2 ⟨hne, rfl⟩]

theorem SpellsNat.no_minus (h : SpellsNat cs n) (rest : List Char) : cs ≠ '-' :: rest := by
  rintro rfl
  generalize hcs : '-' :: rest = cs at h
  cases h with
  | plain hne =>
    obtain ⟨d, ds, rfl⟩ := List.exists_cons_of_ne_nil hne
    exact (char_ne_sign d).2 (List.cons.inj hcs).1.symm
  | plus => exact absurd (List.cons.inj hcs).1 (by decide)

theorem readInt?_eq_some : readInt? cs = some i ↔ SpellsInt cs i := by
  constructor
  · intro h
    unfold readInt? at h
    split at h
    case h_1 =>
      obtain ⟨ds, hds, rfl⟩ := Option.map_eq_some_iff.1 h
      obtain ⟨hne, rfl⟩ := digitList?_eq_some.1 hds
      exact .minus hne
    case h_2 =>
      obtain ⟨n, hn, rfl⟩ := Option.map_eq_some_iff.1 h
      exact .natural (readNat?_eq_some.1 hn)
  · rintro (hspells | hne)
    · unfold readInt?
      split
      case h_1 => exact absurd rfl (hspells.no_minus _)
      case h_2 => simp [readNat?_eq_some.2 hspells]
    · simp [readInt?, digitList?_eq_some.2 ⟨hne, rfl⟩]

/-- A number is read from a text if the text spells it, between any blank space. -/
theorem readNat?_trimChars : readNat? (trimChars cs) = some n ↔ ∃ core, Padded cs core ∧ SpellsNat core n := by
  rw [readNat?_eq_some]
  refine ⟨fun h => ⟨_, padded_trimChars cs, h⟩, ?_⟩
  rintro ⟨core, hpadded, h⟩
  rwa [hpadded.trimChars_eq (bare_of_isBlank h.isBlank)]

/-- An integer is read from a text if the text spells it, between any blank space. -/
theorem readInt?_trimChars : readInt? (trimChars cs) = some i ↔ ∃ core, Padded cs core ∧ SpellsInt core i := by
  rw [readInt?_eq_some]
  refine ⟨fun h => ⟨_, padded_trimChars cs, h⟩, ?_⟩
  rintro ⟨core, hpadded, h⟩
  rwa [hpadded.trimChars_eq (bare_of_isBlank h.isBlank)]

end Switchboard.Text
