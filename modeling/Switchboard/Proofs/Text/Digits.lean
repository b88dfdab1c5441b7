import Switchboard.Decimal.Power
import Switchboard.Text.Digits
/-!
Digits are read as what they write. A number is written without leading zeros.
-/
namespace Switchboard.Text

theorem digit?_char : ∀ d : Digit, digit? d.char = some d := by decide

theorem hexDigit?_hexChar {n : Nat} (h : n < 16) : hexDigit? (hexChar n) = some n :=
  (show ∀ n < 16, hexDigit? (hexChar n) = some n by decide) n h

theorem ofDigits_append (ds : List Digit) (d : Digit) : ofDigits (ds ++ [d]) = ofDigits ds * 10 + d.val := by
  simp [ofDigits, ofDigitsAfter]

@[simp] theorem digitsUp_zero : digitsUp 0 = [] := by
  rw [digitsUp, dif_pos rfl]

theorem digitsUp_of_pos {n : Nat} (h : n ≠ 0) : digitsUp n = ⟨n % 10, Nat.mod_lt n (by decide)⟩ :: digitsUp (n / 10) := by
  rw [digitsUp, dif_neg h]

theorem ofDigits_digitsUp (n : Nat) : ofDigits (digitsUp n).reverse = n := by
  induction n using Nat.strongRecOn with
  | ind n ih =>
    by_cases h : n = 0
    · subst h
      simp [ofDigits, ofDigitsAfter]
    · rw [digitsUp_of_pos h, List.reverse_cons, ofDigits_append, ih (n / 10) (by omega)]
      exact Nat.div_add_mod' n 10

/-- The digits of a number spell it. -/
theorem ofDigits_digits (n : Nat) : ofDigits (digits n) = n := by
  unfold digits
  split
  case isTrue h =>
    subst h
    rfl
  case isFalse => exact ofDigits_digitsUp n

/-- The last digit going up, which is the first one of the number, is not zero. -/
theorem getLast?_digitsUp {n : Nat} {d : Digit} (hd : d ∈ (digitsUp n).getLast?) : d ≠ 0 := by
  induction n using Nat.strongRecOn with
  | ind n ih =>
    by_cases h : n = 0
    · subst h
      simp at hd
    · rw [digitsUp_of_pos h] at hd
      by_cases hrest : n / 10 = 0
      · rw [hrest, digitsUp_zero] at hd
        obtain rfl : _ = d := by simpa using hd
        rw [Ne, Fin.ext_iff]
        show n % 10 ≠ 0
        omega
      · refine ih (n / 10) (by omega) ?_
        rw [digitsUp_of_pos hrest] at hd ⊢
        simpa using hd

theorem digits_ne_nil (n : Nat) : digits n ≠ [] := by
  unfold digits
  split
  case isTrue => simp
  case isFalse h => simp [digitsUp_of_pos h]

/-- A number below a power of ten has no more digits than the power says. -/
theorem length_digitsUp_le {n k : Nat} (h : n < tenPow k) : (digitsUp n).length ≤ k := by
  induction k generalizing n with
  | zero =>
    obtain rfl : n = 0 := Nat.lt_one_iff.1 h
    simp
  | succ k ih =>
    by_cases hn : n = 0
    · simp [hn]
    · have hstep : n < 10 * tenPow k := Nat.mul_comm _ _ ▸ h
      rw [digitsUp_of_pos hn, List.length_cons]
      exact Nat.succ_le_succ (ih (Nat.div_lt_of_lt_mul hstep))

theorem length_digits_le {n k : Nat} (h : n < tenPow (k + 1)) : (digits n).length ≤ k + 1 := by
  unfold digits
  split
  · simp
  · simpa using length_digitsUp_le h

/-- A number does not begin with a zero, unless it is zero. -/
theorem digits_eq_zero_cons {n : Nat} {ds : List Digit} (h : digits n = 0 :: ds) : ds = [] := by
  unfold digits at h
  split at h
  case isTrue => exact (List.cons.inj h).2.symm
  case isFalse =>
    have hlast : (0 : Digit) ∈ (digitsUp n).getLast? := by
      rw [← List.head?_reverse, h]
      rfl
    exact absurd rfl (getLast?_digitsUp hlast)

end Switchboard.Text
