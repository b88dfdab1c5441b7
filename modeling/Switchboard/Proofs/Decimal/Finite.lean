import Switchboard.Decimal.Reading
/-!
The float that a numeral writes is a real number: too large a numeral has none.
-/
namespace Switchboard

section Power

theorem twoPow_add (a b : Nat) : twoPow (a + b) = twoPow a * twoPow b := Nat.pow_add 2 a b

theorem twoPow_le {a b : Nat} (h : a ≤ b) : twoPow a ≤ twoPow b := Nat.pow_le_pow_right (by decide) h

variable {num den a b : Nat} {e : Int}

/-- Comparing a quotient with a power of two, the exponent given as a difference. -/
theorem reachesTwoPow_sub (num den a b : Nat) :
    reachesTwoPow num den ((b : Int) - a) = true ↔ den * twoPow b ≤ num * twoPow a := by
  unfold reachesTwoPow
  split
  case isTrue h =>
    have hb : twoPow b = twoPow ((b : Int) - a).toNat * twoPow a := by
      rw [← twoPow_add]
      congr 1
      omega
    rw [decide_eq_true_iff, hb, ← Nat.mul_assoc]
    exact (Nat.mul_le_mul_right_iff (twoPow_pos a)).symm
  case isFalse h =>
    have ha : twoPow a = twoPow (-((b : Int) - a)).toNat * twoPow b := by
      rw [← twoPow_add]
      congr 1
      omega
    rw [decide_eq_true_iff, ha, ← Nat.mul_assoc]
    exact (Nat.mul_le_mul_right_iff (twoPow_pos b)).symm

/-- What reaches a power of two reaches every smaller one. -/
theorem le_of_reachesTwoPow (h : reachesTwoPow num den e = true) (hab : (b : Int) - a ≤ e) :
    den * twoPow b ≤ num * twoPow a := by
  obtain ⟨c, rfl⟩ : ∃ c : Nat, e = ((b + c : Nat) : Int) - a := ⟨(e - (b - a)).toNat, by omega⟩
  calc den * twoPow b ≤ den * twoPow (b + c) := Nat.mul_le_mul_left den (twoPow_le (by omega))
    _ ≤ num * twoPow a := (reachesTwoPow_sub num den a (b + c)).1 h

theorem lt_of_not_reachesTwoPow (h : reachesTwoPow num den e = false) (hab : e ≤ (b : Int) - a) :
    num * twoPow a < den * twoPow b := by
  refine Nat.lt_of_not_le fun hle => ?_
  have hreach := (reachesTwoPow_sub num den a b).2 hle
  obtain ⟨c, d, rfl⟩ : ∃ c d : Nat, e = (d : Int) - c := ⟨(-e).toNat, e.toNat, by omega⟩
  rw [(reachesTwoPow_sub num den c d).2 (le_of_reachesTwoPow hreach hab)] at h
  cases h

/-- The logarithm is the exponent of the largest power of two that a quotient reaches. -/
theorem floorLog2_spec (hnum : num ≠ 0) (hden : den ≠ 0) :
    reachesTwoPow num den (floorLog2 num den) = true ∧ reachesTwoPow num den (floorLog2 num den + 1) = false := by
  have hnumLow : twoPow num.log2 ≤ num := Nat.log2_self_le hnum
  have hnumHigh : num < twoPow (num.log2 + 1) := Nat.lt_log2_self
  have hdenLow : twoPow den.log2 ≤ den := Nat.log2_self_le hden
  have hdenHigh : den < twoPow (den.log2 + 1) := Nat.lt_log2_self
  have hbelow : reachesTwoPow num den ((num.log2 : Int) - den.log2 - 1) = true := by
    rw [show (num.log2 : Int) - den.log2 - 1 = (num.log2 : Nat) - (den.log2 + 1 : Nat) by omega, reachesTwoPow_sub]
    calc den * twoPow num.log2 ≤ twoPow (den.log2 + 1) * num := Nat.mul_le_mul (Nat.le_of_lt hdenHigh) hnumLow
      _ = num * twoPow (den.log2 + 1) := Nat.mul_comm _ _
  have habove : reachesTwoPow num den ((num.log2 : Int) - den.log2 + 1) = false := by
    rw [← Bool.not_eq_true,
      show (num.log2 : Int) - den.log2 + 1 = (num.log2 + 1 : Nat) - (den.log2 : Nat) by omega, reachesTwoPow_sub]
    refine Nat.not_le.2 ?_
    calc num * twoPow den.log2 < twoPow (num.log2 + 1) * twoPow den.log2 :=
          Nat.mul_lt_mul_of_pos_right hnumHigh (twoPow_pos _)
      _ ≤ twoPow (num.log2 + 1) * den := Nat.mul_le_mul_left _ hdenLow
      _ = den * twoPow (num.log2 + 1) := Nat.mul_comm _ _
  simp only [floorLog2]
  split
  case isTrue h => exact ⟨h, habove⟩
  case isFalse h => exact ⟨hbelow, by simpa using h⟩

end Power

namespace FloatFormat

theorem roundHalfEven_le {num den k : Nat} (h : num < den * k) : roundHalfEven num den ≤ k := by
  have hdiv : num / den < k := Nat.div_lt_of_lt_mul h
  simp only [roundHalfEven]
  split <;> omega

theorem compose_le_infinity (f : FloatFormat) (m : Nat) (q : Int) : f.compose m q ≤ f.infinity :=
  Nat.min_le_right _ _

theorem nearest_le_infinity (f : FloatFormat) (num den : Nat) : f.nearest num den ≤ f.infinity := by
  simp only [nearest]
  split
  · exact Nat.zero_le _
  · split <;> exact f.compose_le_infinity _ _

/-- What is rounded with all its bits and not too large an exponent is not infinite. -/
theorem compose_double_lt {m : Nat} {q : Int} (hm : m ≤ twoPow 53) (hq : q ≤ 970) :
    double.compose m q < double.infinity := by
  have hlow : double.lowest = -1074 := by decide
  have hshift : (q - double.lowest).toNat ≤ 2044 := by omega
  have hsum : (q - double.lowest).toNat * twoPow double.fractionBits + m < double.infinity := by
    calc (q - double.lowest).toNat * twoPow double.fractionBits + m
        ≤ 2044 * twoPow double.fractionBits + twoPow 53 := Nat.add_le_add (Nat.mul_le_mul_right _ hshift) hm
      _ < double.infinity := by decide
  exact Nat.lt_of_le_of_lt (Nat.min_le_left _ _) hsum

/-- A quotient below `2 ^ 1023` is not rounded to infinity. -/
theorem nearest_double_lt {num den : Nat} (h : num < den * twoPow 1023) : double.nearest num den < double.infinity := by
  have hden : den ≠ 0 := by
    rintro rfl
    simp at h
  simp only [nearest]
  split
  case isTrue => decide
  case isFalse hnum =>
    obtain ⟨hreach, hover⟩ := floorLog2_spec hnum hden
    have hlog : floorLog2 num den ≤ 1022 := by
      refine Int.not_lt.1 fun hlarge => ?_
      have hle := le_of_reachesTwoPow (a := 0) (b := 1023) hreach (by omega)
      rw [show twoPow 0 = 1 from rfl, Nat.mul_one] at hle
      omega
    have hfraction : double.fractionBits = 52 := rfl
    have hlow : double.lowest = -1074 := by decide
    rw [hfraction, hlow]
    obtain ⟨q, hq⟩ : ∃ q, q = max (floorLog2 num den - (52 : Nat)) (-1074) := ⟨_, rfl⟩
    rw [← hq]
    split
    case isTrue hnonneg =>
      refine compose_double_lt (roundHalfEven_le ?_) (by omega)
      have hlt := lt_of_not_reachesTwoPow (a := 0) (b := q.toNat + 53) hover (by omega)
      rw [twoPow_add, ← Nat.mul_assoc, show twoPow 0 = 1 from rfl, Nat.mul_one] at hlt
      exact hlt
    case isFalse hneg =>
      refine compose_double_lt (roundHalfEven_le ?_) (by omega)
      exact lt_of_not_reachesTwoPow (a := (-q).toNat) (b := 53) hover (by omega)

/-- The parts of a finite 64-bit number. -/
theorem bounds_of_kind {bits m : Nat} {q : Int} {negative : Bool} (h : double.kind bits = .finite negative m q) :
    m < twoPow 53 ∧ q ≤ 971 := by
  have hfraction : double.fractionBits = 52 := rfl
  have hlow : double.lowest = -1074 := by decide
  have hinfinity : double.infinity = 2047 * twoPow 52 := by decide
  have hmod := Nat.mod_lt (bits % double.signBit) (twoPow_pos 52)
  have hhidden : twoPow 53 = twoPow 52 + twoPow 52 := by decide
  simp only [kind, hfraction, hlow] at h
  split at h
  case isTrue => cases h
  case isFalse hfinite =>
    split at h
    case isTrue => cases h
    case isFalse hnumber =>
      have hexponent : bits % double.signBit / twoPow 52 < 2047 := Nat.div_lt_of_lt_mul (by
        rw [Nat.mul_comm, ← hinfinity]
        omega)
      split at h <;> cases h <;> constructor <;> omega

/-- A number below infinity is finite. -/
theorem exists_kind_eq_finite {bits : Nat} (h : bits % double.signBit < double.infinity) :
    ∃ negative m q, double.kind bits = .finite negative m q := by
  simp only [kind]
  rw [if_neg (by omega), if_neg (by omega)]
  split <;> exact ⟨_, _, _, rfl⟩

end FloatFormat

/-- A finite number with all its bits before the point or few after it. -/
def FloatKind.isWide : FloatKind → Bool
  | .finite _ m q => decide (twoPow 52 ≤ m) && decide (-51 ≤ q)
  | _ => false

namespace Double

open FloatFormat

/-- All powers of ten that 64 bits can hold are wide. -/
theorem isWide_tenPow : ∀ k < 309, 1 ≤ k → (double.kind (double.nearest (tenPow k) 1)).isWide = true := by
  decide +kernel

/-- What is divided by a power of ten is not rounded to infinity. -/
theorem overTenPow_lt {k : Nat} (hlow : 1 ≤ k) (hhigh : k < 309) (magnitude : Nat) :
    overTenPow magnitude k < double.infinity := by
  have hwide := isWide_tenPow k hhigh hlow
  unfold overTenPow
  split
  case h_2 => decide
  case h_1 m q n' m' q' hkind hten =>
    obtain ⟨hm, hq⟩ := bounds_of_kind hkind
    obtain ⟨hm', hq'⟩ : twoPow 52 ≤ m' ∧ -51 ≤ q' := by simpa [hten, FloatKind.isWide] using hwide
    dsimp only
    split
    case isTrue hshift =>
      have hpower : twoPow (q - q').toNat ≤ twoPow 1022 := twoPow_le (by omega)
      refine nearest_double_lt ?_
      calc m * twoPow (q - q').toNat < twoPow 53 * twoPow 1022 :=
            Nat.mul_lt_mul_of_lt_of_le hm hpower (twoPow_pos _)
        _ = twoPow 52 * twoPow 1023 := by rw [← twoPow_add, ← twoPow_add]
        _ ≤ m' * twoPow 1023 := Nat.mul_le_mul_right _ hm'
    case isFalse hshift =>
      refine nearest_double_lt ?_
      calc m < twoPow 53 := hm
        _ ≤ twoPow 52 * twoPow 1023 := by
            rw [← twoPow_add]
            exact twoPow_le (by decide)
        _ ≤ m' * twoPow (-(q - q')).toNat * twoPow 1023 :=
            Nat.mul_le_mul_right _ (Nat.le_trans hm' (Nat.le_mul_of_pos_right _ (twoPow_pos _)))

theorem timesTenPow_lt {magnitude k product : Nat} (h : timesTenPow magnitude k = some product) :
    product < double.infinity := by
  unfold timesTenPow at h
  split at h
  case h_2 => cases h
  case h_1 m q _ m' q' _ _ =>
    simp only at h
    split at h
    case isTrue => cases h
    case isFalse hfinite =>
      cases h
      refine Nat.lt_of_le_of_ne ?_ hfinite
      simp only [nearestScaled]
      split <;> exact nearest_le_infinity _ _ _

/-- Scaling never gives infinity. -/
theorem scale_lt {magnitude result : Nat} {e : Int} (h : scale magnitude e = some result) : result < double.infinity := by
  fun_induction scale magnitude e with
  | case1 e hlow =>
    cases h
    decide
  | case2 magnitude e hlow hne ih => exact ih h
  | case3 magnitude e hhigh hneg =>
    cases h
    exact overTenPow_lt (by omega) (by omega) magnitude
  | case4 => exact timesTenPow_lt h
  | case5 =>
    cases h
    decide
  | case6 => cases h

theorem exists_numeral_ofMagnitude {magnitude : Nat} (h : magnitude < double.infinity) (negative : Bool) :
    ∃ n, (ofMagnitude negative magnitude).numeral? = some n := by
  have hmod : (ofMagnitude negative magnitude).bits.toNat % double.signBit = magnitude := by
    have hinfinity : double.infinity = 9218868437227405312 := by decide
    have hsign : double.signBit = 9223372036854775808 := by decide
    cases negative <;> simp only [ofMagnitude, hsign, UInt64.toNat_ofNat'] <;> simp <;> omega
  have hfinite : (ofMagnitude negative magnitude).bits.toNat % double.signBit < double.infinity := by omega
  obtain ⟨sign, m, q, hkind⟩ := exists_kind_eq_finite hfinite
  exact ⟨_, by rw [numeral?, kind, hkind]⟩

end Double

/-- What a numeral writes is a real number. -/
theorem Numeral.exists_numeral_of_double? {n : Numeral} {d : Double} (h : n.double? = some d) :
    ∃ n', d.numeral? = some n' := by
  simp only [Numeral.double?] at h
  obtain ⟨magnitude, hmagnitude, rfl⟩ := Option.map_eq_some_iff.1 h
  refine Double.exists_numeral_ofMagnitude ?_ n.negative
  split at hmagnitude
  case h_1 => exact Double.scale_lt hmagnitude
  case h_2 =>
    split at hmagnitude
    case isTrue =>
      split at hmagnitude <;> cases hmagnitude
      decide
    case isFalse => exact Double.scale_lt hmagnitude

end Switchboard
