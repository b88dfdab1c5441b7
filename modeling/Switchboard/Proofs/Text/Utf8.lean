import Switchboard.Text.Utf8
/-!
The octets of a text are cut into its characters again.
-/
namespace Switchboard.Utf8

theorem toNat_ofNat {n : Nat} (h : n < 256) : (UInt8.ofNat n).toNat = n := by
  simpa using Nat.mod_eq_of_lt h

theorem scan_of_begin {b : UInt8} {p : Partial} (hbegin : begin b = .inr p) (rest : Bytes) :
    scan none (b :: rest) = scan (some p) rest := by
  simp [scan, hbegin]

section

variable {taken : Bytes} {bits owed n : Nat} {low high : UInt8}

/-- The last octet of a character. -/
theorem scan_last (hn : n < 256) (hlow : low.toNat ≤ n) (hhigh : n ≤ high.toNat) (rest : Bytes) :
    scan (some ⟨taken, bits, 1, low, high⟩) (UInt8.ofNat n :: rest) =
      .char (Char.ofNat (bits * 64 + (n - 0x80))) :: scan none rest := by
  simp [scan, Partial.extend, UInt8.le_iff_toNat_le, toNat_ofNat hn, hlow, hhigh]

/-- An octet in the middle of a character. -/
theorem scan_middle (hn : n < 256) (hlow : low.toNat ≤ n) (hhigh : n ≤ high.toNat) (rest : Bytes) :
    scan (some ⟨taken, bits, owed + 2, low, high⟩) (UInt8.ofNat n :: rest) =
      scan (some ⟨taken ++ [UInt8.ofNat n], bits * 64 + (n - 0x80), owed + 1, 0x80, 0xBF⟩) rest := by
  simp [scan, Partial.extend, UInt8.le_iff_toNat_le, toNat_ofNat hn, hlow, hhigh]

end

/-- What an octet of a given number begins. -/
theorem begin_ofNat {n : Nat} (h : n < 256) :
    begin (UInt8.ofNat n) =
      if n < 0x80 then .inl (.char (Char.ofNat n))
      else if n < 0xC2 then .inl (.broken [UInt8.ofNat n])
      else if n < 0xE0 then .inr ⟨[UInt8.ofNat n], n - 0xC0, 1, 0x80, 0xBF⟩
      else if n < 0xF0 then
        .inr ⟨[UInt8.ofNat n], n - 0xE0, 2, if n = 0xE0 then 0xA0 else 0x80, if n = 0xED then 0x9F else 0xBF⟩
      else if n < 0xF5 then
        .inr ⟨[UInt8.ofNat n], n - 0xF0, 3, if n = 0xF0 then 0x90 else 0x80, if n = 0xF4 then 0x8F else 0xBF⟩
      else .inl (.broken [UInt8.ofNat n]) := by
  simp only [begin, UInt8.lt_iff_toNat_lt, ← UInt8.toNat_inj, toNat_ofNat h, UInt8.reduceToNat]

/-- The octets of a character are cut off as that character. -/
theorem scan_char (c : Char) (rest : Bytes) : scan none (String.utf8EncodeChar c ++ rest) = .char c :: scan none rest := by
  obtain ⟨v, hv⟩ : ∃ v, v = c.val.toNat := ⟨_, rfl⟩
  have hvalid : v < 0xD800 ∨ 0xDFFF < v ∧ v < 0x110000 := hv ▸ c.valid
  have hchar : Char.ofNat v = c := hv ▸ Char.ofNat_toNat c
  simp only [String.utf8EncodeChar, ← hv]
  split
  case isTrue hone =>
    have hbegin := begin_ofNat (n := v) (by omega)
    simp [scan, hbegin, hchar, show v < 128 by omega]
  split
  case isTrue htwo =>
    have hbegin := begin_ofNat (n := v / 64 % 32 + 192) (by omega)
    rw [if_neg (by omega), if_neg (by omega), if_pos (by omega)] at hbegin
    have hbits : (v / 64 % 32 + 192 - 0xC0) * 64 + (v % 64 + 128 - 0x80) = v := by omega
    simp only [List.cons_append, List.nil_append]
    rw [scan_of_begin hbegin, scan_last (by omega) (by simp) (by simp; omega), hbits, hchar]
  split
  case isTrue hthree =>
    have hbegin := begin_ofNat (n := v / 4096 % 16 + 224) (by omega)
    rw [if_neg (by omega), if_neg (by omega), if_neg (by omega), if_pos (by omega)] at hbegin
    have hbits : ((v / 4096 % 16 + 224 - 0xE0) * 64 + (v / 64 % 64 + 128 - 0x80)) * 64 + (v % 64 + 128 - 0x80) = v := by
      omega
    -- after the first octets E0 and ED not every second octet is allowed
    have hlow : (if v / 4096 % 16 + 224 = 0xE0 then (0xA0 : UInt8) else 0x80).toNat ≤ v / 64 % 64 + 128 := by
      split
      · simp only [UInt8.reduceToNat]
        omega
      · simp
    have hhigh : v / 64 % 64 + 128 ≤ (if v / 4096 % 16 + 224 = 0xED then (0x9F : UInt8) else 0xBF).toNat := by
      split <;> simp only [UInt8.reduceToNat] <;> omega
    simp only [List.cons_append, List.nil_append]
    rw [scan_of_begin hbegin, scan_middle (by omega) hlow hhigh,
      scan_last (by omega) (by simp) (by simp; omega), hbits, hchar]
  case isFalse hfour =>
    have hbegin := begin_ofNat (n := v / 262144 % 8 + 240) (by omega)
    rw [if_neg (by omega), if_neg (by omega), if_neg (by omega), if_neg (by omega), if_pos (by omega)] at hbegin
    have hbits : (((v / 262144 % 8 + 240 - 0xF0) * 64 + (v / 4096 % 64 + 128 - 0x80)) * 64 +
        (v / 64 % 64 + 128 - 0x80)) * 64 + (v % 64 + 128 - 0x80) = v := by
      omega
    -- after the first octets F0 and F4 not every second octet is allowed
    have hlow : (if v / 262144 % 8 + 240 = 0xF0 then (0x90 : UInt8) else 0x80).toNat ≤ v / 4096 % 64 + 128 := by
      split
      · simp only [UInt8.reduceToNat]
        omega
      · simp
    have hhigh : v / 4096 % 64 + 128 ≤ (if v / 262144 % 8 + 240 = 0xF4 then (0x8F : UInt8) else 0xBF).toNat := by
      split <;> simp only [UInt8.reduceToNat] <;> omega
    simp only [List.cons_append, List.nil_append]
    rw [scan_of_begin hbegin, scan_middle (by omega) hlow hhigh,
      scan_middle (by omega) (by simp) (by simp; omega), scan_last (by omega) (by simp) (by simp; omega), hbits, hchar]

/-- The pieces of a text's octets are its characters. -/
theorem pieces_encode (s : String) : pieces (encode s) = s.toList.map .char := by
  suffices ∀ cs : List Char, scan none (cs.flatMap String.utf8EncodeChar) = cs.map .char from this s.toList
  intro cs
  induction cs with
  | nil => rfl
  | cons c cs ih => rw [List.flatMap_cons, scan_char, ih, List.map_cons]

/-- No character takes more than four octets. -/
theorem length_encode_le (s : String) : (encode s).length ≤ 4 * s.toList.length := by
  suffices ∀ cs : List Char, (cs.flatMap String.utf8EncodeChar).length ≤ 4 * cs.length from this s.toList
  intro cs
  induction cs with
  | nil => simp
  | cons c cs ih =>
    have hsize : (String.utf8EncodeChar c).length ≤ 4 := by
      rw [String.length_utf8EncodeChar]
      exact Char.utf8Size_le_four c
    rw [List.flatMap_cons, List.length_append, List.length_cons]
    omega

end Switchboard.Utf8
