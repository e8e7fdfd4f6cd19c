/-
# Escapes by code unit

Any character of a string can be written as an escape with four hexadecimal digits,
and one beyond the first plane as two of them. Such an escape is read back as the
character.
-/

import Commmon.Lib.Json

set_option autoImplicit false

namespace Json

/-- Upper-case hexadecimal digits of a code unit. -/
def hexUnit (n : ℕ) : List Char :=
  [(n / 4096 % 16).digitChar.toUpper, (n / 256 % 16).digitChar.toUpper,
    (n / 16 % 16).digitChar.toUpper, (n % 16).digitChar.toUpper]

/-- The escape of a character, or of its two surrogates. -/
def unicodeEscape (c : Char) : List Char :=
  if c.toNat < 0x10000 then '\\' :: 'u' :: hexUnit c.toNat
  else
    let n := c.toNat - 0x10000
    '\\' :: 'u' :: (hexUnit (0xD800 + n / 0x400) ++ '\\' :: 'u' :: hexUnit (0xDC00 + n % 0x400))

private theorem hexValue_toUpper : ∀ d < 16, hexValue d.digitChar.toUpper = some d := by
  decide

private theorem readHex_hexUnit {n : ℕ} (hn : n < 0x10000) (rest : List Char) :
    readHex (hexUnit n ++ rest) = some (n, rest) := by
  have hvalue : ∀ m, hexValue (m % 16).digitChar.toUpper = some (m % 16) :=
    fun m => hexValue_toUpper _ (Nat.mod_lt _ (by decide))
  have hsum : n / 4096 % 16 * 4096 + n / 256 % 16 * 256 + n / 16 % 16 * 16 + n % 16 = n := by
    omega
  simp [hexUnit, readHex, hvalue, hsum]

/-- A character is no surrogate. -/
theorem toNat_bounds (c : Char) : (c.toNat < 0xD800 ∨ 0xE000 ≤ c.toNat) ∧ c.toNat < 0x110000 := by
  have hvalid := c.valid
  simp only [UInt32.isValidChar, Nat.isValidChar] at hvalid
  have hval : c.val.toNat = c.toNat := rfl
  omega

private theorem readUnicode_unit {n : ℕ} (hn : n < 0x10000) (hplane : n < 0xD800 ∨ 0xE000 ≤ n)
    (rest : List Char) : readUnicode (hexUnit n ++ rest) = some (Char.ofNat n, rest) := by
  have hhigh : ¬ (0xD800 ≤ n ∧ n < 0xDC00) := by omega
  have hlow : ¬ (0xDC00 ≤ n ∧ n < 0xE000) := by omega
  simp only [readUnicode, readHex_hexUnit hn, if_neg hhigh, if_neg hlow]

private theorem readUnicode_pair {high low : ℕ} (hhigh : 0xD800 ≤ high ∧ high < 0xDC00)
    (hlow : 0xDC00 ≤ low ∧ low < 0xE000) (rest : List Char) :
    readUnicode (hexUnit high ++ '\\' :: 'u' :: (hexUnit low ++ rest)) =
      some (Char.ofNat (0x10000 + (high - 0xD800) * 0x400 + (low - 0xDC00)), rest) := by
  have hreadHigh := readHex_hexUnit (n := high) (by omega) ('\\' :: 'u' :: (hexUnit low ++ rest))
  have hreadLow := readHex_hexUnit (n := low) (by omega) rest
  simp only [readUnicode, hreadHigh, hreadLow, if_pos hhigh, if_pos hlow]

theorem readChar_unicode (cs : List Char) :
    readChar ('\\' :: 'u' :: cs) = (readUnicode cs).map fun (d, rest) => (some d, rest) := by
  simp [readChar, readEscape]

theorem readChar_unicodeEscape (c : Char) (rest : List Char) :
    readChar (unicodeEscape c ++ rest) = some (some c, rest) := by
  obtain ⟨hplane, hmax⟩ := toNat_bounds c
  unfold unicodeEscape
  split_ifs with hfirst
  · rw [List.cons_append, List.cons_append, readChar_unicode, readUnicode_unit hfirst hplane,
      c.ofNat_toNat]
    rfl
  · have hsum : 0x10000 + (0xD800 + (c.toNat - 0x10000) / 0x400 - 0xD800) * 0x400 +
        (0xDC00 + (c.toNat - 0x10000) % 0x400 - 0xDC00) = c.toNat := by omega
    dsimp only
    rw [List.cons_append, List.cons_append, List.append_assoc, List.cons_append, List.cons_append,
      readChar_unicode, readUnicode_pair (by omega) (by omega), hsum, c.ofNat_toNat]
    rfl

private theorem plain_hexUnit (n : ℕ) : Plain (hexUnit n) := by
  have hdigit : ∀ d < 16, 0x20 ≤ d.digitChar.toUpper.toNat := by decide
  have hmod : ∀ m, 0x20 ≤ (m % 16).digitChar.toUpper.toNat :=
    fun m => hdigit _ (Nat.mod_lt _ (by decide))
  exact .cons (hmod _) (.cons (hmod _) (.cons (hmod _) (.cons (hmod _) plain_nil)))

theorem plain_unicodeEscape (c : Char) : Plain (unicodeEscape c) := by
  have hunit : ∀ n, Plain ('\\' :: 'u' :: hexUnit n) :=
    fun n => .cons (by decide) (.cons (by decide) (plain_hexUnit n))
  unfold unicodeEscape
  split_ifs
  · exact hunit _
  · exact (hunit _).append (hunit _)

end Json
