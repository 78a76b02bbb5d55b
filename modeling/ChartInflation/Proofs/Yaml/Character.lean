import ChartInflation.Yaml.Printer.Scalar

/-!
# Classes of characters by code point

With each class as a range of numbers, that two classes have nothing in common is arithmetic.
-/

set_option autoImplicit false

namespace ChartInflation

theorem char_eq_iff (c d : Char) : c = d ↔ c.toNat = d.toNat :=
  Char.toNat_inj.symm

theorem char_le_iff (c d : Char) : c ≤ d ↔ c.toNat ≤ d.toNat := by
  rw [Char.le_def, UInt32.le_iff_toNat_le]
  rfl

theorem char_lt_iff (c d : Char) : c < d ↔ c.toNat < d.toNat := by
  rw [Char.lt_def, UInt32.lt_iff_toNat_lt]
  rfl

theorem isAsciiDigit_iff (c : Char) : isAsciiDigit c ↔ 48 ≤ c.toNat ∧ c.toNat ≤ 57 := by
  simp [isAsciiDigit, char_le_iff]

namespace Yaml

theorem isBreak_iff (c : Char) : isBreak c ↔
    c.toNat = 10 ∨ c.toNat = 13 ∨ c.toNat = 0x85 ∨ c.toNat = 0x2028 ∨ c.toNat = 0x2029 := by
  simp [isBreak, char_eq_iff]
  omega

/-- A text without line breaks can be told by looking at each character. -/
theorem goesOn_of_all {text : List Char} (all : text.all (!isBreak ·)) :
    ∀ c ∈ text, isBreak c = false := by
  simpa using all

theorem isGap_iff (c : Char) : isGap c ↔ c.toNat = 32 ∨ c.toNat = 9 := by
  simp [isGap, char_eq_iff]

theorem isWord_iff (c : Char) : isWord c ↔ (48 ≤ c.toNat ∧ c.toNat ≤ 57) ∨
    (65 ≤ c.toNat ∧ c.toNat ≤ 90) ∨ (97 ≤ c.toNat ∧ c.toNat ≤ 122) ∨ c.toNat = 95 ∨
      c.toNat = 45 := by
  simp [isWord, char_eq_iff, char_le_iff]
  omega

theorem isPrintable_iff (c : Char) : Printer.isPrintable c ↔ c.toNat = 10 ∨
    (32 ≤ c.toNat ∧ c.toNat ≤ 126) ∨
      (160 ≤ c.toNat ∧ c.toNat ≠ 0xFEFF ∧ c.toNat ≠ 0xFFFE ∧ c.toNat ≠ 0xFFFF) := by
  simp [Printer.isPrintable, char_eq_iff, char_le_iff]
  omega

theorem isAllowed_iff (c : Char) : isAllowed c ↔ c.toNat = 9 ∨ c.toNat = 10 ∨ c.toNat = 13 ∨
    (32 ≤ c.toNat ∧ c.toNat ≤ 126) ∨ c.toNat = 0x85 ∨ (160 ≤ c.toNat ∧ c.toNat ≤ 0xFFFD) ∨
      0xFFFF < c.toNat := by
  simp [isAllowed, char_eq_iff, char_le_iff, char_lt_iff]
  omega

end Yaml

end ChartInflation
