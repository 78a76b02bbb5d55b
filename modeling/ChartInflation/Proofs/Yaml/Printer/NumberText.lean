import ChartInflation.Proofs.Yaml.Character
import Mathlib.Data.Nat.Digits.Defs

/-!
# The texts of numbers

A number is written with digits and a few letters and marks, and begins with a digit, a minus sign
apart, unless it is a word that begins with a point (`exists_sign`).
-/

set_option autoImplicit false

namespace ChartInflation.Yaml.Printer

def isNumberCharacter (c : Char) : Bool :=
  isAsciiDigit c || "-.einfa".toList.contains c

def IsNumeric (text : List Char) : Prop :=
  ∀ c ∈ text, isNumberCharacter c

/-- A text of digits and marks that begins with a digit. -/
structure IsUnsigned (text : List Char) : Prop where
  numeric : IsNumeric text
  begins : ∃ d rest, text = d :: rest ∧ isAsciiDigit d

section Numeric
variable {text more : List Char}

theorem isNumeric_append : IsNumeric (text ++ more) ↔ IsNumeric text ∧ IsNumeric more := by
  simp only [IsNumeric, List.mem_append, or_imp, forall_and]

theorem isNumeric_of_digits (digits : ∀ c ∈ text, isAsciiDigit c) : IsNumeric text := by
  intro c member
  simp [isNumberCharacter, digits c member]

theorem IsUnsigned.append (unsigned : IsUnsigned text) (numeric : IsNumeric more) :
    IsUnsigned (text ++ more) := by
  obtain ⟨d, rest, rfl, digit⟩ := unsigned.begins
  exact ⟨isNumeric_append.mpr ⟨unsigned.numeric, numeric⟩, d, rest ++ more, rfl, digit⟩

theorem isUnsigned_of_digits (digits : ∀ c ∈ text, isAsciiDigit c) (some : text ≠ []) :
    IsUnsigned text := by
  obtain ⟨d, rest, rfl⟩ := List.exists_cons_of_ne_nil some
  exact ⟨isNumeric_of_digits digits, d, rest, rfl, digits d (List.mem_cons_self ..)⟩

end Numeric

theorem digit_of_mem_toDigits {c : Char} {n : Nat} (member : c ∈ Nat.toDigits 10 n) :
    isAsciiDigit c := by
  have digit := Nat.isDigit_of_mem_toDigits (by decide) (by decide) member
  simp only [Char.isDigit, ge_iff_le, Bool.and_eq_true, decide_eq_true_eq,
    UInt32.le_iff_toNat_le] at digit
  exact (isAsciiDigit_iff c).mpr digit

theorem isUnsigned_toDigits (n : Nat) : IsUnsigned (Nat.toDigits 10 n) :=
  isUnsigned_of_digits (fun _ => digit_of_mem_toDigits) Nat.toDigits_ne_nil

theorem toList_toString (i : Int) : (toString i).toList =
    if 0 ≤ i then Nat.toDigits 10 i.toNat else '-' :: Nat.toDigits 10 (-i).toNat := by
  have shown : toString i = i.repr := rfl
  rw [shown, Int.repr_eq_if]
  split <;> simp [Nat.repr_eq_ofList_toDigits]

theorem isNumeric_toString (i : Int) : IsNumeric (toString i).toList := by
  rw [toList_toString]
  split
  · exact (isUnsigned_toDigits _).numeric
  · exact List.forall_mem_cons.mpr ⟨by decide, (isUnsigned_toDigits _).numeric⟩

/-! ## Decimals -/

structure Decimal where
  whole : List Char
  fraction : List Char
  exponent : Option Int
  digits : ∀ c ∈ whole ++ fraction, isAsciiDigit c
  begins : whole ≠ []

namespace Decimal

def fractionText (d : Decimal) : List Char :=
  if d.fraction.isEmpty then [] else '.' :: d.fraction

def exponentText (d : Decimal) : List Char :=
  match d.exponent with
  | none => []
  | some e => 'e' :: (toString e).toList

def text (d : Decimal) : List Char :=
  d.whole ++ d.fractionText ++ d.exponentText

def number (d : Decimal) : Nat :=
  Nat.ofDigitChars 10 (d.whole ++ d.fraction) 0

def place (d : Decimal) : Int :=
  d.exponent.getD 0 - d.fraction.length

theorem isUnsigned_text (d : Decimal) : IsUnsigned d.text := by
  have whole := isUnsigned_of_digits
    (fun c member => d.digits c (List.mem_append_left _ member)) d.begins
  refine (whole.append ?_).append ?_
  · unfold fractionText
    split
    · exact List.forall_mem_nil _
    · exact List.forall_mem_cons.mpr ⟨by decide,
        isNumeric_of_digits fun c member => d.digits c (List.mem_append_right _ member)⟩
  · unfold exponentText
    split
    · exact List.forall_mem_nil _
    · exact List.forall_mem_cons.mpr ⟨by decide, isNumeric_toString _⟩

end Decimal

theorem isAsciiDigit_of_zeros {n : Nat} {c : Char} (member : c ∈ List.replicate n '0') :
    isAsciiDigit c := by
  rw [List.eq_of_mem_replicate member]
  decide

/-- Whether a decimal is digits at a place, with more zeros at its end and not as digits alone. -/
def Decimal.Writes (d : Decimal) (digits : Nat) (place : Int) : Prop :=
  (d.fraction ≠ [] ∨ d.exponent ≠ none) ∧
    ∃ zeros : Nat, d.number = digits * 10 ^ zeros ∧ d.place = place - zeros

/-! The four shapes in which digits are written. -/

section Shapes
variable {ds : List Char} {digits : Nat} (areDigits : ∀ c ∈ ds, isAsciiDigit c)
  (value : Nat.ofDigitChars 10 ds 0 = digits)
include areDigits value

theorem exists_whole (inhabited : ds ≠ []) (more : Nat) :
    ∃ d : Decimal, d.text = ds ++ List.replicate more '0' ++ ".0".toList ∧
      d.Writes digits more := by
  refine ⟨⟨ds ++ List.replicate more '0', ['0'], none, ?_, by simp [inhabited]⟩, ?_, .inl (by simp),
    more + 1, ?_, ?_⟩
  · simp only [List.append_assoc, List.forall_mem_append]
    exact ⟨areDigits, fun _ => isAsciiDigit_of_zeros, List.all_eq_true.mp (by decide)⟩
  · simp [Decimal.text, Decimal.fractionText, Decimal.exponentText]
  · simp [Decimal.number, Nat.ofDigitChars_append, value, Nat.ofDigitChars_replicate_zero,
      Nat.ofDigitChars_cons, pow_succ]
    ring
  · simp [Decimal.place]

/-- A point between two digits, perhaps with an exponent behind them. -/
theorem exists_pointed {k : Nat} (begins : 0 < k) (goesOn : k < ds.length) (exponent : Option Int) :
    ∃ d : Decimal, d.text = ds.take k ++ '.' :: ds.drop k ++ d.exponentText ∧
      d.exponent = exponent ∧ d.Writes digits (exponent.getD 0 - (ds.length - k : Nat)) := by
  have parts := List.take_append_drop k ds
  have someTaken : ds.take k ≠ [] := by
    rw [ne_eq, List.take_eq_nil_iff, ← List.length_eq_zero_iff]
    omega
  have someDropped : ds.drop k ≠ [] := by
    rw [ne_eq, List.drop_eq_nil_iff]
    omega
  refine ⟨⟨_, _, exponent, by rwa [parts], someTaken⟩, ?_, rfl, .inl someDropped, 0, ?_, ?_⟩
  · simp only [Decimal.text, Decimal.fractionText, List.isEmpty_iff, someDropped, if_false]
  · rw [Decimal.number, parts, value, pow_zero, mul_one]
  · simp [Decimal.place]

theorem exists_leading (inhabited : ds ≠ []) (leading : Nat) :
    ∃ d : Decimal, d.text = "0.".toList ++ List.replicate leading '0' ++ ds ∧
      d.Writes digits (-(leading + ds.length : Nat)) := by
  refine ⟨⟨['0'], List.replicate leading '0' ++ ds, none, ?_, by simp⟩, ?_, .inl (by simp [inhabited]),
    0, ?_, ?_⟩
  · simp only [List.forall_mem_append]
    exact ⟨List.all_eq_true.mp (by decide), fun _ => isAsciiDigit_of_zeros, areDigits⟩
  · simp [Decimal.text, Decimal.fractionText, Decimal.exponentText, inhabited]
  · simp [Decimal.number, Nat.ofDigitChars_append, Nat.ofDigitChars_replicate_zero,
      Nat.ofDigitChars_cons, value]
  · simp [Decimal.place]

theorem exists_exponent (inhabited : ds ≠ []) (exponent : Int) :
    ∃ d : Decimal, d.text = ds ++ 'e' :: (toString exponent).toList ∧ d.Writes digits exponent := by
  refine ⟨⟨ds, [], some exponent, by simpa using areDigits, inhabited⟩, ?_, .inr (by simp), 0, ?_, ?_⟩
  · simp [Decimal.text, Decimal.fractionText, Decimal.exponentText]
  · simp [Decimal.number, value]
  · simp [Decimal.place]

end Shapes

/-- The text of digits at a place is a decimal of the same value, which may have more zeros at its
end.  It is not digits alone. -/
theorem exists_decimal {style : Binary64.DecimalStyle} (mark : style.exponentMark = "e")
    (digits : Nat) (place : Int) :
    ∃ d : Decimal, (Binary64.decimalText style digits place).toList = d.text ∧
      d.Writes digits place := by
  have areDigits : ∀ c ∈ Nat.toDigits 10 digits, isAsciiDigit c := fun _ => digit_of_mem_toDigits
  have someDigits : Nat.toDigits 10 digits ≠ [] := Nat.toDigits_ne_nil
  have value := @Nat.ofDigitChars_ten_toDigits digits
  have positive := List.length_pos_iff.mpr someDigits
  unfold Binary64.decimalText
  simp only [mark, ite_self]
  generalize Nat.toDigits 10 digits = ds at areDigits someDigits value positive ⊢
  by_cases isWhole : 0 ≤ place ∧ (ds.length : Int) + place ≤ style.wholeDigits
  · obtain ⟨d, isText, writes⟩ := exists_whole areDigits value someDigits place.toNat
    rw [Int.toNat_of_nonneg isWhole.1] at writes
    rw [if_pos isWhole]
    exact ⟨d, by simp [isText, Binary64.zeros], writes⟩
  rw [if_neg isWhole]
  by_cases inside : 0 < (ds.length : Int) + place ∧ (ds.length : Int) + place ≤ style.wholeDigits
  · obtain ⟨d, isText, noExponent, writes⟩ := exists_pointed areDigits value
      (k := ((ds.length : Int) + place).toNat) (by omega) (by omega) none
    rw [if_pos inside]
    refine ⟨d, by simp [isText, Decimal.exponentText, noExponent], ?_⟩
    convert writes using 1
    simp only [Option.getD_none]
    omega
  rw [if_neg inside]
  by_cases before : (ds.length : Int) + place ≤ 0 ∧
      -((ds.length : Int) + place) ≤ style.leadingZeros
  · obtain ⟨d, isText, writes⟩ :=
      exists_leading areDigits value someDigits (-((ds.length : Int) + place)).toNat
    rw [if_pos before]
    refine ⟨d, by simp [isText, Binary64.zeros], ?_⟩
    convert writes using 1
    omega
  rw [if_neg before]
  by_cases single : ds.length = 1
  · obtain ⟨d, isText, writes⟩ := exists_exponent areDigits value someDigits (ds.length + place - 1)
    rw [if_pos single]
    refine ⟨d, by simp [isText], ?_⟩
    convert writes using 1
    omega
  · obtain ⟨d, isText, isExponent, writes⟩ := exists_pointed areDigits value (k := 1) (by omega)
      (by omega) (some (ds.length + place - 1))
    rw [if_neg single]
    refine ⟨d, by simp [isText, Decimal.exponentText, isExponent], ?_⟩
    convert writes using 1
    simp only [Option.getD_some]
    omega

/-- A number is written with digits and marks, the first one a digit, or as one of two words; all
of them may stand behind a minus sign. -/
theorem exists_sign (n : Number) : ∃ sign body, numberText n = sign ++ body ∧
    (sign = [] ∨ sign = ['-']) ∧
      (body = ".nan".toList ∨ body = ".inf".toList ∨ IsUnsigned body) := by
  cases n with
  | int i =>
      rw [numberText, toList_toString]
      split
      · exact ⟨[], _, rfl, .inl rfl, .inr (.inr (isUnsigned_toDigits _))⟩
      · exact ⟨['-'], _, rfl, .inr rfl, .inr (.inr (isUnsigned_toDigits _))⟩
  | float x =>
      rw [numberText]
      split
      · exact ⟨[], _, rfl, .inl rfl, .inl rfl⟩
      split
      · split
        · exact ⟨['-'], _, rfl, .inr rfl, .inr (.inl rfl)⟩
        · exact ⟨[], _, rfl, .inl rfl, .inr (.inl rfl)⟩
      · have zero : IsUnsigned "0.0".toList := ⟨List.all_eq_true.mp (by decide), '0', _, rfl, by decide⟩
        obtain ⟨body, isText, unsigned⟩ : ∃ body, (x.text decimalStyle).toList =
            (if x.negative then "-" else "").toList ++ body ∧ IsUnsigned body := by
          unfold Binary64.text
          by_cases isZero : x.isZero
          · exact ⟨_, by simp [isZero], zero⟩
          · obtain ⟨d, isText, -⟩ := @exists_decimal decimalStyle rfl x.shortest.1 x.shortest.2
            exact ⟨d.text, by simp [isZero, isText], d.isUnsigned_text⟩
        refine ⟨_, body, isText, ?_, .inr (.inr unsigned)⟩
        cases x.negative
        · exact .inl rfl
        · exact .inr rfl

theorem isNumeric_numberText (n : Number) : IsNumeric (numberText n) := by
  obtain ⟨sign, body, isText, isSign, isBody⟩ := exists_sign n
  rw [isText, isNumeric_append]
  constructor
  · rcases isSign with rfl | rfl <;> simp [IsNumeric, isNumberCharacter]
  · rcases isBody with rfl | rfl | unsigned
    · simp [IsNumeric, isNumberCharacter]
    · simp [IsNumeric, isNumberCharacter]
    · exact unsigned.numeric

end ChartInflation.Yaml.Printer
