import ChartInflation.Proofs.Number.Shortest
import ChartInflation.Proofs.Yaml.Printer.NumberText
import ChartInflation.Yaml.Decoder

/-!
# What the texts of numbers mean

The text of a number that documents can hold is read as the number (`plainValue_numberText`):
whole numbers by their digits, finite ones because their shortest decimal lies in their interval.
-/

set_option autoImplicit false

namespace ChartInflation

/-- A number that documents can hold: a whole number in their range, or a floating-point number, of
which one is no number. -/
def Number.Held : Number → Prop
  | .int i => inRange i
  | .float x => x.isNan → x = .nan

namespace Yaml.Printer

open Scalar

/-! ## Digits -/

theorem hexDigit?_of_digit {c : Char} (digit : isAsciiDigit c) :
    hexDigit? c = some (c.toNat - 48) := by
  simp only [isAsciiDigit, Bool.and_eq_true, decide_eq_true_eq] at digit
  rw [hexDigit?, if_pos digit]

theorem digit_of_hexDigit? {c : Char} {d : Nat} (means : hexDigit? c = some d) (small : d < 10) :
    isAsciiDigit c := by
  unfold hexDigit? at means
  split at means
  · rename_i digit
    simpa [isAsciiDigit] using digit
  split at means
  · rename_i letter
    simp only [char_le_iff, Char.reduceToNat, Option.some.injEq] at letter means
    omega
  split at means
  · rename_i letter
    simp only [char_le_iff, Char.reduceToNat, Option.some.injEq] at letter means
    omega
  · cases means

section Natural
variable {text : List Char}

def withDigit (value : Nat) (c : Char) : Option Nat :=
  match hexDigit? c with
  | some d => if d < 10 then some (value * 10 + d) else none
  | none => none

theorem natural?_of_digits (digits : ∀ c ∈ text, isAsciiDigit c) (some : text ≠ []) :
    natural? 10 text = Option.some (Nat.ofDigitChars 10 text 0) := by
  have fold : ∀ value, text.foldlM withDigit value =
      Option.some (Nat.ofDigitChars 10 text value) := by
    clear some
    induction text with
    | nil => exact fun value => rfl
    | cons c text ih =>
        intro value
        rw [List.forall_mem_cons] at digits
        have small : c.toNat - 48 < 10 := by
          have range := (isAsciiDigit_iff c).mp digits.1
          omega
        rw [List.foldlM_cons, withDigit, hexDigit?_of_digit digits.1]
        simp only [if_pos small, Option.bind_eq_bind, Option.bind_some]
        rw [ih digits.2, Nat.ofDigitChars_cons, mul_comm value]
        rfl
  rw [natural?, if_neg (by simpa using some)]
  exact fold 0

theorem natural?_eq_none {c : Char} (member : c ∈ text) (notDigit : isAsciiDigit c = false) :
    natural? 10 text = none := by
  have fold : ∀ value, text.foldlM withDigit value = none := by
    induction text with
    | nil => cases member
    | cons first text ih =>
        intro value
        rw [List.foldlM_cons, withDigit]
        rcases List.mem_cons.mp member with rfl | later
        · cases means : hexDigit? c with
          | none => rfl
          | some d =>
              have large : ¬ d < 10 := fun small =>
                absurd (digit_of_hexDigit? means small) (by simp [notDigit])
              simp only [if_neg large]
              rfl
        · cases hexDigit? first with
          | none => rfl
          | some d =>
              simp only
              split
              · exact ih later _
              · rfl
  unfold natural?
  split
  · rfl
  · exact fold 0

end Natural

/-! ## Texts that begin with a digit -/

theorem IsUnsigned.ne_cons {text : List Char} (unsigned : IsUnsigned text) {c : Char}
    (notDigit : isAsciiDigit c = false) (rest : List Char) : text ≠ c :: rest := by
  rintro rfl
  obtain ⟨d, more, same, digit⟩ := unsigned.begins
  rw [(List.cons.inj same).1, digit] at notDigit
  cases notDigit

section Begins
variable {sign text : List Char} (isSign : sign = [] ∨ sign = ['-'])

include isSign in
/-- No word begins like a number, a minus sign apart. -/
theorem ne_of_begins (unsigned : IsUnsigned text) {c : Char} {word : List Char}
    (begins : c ≠ '-' ∧ isAsciiDigit c = false) : sign ++ text ≠ c :: word := by
  rcases isSign with rfl | rfl
  · exact unsigned.ne_cons begins.2 word
  · exact fun same => begins.1 (List.cons.inj same).1.symm

include isSign in
theorem beq_word_of_begins (unsigned : IsUnsigned text) {word : String} {c : Char}
    {rest : List Char} (isWord : word.toList = c :: rest)
    (begins : c ≠ '-' ∧ isAsciiDigit c = false) : (String.ofList (sign ++ text) == word) = false := by
  rw [beq_eq_false_iff_ne]
  intro same
  have sameList := congrArg String.toList same
  rw [String.toList_ofList, isWord] at sameList
  exact ne_of_begins isSign unsigned begins sameList

include isSign in
theorem meaning_of_begins (unsigned : IsUnsigned text) :
    meaning (String.ofList (sign ++ text)) =
      match int? (sign ++ text) with
      | some i => .int i
      | none =>
        match (if isZeroPadded (sign ++ text) then none else float? (sign ++ text)) with
        | some x => .float x
        | none => .string := by
  have notNull : isNullWord (String.ofList (sign ++ text)) = false := by
    simp only [isNullWord, Bool.or_eq_false_iff]
    refine ⟨⟨⟨?_, ?_⟩, ?_⟩, ?_⟩ <;> exact beq_word_of_begins isSign unsigned rfl (by decide)
  have notBool : bool? (String.ofList (sign ++ text)) = none := by
    unfold bool?
    rw [if_neg, if_neg]
    all_goals
      rw [Bool.not_eq_true]
      simp only [Bool.or_eq_false_iff]
      refine ⟨⟨?_, ?_⟩, ?_⟩ <;> exact beq_word_of_begins isSign unsigned rfl (by decide)
  have some : (sign ++ text).isEmpty = false := by
    obtain ⟨d, rest, rfl, -⟩ := unsigned.begins
    simp
  unfold meaning
  dsimp only
  rw [String.toList_ofList]
  generalize int? (sign ++ text) = asInt
  generalize (if isZeroPadded (sign ++ text) then none else float? (sign ++ text)) = asFloat
  cases asInt <;> cases asFloat <;>
    simp only [notNull, notBool, some, Bool.or_self, Bool.false_eq_true, if_false]

include isSign in
theorem float?_of_begins (unsigned : IsUnsigned text) :
    float? (sign ++ text) = signedDecimal? (sign ++ text) := by
  have notWord : ∀ {sign : List Char} (_ : sign = [] ∨ sign = ['-']) {c : Char} {word : List Char},
      c ≠ '-' ∧ isAsciiDigit c = false → (sign ++ text == c :: word) = false := by
    intro sign isSign c word begins
    exact beq_eq_false_iff_ne.mpr (ne_of_begins isSign unsigned begins)
  have notInfinite : ∀ {sign : List Char}, sign = [] ∨ sign = ['-'] →
      isInfinityWord (sign ++ text) = false := by
    intro sign isSign
    simp only [isInfinityWord, Bool.or_eq_false_iff]
    exact ⟨⟨notWord isSign (by decide), notWord isSign (by decide)⟩, notWord isSign (by decide)⟩
  have notNan : (sign ++ text == ".nan".toList || sign ++ text == ".NaN".toList ||
      sign ++ text == ".NAN".toList) = false := by
    simp only [Bool.or_eq_false_iff]
    exact ⟨⟨notWord isSign (by decide), notWord isSign (by decide)⟩, notWord isSign (by decide)⟩
  have noPlus : ∀ rest, sign ++ text ≠ '+' :: rest := fun rest =>
    ne_of_begins isSign unsigned (by decide)
  have behindSign := @notInfinite [] (.inl rfl)
  unfold float?
  split
  · exact absurd ‹_› (noPlus _)
  · exact absurd ‹_› (noPlus _)
  · rw [notInfinite isSign, notNan]
    simp only [Bool.false_eq_true, if_false]
    split
    · rename_i rest same
      have isRest : rest = text := by
        rcases isSign with rfl | rfl
        · exact absurd same (unsigned.ne_cons (by decide) rest)
        · exact (List.cons.inj same).2.symm
      rw [isRest, show isInfinityWord text = false from behindSign]
      rfl
    · rfl

theorem withoutSign_of_begins (isSign : sign = [] ∨ sign = ['-']) (unsigned : IsUnsigned text) :
    withoutSign (sign ++ text) = text := by
  rcases isSign with rfl | rfl
  · rw [List.nil_append]
    unfold withoutSign
    split
    · exact absurd rfl (unsigned.ne_cons (by decide) _)
    · exact absurd rfl (unsigned.ne_cons (by decide) _)
    · rfl
  · rfl

theorem size?_of_numeric (numeric : IsNumeric text) :
    size? text = if isZeroPadded text then none else natural? 10 text := by
  unfold size?
  split
  · exact absurd (numeric 'x' (by simp)) (by decide)
  · exact absurd (numeric 'o' (by simp)) (by decide)
  · exact absurd (numeric 'b' (by simp)) (by decide)
  · rfl

theorem int?_of_begins (isSign : sign = [] ∨ sign = ['-']) (unsigned : IsUnsigned text) :
    int? (sign ++ text) =
      if sign = [] then
        match size? text with
        | some n => if n < 2 ^ 128 then some (n : Int) else none
        | none => none
      else
        match size? text with
        | some n => if n ≤ 2 ^ 127 then some (-(n : Int)) else none
        | none => none := by
  rcases isSign with rfl | rfl
  · rw [List.nil_append]
    unfold int?
    split
    · exact absurd rfl (unsigned.ne_cons (by decide) _)
    · exact absurd rfl (unsigned.ne_cons (by decide) _)
    · rfl
  · rfl

end Begins

/-! ## Whole numbers -/

theorem ofDigitChars_lt {text : List Char} (digits : ∀ c ∈ text, isAsciiDigit c) (value : Nat) :
    Nat.ofDigitChars 10 text value < (value + 1) * 10 ^ text.length := by
  induction text generalizing value with
  | nil => simp
  | cons c text ih =>
      rw [List.forall_mem_cons] at digits
      have range := (isAsciiDigit_iff c).mp digits.1
      rw [Nat.ofDigitChars_cons, List.length_cons, pow_succ']
      refine (ih digits.2 _).trans_le ?_
      rw [← mul_assoc]
      refine Nat.mul_le_mul_right _ ?_
      change 10 * value + (c.toNat - 48) + 1 ≤ _
      omega

theorem isZeroPadded_toDigits (n : Nat) : isZeroPadded (Nat.toDigits 10 n) = false := by
  rw [← Bool.not_eq_true]
  intro padded
  have behindSign := withoutSign_of_begins (.inl rfl) (isUnsigned_toDigits n)
  rw [List.nil_append] at behindSign
  rw [isZeroPadded, behindSign] at padded
  split at padded
  · rename_i c rest same
    have digits : ∀ d ∈ c :: rest, isAsciiDigit d := fun d member =>
      digit_of_mem_toDigits (same ▸ List.mem_cons_of_mem _ member)
    have value := @Nat.ofDigitChars_ten_toDigits n
    rw [same, Nat.ofDigitChars_cons] at value
    have small := ofDigitChars_lt digits 0
    change Nat.ofDigitChars 10 (c :: rest) 0 = n at value
    rw [value, zero_add, one_mul] at small
    have shorter := (Nat.length_toDigits_le_iff (by decide) (Nat.succ_pos _)).mpr small
    rw [same] at shorter
    simp at shorter
  · cases padded

theorem size?_toDigits (n : Nat) : size? (Nat.toDigits 10 n) = some n := by
  rw [size?_of_numeric (isUnsigned_toDigits n).numeric, isZeroPadded_toDigits,
    natural?_of_digits (fun c => digit_of_mem_toDigits) Nat.toDigits_ne_nil]
  simp

theorem meaning_toString {i : Int} (held : Number.inRange i) :
    meaning (String.ofList (toString i).toList) = .int i := by
  simp only [Number.inRange, Nat.pow_eq, Bool.and_eq_true, decide_eq_true_eq] at held
  rw [toList_toString]
  split
  · have isInt : int? ([] ++ Nat.toDigits 10 i.toNat) = some i := by
      rw [int?_of_begins (.inl rfl) (isUnsigned_toDigits _), size?_toDigits, if_pos rfl]
      simp only
      rw [if_pos (by omega), Int.toNat_of_nonneg ‹_›]
    rw [← List.nil_append (Nat.toDigits 10 i.toNat),
      meaning_of_begins (.inl rfl) (isUnsigned_toDigits _), isInt]
  · have isInt : int? (['-'] ++ Nat.toDigits 10 (-i).toNat) = some i := by
      rw [int?_of_begins (.inr rfl) (isUnsigned_toDigits _), size?_toDigits, if_neg (by simp)]
      simp only
      rw [if_pos (by omega), Int.toNat_of_nonneg (by omega), neg_neg]
    rw [show '-' :: Nat.toDigits 10 (-i).toNat = ['-'] ++ Nat.toDigits 10 (-i).toNat from rfl,
      meaning_of_begins (.inr rfl) (isUnsigned_toDigits _), isInt]

/-! ## Floating-point numbers -/

theorem exponent?_exponentText (d : Decimal) : exponent? d.exponentText = some (d.exponent.getD 0) := by
  unfold Decimal.exponentText
  cases d.exponent with
  | none => rfl
  | some e =>
      have digits : ∀ n, natural? 10 (Nat.toDigits 10 n) = some n := fun n => by
        rw [natural?_of_digits (fun c => digit_of_mem_toDigits) Nat.toDigits_ne_nil]
        simp
      simp only [exponent?, if_pos, true_or, toList_toString]
      by_cases nonnegative : 0 ≤ e
      · rw [if_pos nonnegative]
        have unsigned := isUnsigned_toDigits e.toNat
        split
        · exact absurd ‹_› (unsigned.ne_cons (by decide) _)
        · exact absurd ‹_› (unsigned.ne_cons (by decide) _)
        · rw [digits]
          simp [nonnegative]
      · rw [if_neg nonnegative]
        simp only [digits]
        change some (-((-e).toNat : Int)) = some e
        rw [Int.toNat_of_nonneg (by omega), neg_neg]

theorem decimal?_text (d : Decimal) : decimal? d.text = some (Binary64.ofDecimal d.number d.place) := by
  have whole : ∀ c ∈ d.whole, isAsciiDigit c := fun c member =>
    d.digits c (List.mem_append_left _ member)
  have fraction : ∀ c ∈ d.fraction, isAsciiDigit c := fun c member =>
    d.digits c (List.mem_append_right _ member)
  have value := natural?_of_digits d.digits (by simp [d.begins])
  -- What stands behind the digits begins with none.
  have noDigit : d.exponentText.takeWhile isAsciiDigit = [] ∧
      d.exponentText.dropWhile isAsciiDigit = d.exponentText := by
    unfold Decimal.exponentText
    split
    · exact ⟨rfl, rfl⟩
    · exact ⟨List.takeWhile_cons_of_neg (by decide), List.dropWhile_cons_of_neg (by decide)⟩
  have exponent := exponent?_exponentText d
  unfold decimal? Decimal.text Decimal.place Decimal.number Decimal.fractionText
  rw [List.append_assoc, List.takeWhile_append_of_pos whole, List.dropWhile_append_of_pos whole]
  by_cases pointed : d.fraction = []
  · rw [pointed] at value ⊢
    have noPoint : ∀ more, d.exponentText ≠ '.' :: more := by
      intro more
      unfold Decimal.exponentText
      split
      · simp
      · exact fun same => absurd (List.cons.inj same).1 (by decide)
    simp only [List.isEmpty_nil, if_true, List.nil_append, noDigit, List.append_nil] at value ⊢
    simp only [value, exponent, Option.bind_eq_bind, Option.bind_some, Option.pure_def]
  · have notEmpty : d.fraction.isEmpty = false := by simpa using pointed
    simp only [notEmpty, Bool.false_eq_true, if_false, List.cons_append,
      List.takeWhile_cons_of_neg (show ¬ isAsciiDigit '.' by decide),
      List.dropWhile_cons_of_neg (show ¬ isAsciiDigit '.' by decide), List.append_nil,
      List.takeWhile_append_of_pos fraction, List.dropWhile_append_of_pos fraction, noDigit,
      value, exponent, Option.bind_eq_bind, Option.bind_some, Option.pure_def]

/-- A decimal with a point or an exponent spells no whole number. -/
theorem meaning_decimal {sign : List Char} (isSign : sign = [] ∨ sign = ['-']) {d : Decimal}
    (pointed : d.fraction ≠ [] ∨ d.exponent ≠ none) {x : Binary64}
    (isFloat : signedDecimal? (sign ++ d.text) = some x) :
    meaning (String.ofList (sign ++ d.text)) = .float x := by
  obtain ⟨c, member, notDigit⟩ : ∃ c ∈ d.text, isAsciiDigit c = false := by
    rcases pointed with isFraction | isExponent
    · refine ⟨'.', ?_, by decide⟩
      simp [Decimal.text, Decimal.fractionText, isFraction]
    · obtain ⟨e, isSome⟩ := Option.ne_none_iff_exists'.mp isExponent
      refine ⟨'e', ?_, by decide⟩
      simp [Decimal.text, Decimal.exponentText, isSome]
  have unsigned := d.isUnsigned_text
  have notPadded : isZeroPadded (sign ++ d.text) = false := by
    rw [isZeroPadded, withoutSign_of_begins isSign unsigned]
    split
    · rename_i a rest same
      rw [same] at member
      rcases List.mem_cons.mp member with rfl | later
      · cases notDigit
      · rw [← Bool.not_eq_true, List.all_eq_true]
        exact fun all => absurd (all c later) (by simp [notDigit])
    · rfl
  have noSize : size? d.text = none := by
    rw [size?_of_numeric unsigned.numeric, natural?_eq_none member notDigit, ite_self]
  have noInt : int? (sign ++ d.text) = none := by
    rw [int?_of_begins isSign unsigned, noSize]
    exact ite_self _
  rw [meaning_of_begins isSign unsigned, noInt, notPadded]
  simp only [Bool.false_eq_true, if_false]
  rw [float?_of_begins isSign unsigned, isFloat]

theorem signedDecimal?_text {sign : List Char} (isSign : sign = [] ∨ sign = ['-']) (d : Decimal)
    {x : Binary64} (finite : x.isFinite)
    (isValue : x = if sign = [] then Binary64.ofDecimal d.number d.place
      else (Binary64.ofDecimal d.number d.place).negate) :
    signedDecimal? (sign ++ d.text) = some x := by
  have unsigned := d.isUnsigned_text
  have decimal := decimal?_text d
  unfold signedDecimal?
  rcases isSign with rfl | rfl
  · rw [if_pos rfl] at isValue
    rw [List.nil_append]
    split
    · rename_i same
      exact absurd same (unsigned.ne_cons (by decide) _)
    · simp only [decimal, ← isValue, Option.bind_eq_bind, Option.bind_some, finite, if_true]
  · rw [if_neg (by simp)] at isValue
    simp only [List.cons_append, List.nil_append, decimal, Option.map_some, ← isValue,
      Option.bind_eq_bind, Option.bind_some, finite, if_true]

/-- A finite number is what its shortest decimal spells. -/
theorem meaning_text {x : Binary64} (finite : x.isFinite) :
    meaning (String.ofList (x.text decimalStyle).toList) = .float x := by
  have isSign : (if x.negative then ['-'] else []) = [] ∨
      (if x.negative then ['-'] else []) = ['-'] := by
    cases x.negative
    · exact .inl rfl
    · exact .inr rfl
  have signed : ∀ d : Decimal, (Binary64.ofDecimal d.number d.place).bits.toNat =
      x.exponentField * 2 ^ 52 + x.fractionField → (d.fraction ≠ [] ∨ d.exponent ≠ none) →
      meaning (String.ofList ((if x.negative then ['-'] else []) ++ d.text)) = .float x := by
    intro d bits pointed
    refine meaning_decimal isSign pointed (signedDecimal?_text isSign d finite ?_)
    have value := Binary64.eq_of_bits bits
    cases negative : x.negative <;> simpa [negative] using value
  cases zero : x.isZero with
  | true =>
      have noBits : x.exponentField = 0 ∧ x.fractionField = 0 := by
        simpa [Binary64.isZero] using zero
      have isText : (x.text decimalStyle).toList =
          (if x.negative then ['-'] else []) ++ "0.0".toList := by
        cases negative : x.negative <;> simp [Binary64.text, zero, negative]
      rw [isText]
      exact signed ⟨['0'], ['0'], none, List.all_eq_true.mp (by decide), by decide⟩
        (by rw [noBits.1, noBits.2]; rfl)
        (.inl (by decide))
  | false =>
      obtain ⟨d, isDecimal, pointed, zeros, number, place⟩ :=
        @exists_decimal decimalStyle rfl x.shortest.1 x.shortest.2
      have isText : (x.text decimalStyle).toList =
          (if x.negative then ['-'] else []) ++ d.text := by
        rw [← isDecimal]
        cases negative : x.negative <;> simp [Binary64.text, zero, negative]
      have value : (d.number : ℚ) * 10 ^ d.place = x.shortest.1 * 10 ^ x.shortest.2 := by
        rw [number, place, zpow_sub₀ (by norm_num), zpow_natCast]
        push_cast
        field_simp
      rw [isText]
      refine signed d (Binary64.bits_ofDecimal finite zero ?_) pointed
      rw [value]
      exact Binary64.shortest_contains finite zero

theorem meaning_float {x : Binary64} (held : x.isNan → x = .nan) :
    meaning (String.ofList (numberText (.float x))) = .float x := by
  have parts := x.bits_eq
  have infinite : ∀ y : Binary64, x.bits.toNat = y.bits.toNat → y = x := by
    intro y same
    cases x
    cases y
    simpa [UInt64.toNat_inj, eq_comm] using same
  rw [numberText]
  split
  · rw [held ‹_›]
    decide +kernel
  split
  · rename_i isInfinite
    have fields : x.exponentField = 2047 ∧ x.fractionField = 0 := by
      simpa [Binary64.isInfinite] using isInfinite
    rw [fields.1, fields.2] at parts
    cases negative : x.negative with
    | true =>
        rw [negative, if_pos rfl] at parts
        rw [← infinite .negativeInfinity parts]
        decide +kernel
    | false =>
        rw [negative, if_neg (by decide)] at parts
        rw [← infinite .infinity parts]
        decide +kernel
  · rename_i notNan notInfinite
    refine meaning_text ?_
    simp only [Binary64.isNan, Binary64.isInfinite, Bool.and_eq_true, not_and, beq_iff_eq,
      bne_iff_ne, Decidable.not_not] at notNan notInfinite
    simp only [Binary64.isFinite, bne_iff_ne]
    exact fun full => notInfinite full (notNan full)

theorem plainValue_numberText {n : Number} (held : n.Held) :
    plainValue (String.ofList (numberText n)) = .ok (.number n) := by
  cases n with
  | int i =>
      rw [Number.Held] at held
      rw [numberText, plainValue, meaning_toString held]
      simp only
      rw [if_pos held]
      rfl
  | float x => rw [plainValue, meaning_float held]

end Yaml.Printer

end ChartInflation
