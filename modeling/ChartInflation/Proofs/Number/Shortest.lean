import ChartInflation.Proofs.Number.Nearest

/-!
# The shortest decimal is read back

The search for a decimal in the interval of a number ends at seventeen digits at the latest
(`search_contains`, `seventeen_digits`), and what it finds is read as the number
(`bits_ofDecimal`).
-/

set_option autoImplicit false

namespace ChartInflation.Binary64

theorem ten_zpow_pos (p : Int) : (0 : ℚ) < 10 ^ p := zpow_pos (by norm_num) p

namespace Interval

/-! ## Decimals of one place -/

theorem holds_iff (i : Interval) (n : Nat) : i.holds n ↔ i.Contains n := by
  unfold holds Contains
  split
  · simp only [Bool.and_eq_true, decide_eq_true_eq]
    exact_mod_cast Iff.rfl
  · simp only [Bool.and_eq_true, decide_eq_true_eq]
    exact_mod_cast Iff.rfl

structure InUnits (i j : Interval) (place : Int) (factor : ℚ) : Prop where
  positive : 0 < factor
  low : (j.low : ℚ) = i.low * factor
  value : (j.value : ℚ) = i.value * factor
  high : (j.high : ℚ) = i.high * factor
  denominator : (j.denominator : ℚ) = i.denominator * 10 ^ place * factor
  closed : j.closed = i.closed

theorem inUnits_spec (i : Interval) (place : Int) :
    ∃ factor, i.InUnits (i.inUnits place) place factor := by
  unfold inUnits
  split
  · obtain ⟨n, rfl⟩ := Int.eq_ofNat_of_zero_le ‹_›
    refine ⟨1, by norm_num, by simp, by simp, by simp, ?_, rfl⟩
    simp only [Int.toNat_natCast, Nat.pow_eq, zpow_natCast]
    push_cast
    ring
  · obtain ⟨n, rfl⟩ : ∃ n : Nat, place = -n := ⟨(-place).toNat, by omega⟩
    refine ⟨10 ^ n, by positivity, ?_, ?_, ?_, ?_, rfl⟩
    · simp only [neg_neg, Int.toNat_natCast, Nat.pow_eq]
      push_cast
      rfl
    · simp only [neg_neg, Int.toNat_natCast, Nat.pow_eq]
      push_cast
      rfl
    · simp only [neg_neg, Int.toNat_natCast, Nat.pow_eq]
      push_cast
      rfl
    · simp only [zpow_neg, zpow_natCast]
      field_simp

theorem InUnits.contains_iff {i j : Interval} {place : Int} {factor : ℚ}
    (units : i.InUnits j place factor) (r : ℚ) : j.Contains r ↔ i.Contains (r * 10 ^ place) := by
  have positive := units.positive
  have product : r * j.denominator = r * 10 ^ place * i.denominator * factor := by
    rw [units.denominator]
    ring
  unfold Contains
  rw [product, units.low, units.high, units.closed, mul_le_mul_iff_left₀ positive,
    mul_le_mul_iff_left₀ positive, mul_lt_mul_iff_left₀ positive, mul_lt_mul_iff_left₀ positive]

theorem holds_of_nearest? {i : Interval} {n : Nat} (found : i.nearest? = some n) : i.holds n := by
  unfold nearest? at found
  simp only at found
  split at found
  · cases found
  · rename_i holds _
    rw [← Option.some.inj found, holds]
  · rename_i holds
    rw [← Option.some.inj found, holds]
  · rename_i down up
    split at found
    · rw [← Option.some.inj found, down]
    split at found
    · rw [← Option.some.inj found]
      split
      · exact down
      · exact up
    · rw [← Option.some.inj found, up]

/-- An interval without a whole number of units on either side of its value is no wider than a
unit. -/
theorem narrow_of_nearest? {i : Interval} (positive : 0 < i.denominator) (low : i.low ≤ i.value)
    (high : i.value < i.high) (missed : i.nearest? = none) :
    i.high ≤ i.low + i.denominator := by
  have parts : i.denominator * (i.value / i.denominator) + i.value % i.denominator = i.value :=
    Nat.div_add_mod _ _
  have small : i.value % i.denominator < i.denominator := Nat.mod_lt _ positive
  have neither : i.holds (i.value / i.denominator) = false ∧
      i.holds (i.value / i.denominator + 1) = false := by
    unfold nearest? at missed
    simp only at missed
    split at missed
    · exact ⟨‹_›, ‹_›⟩
    · cases missed
    · cases missed
    · split at missed
      · cases missed
      split at missed
      · cases missed
      · cases missed
  generalize i.value / i.denominator = down at parts neither
  rw [mul_comm] at parts
  obtain ⟨notDown, notUp⟩ := neither
  unfold holds at notDown notUp
  rw [Nat.succ_mul] at notUp
  generalize down * i.denominator = units at parts notDown notUp
  cases closed : i.closed with
  | true =>
      simp only [closed, if_true, Bool.and_eq_false_iff, decide_eq_false_iff_not, not_le]
        at notDown notUp
      omega
  | false =>
      simp only [closed, Bool.false_eq_true, if_false, Bool.and_eq_false_iff,
        decide_eq_false_iff_not, not_lt] at notDown notUp
      omega

/-- An interval around its value that holds no decimal of a place next to it is no wider than a unit
of that place. -/
theorem InUnits.narrow {i j : Interval} {place : Int} {factor : ℚ} (units : i.InUnits j place factor)
    (positive : 0 < i.denominator) (low : i.low ≤ i.value) (high : i.value < i.high)
    (missed : j.nearest? = none) : (i.high : ℚ) ≤ i.low + i.denominator * 10 ^ place := by
  have factorPositive := units.positive
  have unit := ten_zpow_pos place
  have denominatorPositive : (0 : ℚ) < i.denominator := by exact_mod_cast positive
  have jPositive : (0 : ℚ) < j.denominator := by
    rw [units.denominator]
    positivity
  have jLow : (j.low : ℚ) ≤ j.value := by
    rw [units.low, units.value, mul_le_mul_iff_left₀ factorPositive]
    exact_mod_cast low
  have jHigh : (j.value : ℚ) < j.high := by
    rw [units.value, units.high, mul_lt_mul_iff_left₀ factorPositive]
    exact_mod_cast high
  have narrow : (j.high : ℚ) ≤ j.low + j.denominator := by
    exact_mod_cast narrow_of_nearest? (by exact_mod_cast jPositive) (by exact_mod_cast jLow)
      (by exact_mod_cast jHigh) missed
  rwa [units.high, units.low, units.denominator, ← add_mul,
    mul_le_mul_iff_left₀ factorPositive] at narrow

theorem search_contains {i : Interval} {fuel : Nat} {place : Int}
    (found : ∃ k < fuel, (i.inUnits (place - k)).nearest? ≠ none) :
    i.Contains ((i.search fuel place).1 * 10 ^ (i.search fuel place).2) := by
  induction fuel generalizing place with
  | zero =>
      obtain ⟨k, less, -⟩ := found
      omega
  | succ fuel ih =>
      rw [search]
      cases here : (i.inUnits place).nearest? with
      | some digits =>
          obtain ⟨factor, units⟩ := i.inUnits_spec place
          exact (units.contains_iff _).mp ((holds_iff _ _).mp (holds_of_nearest? here))
      | none =>
          obtain ⟨k, less, later⟩ := found
          cases k with
          | zero =>
              rw [Nat.cast_zero, sub_zero] at later
              exact absurd here later
          | succ k =>
              refine ih ⟨k, by omega, ?_⟩
              rwa [sub_sub, add_comm (1 : Int), ← Nat.cast_succ]

end Interval

/-! ## Seventeen digits -/

/-- The estimate of a decimal logarithm is not too large. -/
theorem ten_zpow_le {k g : Int} (estimate : 100000 * (g + 1) ≤ 30103 * k) (low : -2000 ≤ k)
    (high : k ≤ 2000) : (10 : ℚ) ^ g ≤ 2 ^ k := by
  -- Two fractions on either side of the logarithm settle the two signs.
  have scaled : ∀ a b : Nat, a ≠ 0 → (a : Int) * g ≤ b * k →
      (10 : ℚ) ^ ((b : Int) * k) ≤ 2 ^ ((a : Int) * k) → (10 : ℚ) ^ g ≤ 2 ^ k := by
    intro a b some less powers
    refine le_of_pow_le_pow_left₀ some (two_zpow_pos k).le ?_
    rw [← zpow_natCast, ← zpow_natCast, ← zpow_mul, ← zpow_mul, mul_comm g, mul_comm k]
    exact (zpow_le_zpow_right₀ (by norm_num) less).trans powers
  rcases le_total 0 k with nonnegative | negative
  · obtain ⟨n, rfl⟩ := Int.eq_ofNat_of_zero_le nonnegative
    refine scaled 196 59 (by decide) (by push_cast; omega) ?_
    rw [zpow_mul, zpow_mul, zpow_natCast, zpow_natCast]
    exact pow_le_pow_left₀ (by positivity) (by norm_num) n
  · obtain ⟨n, rfl⟩ : ∃ n : Nat, k = -n := ⟨(-k).toNat, by omega⟩
    refine scaled 93 28 (by decide) (by push_cast; omega) ?_
    rw [zpow_mul, zpow_mul, zpow_neg, zpow_neg, zpow_natCast, zpow_natCast]
    exact inv_anti₀ (by positivity) (pow_le_pow_left₀ (by positivity) (by norm_num) n)

theorem decimalExponent_le {i : Interval} (some : 0 < i.value) (positive : 0 < i.denominator)
    (low : -1900 ≤ (i.value.log2 : Int) - i.denominator.log2)
    (high : (i.value.log2 : Int) - i.denominator.log2 ≤ 1900) :
    (10 : ℚ) ^ i.decimalExponent ≤ i.value / i.denominator := by
  have denPositive : (0 : ℚ) < i.denominator := by exact_mod_cast positive
  have reaches : ∀ e : Int, (i.inUnits e).value ≥ (i.inUnits e).denominator →
      (10 : ℚ) ^ e ≤ i.value / i.denominator := by
    intro e wide
    obtain ⟨factor, units⟩ := i.inUnits_spec e
    have factorPositive := units.positive
    have wideValue : ((i.inUnits e).denominator : ℚ) ≤ (i.inUnits e).value := by exact_mod_cast wide
    rw [units.denominator, units.value, mul_le_mul_iff_left₀ factorPositive] at wideValue
    rw [le_div_iff₀ denPositive]
    linarith
  obtain ⟨bits, isBits⟩ : ∃ bits : Int, (i.value.log2 : Int) - i.denominator.log2 = bits := ⟨_, rfl⟩
  obtain ⟨below, -⟩ := fraction_bounds some positive
  have unfolded : i.decimalExponent =
      let guess : Int := (bits - 1) * 30103 / 100000
      if decide ((i.inUnits (guess + 2)).value ≥ (i.inUnits (guess + 2)).denominator) then guess + 2
      else if decide ((i.inUnits (guess + 1)).value ≥ (i.inUnits (guess + 1)).denominator) then
        guess + 1
      else if decide ((i.inUnits guess).value ≥ (i.inUnits guess).denominator) then guess
      else guess - 1 := by
    rw [← isBits]
    rfl
  rw [isBits] at low high below
  rw [unfolded]
  simp only [decide_eq_true_eq]
  split
  · exact reaches _ ‹_›
  split
  · exact reaches _ ‹_›
  split
  · exact reaches _ ‹_›
  · refine (@ten_zpow_le (bits - 1) _ (by omega) (by omega) (by omega)).trans ?_
    rw [zpow_sub_one₀ (by norm_num)]
    linarith

namespace Interval.Measures
variable {i : Interval} {m below : Nat} {q : Int} {scale : ℚ}

theorem value_div_denominator (measures : i.Measures m q below scale) :
    (i.value : ℚ) / i.denominator = m * 2 ^ q := by
  have denPositive : (0 : ℚ) < i.denominator := by exact_mod_cast measures.denominatorPositive
  rw [measures.value, div_eq_iff denPositive.ne', mul_assoc (m : ℚ), mul_comm (2 ^ q) _,
    measures.denominator]
  ring

theorem value_pos (measures : i.Measures m q below scale) (positive : 0 < m) : 0 < i.value := by
  have scalePositive := measures.positive
  have value : (0 : ℚ) < i.value := by
    rw [measures.value]
    positivity
  exact_mod_cast value

theorem around_value (measures : i.Measures m q below scale) : i.low ≤ i.value ∧ i.value < i.high := by
  have scalePositive := measures.positive
  have low : (i.low : ℚ) ≤ i.value := by
    rw [measures.low, measures.value]
    nlinarith
  have high : (i.value : ℚ) < i.high := by
    rw [measures.high, measures.value]
    nlinarith
  exact ⟨by exact_mod_cast low, by exact_mod_cast high⟩

/-- The interval is wider than a unit of the seventeenth digit. -/
theorem wide (measures : i.Measures m q below scale) {e : Int}
    (reached : (10 : ℚ) ^ e ≤ m * 2 ^ q) (digits : 4 * m < (2 + below) * 10 ^ 16) :
    (i.low : ℚ) + i.denominator * 10 ^ (e - 16) < i.high := by
  have unit := two_zpow_pos q
  have scalePositive := measures.positive
  have isDenominator : (i.denominator : ℚ) = 4 * scale / 2 ^ q := by
    rw [eq_div_iff unit.ne', measures.denominator]
  have small : (10 : ℚ) ^ (e - 16) = 10 ^ e / 10 ^ (16 : Nat) := by
    rw [zpow_sub₀ (by norm_num)]
    rfl
  have atMost : 4 * scale / 2 ^ q * (10 ^ e / 10 ^ (16 : Nat)) ≤ 4 * m * scale / 10 ^ (16 : Nat) := by
    rw [div_mul_div_comm, div_le_div_iff₀ (by positivity) (by positivity)]
    have bound := mul_le_mul_of_nonneg_left reached
      (show (0 : ℚ) ≤ 4 * scale * 10 ^ (16 : Nat) by positivity)
    linarith
  have digitsValue : (4 * m : ℚ) < (2 + below) * 10 ^ (16 : Nat) := by exact_mod_cast digits
  have less : 4 * m * scale / 10 ^ (16 : Nat) < (2 + below) * scale := by
    rw [div_lt_iff₀ (by positivity)]
    nlinarith
  rw [measures.low, measures.high, isDenominator, small]
  linarith

end Interval.Measures

theorem HasMagnitude.seventeen_digits {x : Binary64} {m : Nat} {q : Int}
    (magnitude : x.HasMagnitude m q) : 4 * m < (2 + x.quartersBelow) * 10 ^ 16 := by
  have small := magnitude.small
  rw [magnitude.quarters]
  split <;> omega

theorem HasMagnitude.logarithm {x : Binary64} {m : Nat} {q : Int}
    (magnitude : x.HasMagnitude m q) (positive : 0 < m) {bits : Int}
    (below : (2 : ℚ) ^ bits < 2 * (m * 2 ^ q)) (above : (m : ℚ) * 2 ^ q < 2 * 2 ^ bits) :
    -1900 ≤ bits ∧ bits ≤ 1900 := by
  have unit := two_zpow_pos q
  have least := magnitude.least
  have greatest := magnitude.greatest
  have small : (m : ℚ) < 2 ^ (53 : Nat) := by exact_mod_cast magnitude.small
  have one : (1 : ℚ) ≤ m := by exact_mod_cast positive
  constructor
  · have less : (2 : ℚ) ^ q < 2 ^ (1 + bits) := by
      rw [zpow_one_add₀ (by norm_num)]
      nlinarith
    have order := (zpow_lt_zpow_iff_right₀ (by norm_num)).mp less
    omega
  · have less : (2 : ℚ) ^ bits < 2 ^ ((54 : Nat) + q) := by
      rw [zpow_add₀ (by norm_num), zpow_natCast]
      nlinarith
    have order := (zpow_lt_zpow_iff_right₀ (by norm_num)).mp less
    omega

theorem dropZeros_value (fuel digits : Nat) (place : Int) :
    ((dropZeros fuel digits place).1 : ℚ) * 10 ^ (dropZeros fuel digits place).2 =
      digits * 10 ^ place := by
  induction fuel generalizing digits place with
  | zero => rfl
  | succ fuel ih =>
      rw [dropZeros]
      split
      · rename_i divides
        have parts : 10 * (digits / 10) = digits :=
          Nat.mul_div_cancel' (Nat.dvd_of_mod_eq_zero divides.2)
        rw [ih, add_comm, zpow_one_add₀ (by norm_num)]
        nth_rewrite 2 [← parts]
        push_cast
        ring
      · rfl

theorem decimalLength_bounds {digits : Nat} (some : 0 < digits) :
    (10 : ℚ) ^ ((decimalLength digits : Int) - 1) ≤ digits ∧
      (digits : ℚ) < 10 ^ (decimalLength digits : Int) := by
  obtain ⟨length, isLength⟩ : ∃ length, decimalLength digits = length := ⟨_, rfl⟩
  have lengthPositive : 0 < length := isLength ▸ Nat.length_toDigits_pos
  rw [isLength]
  constructor
  · rcases Nat.eq_or_lt_of_le (Nat.succ_le_of_lt lengthPositive) with single | more
    · rw [show (length : Int) - 1 = 0 by omega, zpow_zero]
      exact_mod_cast some
    · have notShorter := mt (Nat.length_toDigits_le_iff (by decide : 1 < 10)
        (show 0 < length - 1 by omega)).mpr (show ¬ decimalLength digits ≤ length - 1 by omega)
      rw [show (length : Int) - 1 = (length - 1 : Nat) by omega, zpow_natCast]
      exact_mod_cast not_lt.mp notShorter
  · rw [zpow_natCast]
    exact_mod_cast (Nat.length_toDigits_le_iff (by decide) lengthPositive).mp isLength.le

section Finite
variable {x : Binary64} (finite : x.isFinite) (notZero : x.isZero = false)
include finite notZero

theorem shortest_contains :
    x.interval.Contains ((x.shortest.1 : ℚ) * 10 ^ x.shortest.2) := by
  obtain ⟨m, q, magnitude⟩ := hasMagnitude finite
  have positive := magnitude.positive notZero
  obtain ⟨scale, measures⟩ := interval_measures magnitude positive
  have denominatorPositive := measures.denominatorPositive
  have size := measures.value_div_denominator
  have some := measures.value_pos positive
  obtain ⟨below, above⟩ := fraction_bounds some denominatorPositive
  rw [size] at below above
  obtain ⟨low, high⟩ := magnitude.logarithm positive below above
  have reached := decimalExponent_le some denominatorPositive low high
  rw [size] at reached
  have wide := measures.wide reached magnitude.seventeen_digits
  rw [shortest]
  simp only
  rw [dropZeros_value]
  -- a search that missed at the seventeenth digit would have an interval no wider than its unit
  refine Interval.search_contains ⟨17, by decide, fun missed => ?_⟩
  generalize x.interval.decimalExponent = e at wide missed
  rw [show e + 1 - (17 : Nat) = e - 16 by push_cast; ring] at missed
  obtain ⟨factor, units⟩ := x.interval.inUnits_spec (e - 16)
  obtain ⟨lowValue, valueHigh⟩ := measures.around_value
  have narrow := units.narrow denominatorPositive lowValue valueHigh missed
  linarith

theorem contained_range {r : ℚ} (contained : x.interval.Contains r) :
    (10 : ℚ) ^ (-326 : Int) < r ∧ r < 10 ^ (310 : Int) := by
  obtain ⟨m, q, magnitude⟩ := hasMagnitude finite
  have positive := magnitude.positive notZero
  obtain ⟨scale, measures⟩ := interval_measures magnitude positive
  obtain ⟨⟨low, high⟩, -⟩ := (measures.contains_iff r).mp contained
  have unit := two_zpow_pos q
  have atMost : (x.quartersBelow : ℚ) ≤ 2 := by exact_mod_cast x.quartersBelow_le
  have one : (1 : ℚ) ≤ m := by exact_mod_cast positive
  have small : (m : ℚ) + 1 ≤ 2 ^ (53 : Nat) := by exact_mod_cast magnitude.small
  rw [le_div_iff₀ unit] at low
  rw [div_le_iff₀ unit] at high
  have least : (10 : ℚ) ^ (-325 : Int) ≤ 2 ^ q :=
    (ten_zpow_le (by decide) (by decide) (by decide)).trans
      (zpow_le_zpow_right₀ (by norm_num) magnitude.least)
  have greatest : (2 : ℚ) ^ (53 : Nat) * 2 ^ q ≤ 10 ^ (310 : Int) := by
    have bound : (10 : ℚ) ^ (-310 : Int) ≤ 2 ^ (-1024 : Int) :=
      ten_zpow_le (by decide) (by decide) (by decide)
    rw [zpow_neg, zpow_neg, inv_le_inv₀ (ten_zpow_pos _) (two_zpow_pos _)] at bound
    refine le_trans ?_ bound
    rw [← zpow_natCast, ← zpow_add₀ (by norm_num)]
    exact zpow_le_zpow_right₀ (by norm_num) (by have := magnitude.greatest; omega)
  have smaller : (10 : ℚ) ^ (-325 : Int) = 10 * 10 ^ (-326 : Int) := by
    rw [← zpow_one_add₀ (by norm_num)]
    rfl
  have positiveUnit := ten_zpow_pos (-326)
  rw [smaller] at least
  generalize (10 : ℚ) ^ (-326 : Int) = leastUnit at least positiveUnit ⊢
  generalize (10 : ℚ) ^ (310 : Int) = limit at greatest ⊢
  constructor <;> nlinarith

/-- A decimal in the interval of a positive number is read as it, its sign apart. -/
theorem bits_ofDecimal {digits : Nat} {place : Int}
    (contained : x.interval.Contains ((digits : ℚ) * 10 ^ place)) :
    (ofDecimal digits place).bits.toNat = x.exponentField * 2 ^ 52 + x.fractionField := by
  obtain ⟨above, below⟩ := contained_range finite notZero contained
  have unit := ten_zpow_pos place
  have some : 0 < digits := by
    rcases Nat.eq_zero_or_pos digits with rfl | positive
    · have nonnegative := (ten_zpow_pos (-326)).le
      rw [Nat.cast_zero, zero_mul] at above
      linarith
    · exact positive
  obtain ⟨lower, upper⟩ := decimalLength_bounds some
  obtain ⟨length, isLength⟩ : ∃ length, decimalLength digits = length := ⟨_, rfl⟩
  rw [isLength] at lower upper
  -- neither of the two early answers, zero and infinity, is given
  have atMost : place + length ≤ 310 := by
    have less : (10 : ℚ) ^ ((length : Int) - 1 + place) < 10 ^ (310 : Int) := by
      rw [zpow_add₀ (by norm_num)]
      nlinarith
    have order := (zpow_lt_zpow_iff_right₀ (by norm_num)).mp less
    omega
  have atLeast : -326 < place + length := by
    have less : (10 : ℚ) ^ (-326 : Int) < 10 ^ ((length : Int) + place) := by
      rw [zpow_add₀ (by norm_num)]
      nlinarith
    have order := (zpow_lt_zpow_iff_right₀ (by norm_num)).mp less
    omega
  rw [ofDecimal, if_neg some.ne', isLength]
  simp only
  rw [if_neg (by omega), if_neg (by omega)]
  split
  · obtain ⟨n, rfl⟩ := Int.eq_ofNat_of_zero_le ‹_›
    refine bits_ofFraction finite notZero (Nat.mul_pos some (Nat.pow_pos (by decide))) one_pos ?_
    rw [Int.toNat_natCast, Nat.pow_eq]
    push_cast
    rwa [div_one, ← zpow_natCast]
  · obtain ⟨n, rfl⟩ : ∃ n : Nat, place = -n := ⟨(-place).toNat, by omega⟩
    refine bits_ofFraction finite notZero some (Nat.pow_pos (by decide)) ?_
    rw [neg_neg, Int.toNat_natCast, Nat.pow_eq]
    push_cast
    rwa [div_eq_mul_inv, ← zpow_natCast, ← zpow_neg]

end Finite

/-! ## Signs -/

theorem eq_of_bits {x y : Binary64}
    (same : y.bits.toNat = x.exponentField * 2 ^ 52 + x.fractionField) :
    x = if x.negative then y.negate else y := by
  have exponent := x.exponentField_lt
  have fraction := x.fractionField_lt
  have bits := x.bits_eq
  rw [← same] at bits
  have flipped : y.negate.bits.toNat = 2 ^ 63 + y.bits.toNat := by
    have less : y.bits.toNat < 2 ^ 63 := by omega
    change (y.bits ^^^ 0x8000000000000000).toNat = _
    have quotient := @Nat.xor_div_two_pow y.bits.toNat (2 ^ 63) 63
    have rest := @Nat.xor_mod_two_pow y.bits.toNat (2 ^ 63) 63
    rw [Nat.div_eq_of_lt less, Nat.div_self (Nat.two_pow_pos 63), Nat.zero_xor] at quotient
    rw [Nat.mod_eq_of_lt less, Nat.mod_self, Nat.xor_zero] at rest
    rw [UInt64.toNat_xor]
    change y.bits.toNat ^^^ 2 ^ 63 = _
    rw [← Nat.div_add_mod (y.bits.toNat ^^^ 2 ^ 63) (2 ^ 63), quotient, rest, mul_one]
  have equal : ∀ z : Binary64, x.bits.toNat = z.bits.toNat → x = z := by
    intro z sameBits
    cases x
    cases z
    simpa [UInt64.toNat_inj] using sameBits
  split
  · rename_i negative
    rw [if_pos negative] at bits
    exact equal _ (bits.trans flipped.symm)
  · rename_i positive
    rw [if_neg positive] at bits
    exact equal _ (by omega)

end ChartInflation.Binary64
