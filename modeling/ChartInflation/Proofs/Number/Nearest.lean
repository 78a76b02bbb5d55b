import ChartInflation.Number.Shortest
import ChartInflation.Proofs.Number.Rounding

/-!
# The interval of a binary64 number

The fractions in the interval of a positive finite number are those that are read as it
(`bits_ofFraction`).
-/

set_option autoImplicit false

namespace ChartInflation.Binary64

/-! ## Parts of a number -/

theorem bits_eq (x : Binary64) : x.bits.toNat =
    (if x.negative then 2 ^ 63 else 0) + (x.exponentField * 2 ^ 52 + x.fractionField) := by
  have bound := x.bits.toNat_lt
  simp only [negative, exponentField, fractionField, Nat.pow_eq, ge_iff_le, decide_eq_true_eq]
  split <;> omega

theorem exponentField_lt (x : Binary64) : x.exponentField < 2 ^ 11 :=
  Nat.mod_lt _ (Nat.two_pow_pos 11)

theorem fractionField_lt (x : Binary64) : x.fractionField < 2 ^ 52 :=
  Nat.mod_lt _ (Nat.two_pow_pos 52)

def quartersBelow (x : Binary64) : Nat :=
  if x.fractionField = 0 ∧ x.exponentField > 1 then 1 else 2

structure HasMagnitude (x : Binary64) (m : Nat) (q : Int) : Prop where
  magnitude : x.magnitude = (m, q)
  least : -1074 ≤ q
  greatest : q ≤ 971
  small : m < 2 ^ 53
  full : q = -1074 ∨ 2 ^ 52 ≤ m
  bits : (q + 1074).toNat * 2 ^ 52 + m = x.exponentField * 2 ^ 52 + x.fractionField
  quarters : x.quartersBelow = if m = 2 ^ 52 ∧ q ≠ -1074 then 1 else 2

theorem hasMagnitude {x : Binary64} (finite : x.isFinite) :
    ∃ m q, x.HasMagnitude m q := by
  have exponent := x.exponentField_lt
  have fraction := x.fractionField_lt
  simp only [isFinite, bne_iff_ne] at finite
  by_cases subnormal : x.exponentField = 0
  · refine ⟨x.fractionField, -1074, ?_, by omega, by omega, by omega, .inl rfl, by omega, ?_⟩
    · simp [magnitude, subnormal]
    · simp [quartersBelow, subnormal]
  · refine ⟨2 ^ 52 + x.fractionField, x.exponentField - 1075, ?_, by omega, by omega, by omega,
      .inr (by omega), by omega, ?_⟩
    · simp [magnitude, subnormal]
    · rw [quartersBelow]
      split <;> split <;> omega

theorem quartersBelow_le (x : Binary64) : x.quartersBelow ≤ 2 := by
  rw [quartersBelow]
  split <;> omega

theorem HasMagnitude.positive {x : Binary64} {m : Nat} {q : Int} (magnitude : x.HasMagnitude m q)
    (notZero : x.isZero = false) : 0 < m := by
  have bits := magnitude.bits
  have fraction := x.fractionField_lt
  simp only [isZero, Bool.and_eq_false_iff, beq_eq_false_iff_ne] at notZero
  rcases magnitude.full with rfl | full <;> omega

/-! ## Intervals -/

def Interval.Contains (i : Interval) (r : ℚ) : Prop :=
  if i.closed then (i.low : ℚ) ≤ r * i.denominator ∧ r * i.denominator ≤ i.high
  else (i.low : ℚ) < r * i.denominator ∧ r * i.denominator < i.high

/-- The ends of an interval in units `2 ^ q`, of which it shows `scale / denominator` quarters. -/
structure Interval.Measures (i : Interval) (m : Nat) (q : Int) (below : Nat) (scale : ℚ) :
    Prop where
  positive : 0 < scale
  denominatorPositive : 0 < i.denominator
  low : (i.low : ℚ) = (4 * m - below) * scale
  value : (i.value : ℚ) = 4 * m * scale
  high : (i.high : ℚ) = (4 * m + 2) * scale
  denominator : (i.denominator : ℚ) * 2 ^ q = 4 * scale
  closed : i.closed = (m % 2 == 0)

theorem interval_measures {x : Binary64} {m : Nat} {q : Int} (magnitude : x.HasMagnitude m q)
    (positive : 0 < m) : ∃ scale, x.interval.Measures m q x.quartersBelow scale := by
  have atMost := x.quartersBelow_le
  have reaches : ((4 * m - x.quartersBelow : Nat) : ℚ) = 4 * m - x.quartersBelow := by
    rw [Nat.cast_sub (by omega)]
    push_cast
    rfl
  have unfolded : x.interval = if q ≥ 0 then
      ⟨(4 * m - x.quartersBelow) * 2 ^ q.toNat, 4 * m * 2 ^ q.toNat, (4 * m + 2) * 2 ^ q.toNat, 4,
        m % 2 == 0⟩
    else ⟨4 * m - x.quartersBelow, 4 * m, 4 * m + 2, 4 * 2 ^ (-q).toNat, m % 2 == 0⟩ := by
    rw [interval, magnitude.magnitude]
    rfl
  rw [unfolded]
  split
  · obtain ⟨n, rfl⟩ := Int.eq_ofNat_of_zero_le ‹_›
    refine ⟨2 ^ n, by positivity, Nat.zero_lt_succ 3, ?_, ?_, ?_, ?_, rfl⟩
    · push_cast [reaches, Int.toNat_natCast]
      rfl
    · push_cast [Int.toNat_natCast]
      rfl
    · push_cast [Int.toNat_natCast]
      rfl
    · push_cast [zpow_natCast]
      rfl
  · obtain ⟨n, rfl⟩ : ∃ n : Nat, q = -n := ⟨(-q).toNat, by omega⟩
    refine ⟨1, by positivity, by positivity, ?_, ?_, ?_, ?_, rfl⟩
    · rw [reaches, mul_one]
    · push_cast
      ring
    · push_cast
      ring
    · push_cast [neg_neg, Int.toNat_natCast, zpow_neg, zpow_natCast]
      field_simp

theorem Interval.Measures.contains_iff {i : Interval} {m below : Nat} {q : Int} {scale : ℚ}
    (measures : i.Measures m q below scale) (r : ℚ) : i.Contains r ↔
      ((m : ℚ) - below / 4 ≤ r / 2 ^ q ∧ r / 2 ^ q ≤ m + 1 / 2) ∧
      (m % 2 = 1 → (m : ℚ) - below / 4 < r / 2 ^ q ∧ r / 2 ^ q < m + 1 / 2) := by
  have unit := two_zpow_pos q
  have scalePositive := measures.positive
  have inQuarters : r * i.denominator = 4 * (r / 2 ^ q) * scale := by
    have denominator := measures.denominator
    rw [← eq_div_iff unit.ne'] at denominator
    rw [denominator]
    ring
  unfold Interval.Contains
  rw [inQuarters, measures.low, measures.high, measures.closed]
  generalize r / 2 ^ q = ρ
  rw [mul_le_mul_iff_left₀ scalePositive, mul_le_mul_iff_left₀ scalePositive,
    mul_lt_mul_iff_left₀ scalePositive, mul_lt_mul_iff_left₀ scalePositive]
  rcases Nat.mod_two_eq_zero_or_one m with even | odd
  · simp only [even, beq_self_eq_true, if_true, zero_ne_one, false_implies, and_true]
    constructor <;> rintro ⟨low, high⟩ <;> constructor <;> linarith
  · simp only [odd, Nat.one_ne_zero, beq_iff_eq, if_false, forall_const]
    constructor
    · rintro ⟨low, high⟩
      refine ⟨⟨?_, ?_⟩, ?_, ?_⟩ <;> linarith
    · rintro ⟨-, low, high⟩
      constructor <;> linarith

/-! ## Fractions -/

section Fractions
variable {x : Binary64}

/-- A fraction is read as the number whose bits its rounding counts up to. -/
theorem bits_of_rounds (finite : x.isFinite) {num den : Nat} (some : 0 < num) (positive : 0 < den)
    {p : Int} {n : Nat} (isExponent : IsExponent ((num : ℚ) / den) p)
    (rounds : Rounds ((num : ℚ) / den / 2 ^ p) n)
    (bits : (p + 1074).toNat * 2 ^ 52 + n = x.exponentField * 2 ^ 52 + x.fractionField) :
    (ofFraction num den).bits.toNat = x.exponentField * 2 ^ 52 + x.fractionField := by
  obtain ⟨scaledPositive, scaledValue⟩ := @scaled_spec num den positive p
  rw [← scaledValue] at rounds
  have unfolded : ofFraction num den = if (p + 1074).toNat * 2 ^ 52 + n ≥ 2047 * 2 ^ 52
      then infinity else ⟨UInt64.ofNat ((p + 1074).toNat * 2 ^ 52 + n)⟩ := by
    rw [ofFraction, significandExponent_eq some positive isExponent,
      ← roundQuotient_eq scaledPositive rounds]
    rfl
  have small := x.fractionField_lt
  have below : x.exponentField < 2047 := by
    have bound := x.exponentField_lt
    simp only [isFinite, bne_iff_ne] at finite
    omega
  rw [unfolded, bits, if_neg (by omega), UInt64.toNat_ofNat']
  omega

/-- An interval goes below the numbers of its exponent at a power of two only, and there it goes half
as far. -/
theorem HasMagnitude.power {m : Nat} {q : Int} (magnitude : x.HasMagnitude m q)
    (notLeast : q ≠ -1074) {r : ℚ} (low : (m : ℚ) - x.quartersBelow / 4 ≤ r)
    (outside : r < 2 ^ (52 : Nat)) : m = 2 ^ 52 ∧ x.quartersBelow = 1 := by
  have atMost : (x.quartersBelow : ℚ) ≤ 2 := by exact_mod_cast x.quartersBelow_le
  have full := magnitude.full.resolve_left notLeast
  have near : (m : ℚ) < 2 ^ (52 : Nat) + 1 := by linarith
  have less : m < 2 ^ 52 + 1 := by exact_mod_cast near
  have isPower : m = 2 ^ 52 := by omega
  exact ⟨isPower, by rw [magnitude.quarters, if_pos ⟨isPower, notLeast⟩]⟩

/-- A fraction below a power of two, where the numbers lie twice as dense, rounds to that power. -/
theorem bits_below_power (finite : x.isFinite) {num den : Nat} (some : 0 < num) (positive : 0 < den)
    {q : Int} (least : -1074 < q)
    (bits : (q + 1074).toNat * 2 ^ 52 + 2 ^ 52 = x.exponentField * 2 ^ 52 + x.fractionField)
    (low : (2 : ℚ) ^ (52 : Nat) - 1 / 4 ≤ (num : ℚ) / den / 2 ^ q)
    (below : (num : ℚ) / den / 2 ^ q < 2 ^ (52 : Nat)) :
    (ofFraction num den).bits.toNat = x.exponentField * 2 ^ 52 + x.fractionField := by
  have unit := two_zpow_pos q
  have half : (num : ℚ) / den / 2 ^ (q - 1) = 2 * ((num : ℚ) / den / 2 ^ q) := by
    rw [zpow_sub_one₀ (by norm_num)]
    field_simp
  have twice : (2 : ℚ) ^ q = 2 * 2 ^ (q - 1) := by
    rw [← zpow_one_add₀ (by norm_num)]
    congr 1
    ring
  have counts : (q - 1 + 1074).toNat * 2 ^ 52 + 2 ^ 53 =
      x.exponentField * 2 ^ 52 + x.fractionField := by
    have step : (q + 1074).toNat = (q - 1 + 1074).toNat + 1 := by omega
    rw [← bits, step]
    ring
  have even : (2 ^ 53) % 2 ≠ 1 := by norm_num
  refine bits_of_rounds finite some positive ⟨by omega, ?_, .inr ?_⟩
    ⟨?_, ?_, fun odd => absurd odd even⟩ counts
  · rw [div_lt_iff₀ unit, twice] at below
    linarith
  · rw [le_div_iff₀ unit, twice] at low
    nlinarith
  · rw [half]
    push_cast
    linarith
  · rw [half]
    push_cast
    linarith

/-- All fractions in the interval of a positive finite number are read as it, its sign apart. -/
theorem bits_ofFraction (finite : x.isFinite) (notZero : x.isZero = false) {num den : Nat}
    (some : 0 < num) (positive : 0 < den) (contained : x.interval.Contains ((num : ℚ) / den)) :
    (ofFraction num den).bits.toNat = x.exponentField * 2 ^ 52 + x.fractionField := by
  obtain ⟨m, q, magnitude⟩ := hasMagnitude finite
  obtain ⟨scale, measures⟩ := interval_measures magnitude (magnitude.positive notZero)
  obtain ⟨⟨low, high⟩, tie⟩ := (measures.contains_iff _).mp contained
  have unit := two_zpow_pos q
  have bits := magnitude.bits
  have least := magnitude.least
  by_cases inside : q = -1074 ∨ 2 ^ (52 : Nat) * 2 ^ q ≤ (num : ℚ) / den
  · have small : (m : ℚ) + 1 ≤ 2 ^ (53 : Nat) := by exact_mod_cast magnitude.small
    have atMost : (x.quartersBelow : ℚ) ≤ 2 := by exact_mod_cast x.quartersBelow_le
    refine bits_of_rounds finite some positive ⟨least, ?_, inside⟩
      ⟨by linarith, high, fun odd => ?_⟩ bits
    · rw [div_le_iff₀ unit] at high
      nlinarith
    · obtain ⟨above, below⟩ := tie odd
      exact ⟨by linarith, below⟩
  · obtain ⟨notLeast, outside⟩ := not_or.mp inside
    rw [← le_div_iff₀ unit, not_le] at outside
    obtain ⟨isPower, quarter⟩ := magnitude.power notLeast low outside
    rw [quarter, isPower] at low
    push_cast at low
    exact bits_below_power finite some positive (by omega) (isPower ▸ bits) (by linarith) outside

end Fractions

end ChartInflation.Binary64
