import ChartInflation.Number.Binary64
import Mathlib.Algebra.Order.Field.Power
import Mathlib.Data.Rat.Cast.Order
import Mathlib.Tactic.FieldSimp
import Mathlib.Tactic.Linarith
import Mathlib.Tactic.Positivity
import Mathlib.Tactic.Ring

/-!
# Rounding to binary64 numbers

A fraction is read by its exponent and its significand.  The exponent is the only one at which the
significand has fifty-three bits, or the least one (`significandExponent_eq`), and the significand
is the nearest whole number there, the even one of two that are as near (`roundQuotient_eq`).
-/

set_option autoImplicit false

namespace ChartInflation.Binary64

/-! ## Quotients -/

/-- A number rounds to `m` if it is less than a half off, or a half off and `m` is even. -/
structure Rounds (r : ℚ) (m : Nat) : Prop where
  above : (m : ℚ) - 1 / 2 ≤ r
  below : r ≤ m + 1 / 2
  tie : m % 2 = 1 → (m : ℚ) - 1 / 2 < r ∧ r < m + 1 / 2

theorem Rounds.bounds {num den m : Nat} (positive : 0 < den)
    (rounds : Rounds ((num : ℚ) / den) m) :
    2 * m * den ≤ 2 * num + den ∧ 2 * num ≤ 2 * m * den + den ∧
      (m % 2 = 1 → 2 * m * den < 2 * num + den ∧ 2 * num < 2 * m * den + den) := by
  have denPositive : (0 : ℚ) < den := by exact_mod_cast positive
  obtain ⟨above, below, tie⟩ := rounds
  rw [le_div_iff₀ denPositive] at above
  rw [div_le_iff₀ denPositive] at below
  rw [lt_div_iff₀ denPositive, div_lt_iff₀ denPositive] at tie
  have scaledAbove : (2 * m * den : ℚ) ≤ 2 * num + den := by linarith
  have scaledBelow : (2 * num : ℚ) ≤ 2 * m * den + den := by linarith
  refine ⟨by exact_mod_cast scaledAbove, by exact_mod_cast scaledBelow, fun odd => ?_⟩
  obtain ⟨strictlyAbove, strictlyBelow⟩ := tie odd
  have scaledOver : (2 * m * den : ℚ) < 2 * num + den := by linarith
  have scaledUnder : (2 * num : ℚ) < 2 * m * den + den := by linarith
  exact ⟨by exact_mod_cast scaledOver, by exact_mod_cast scaledUnder⟩

theorem roundQuotient_eq {num den m : Nat} (positive : 0 < den)
    (rounds : Rounds ((num : ℚ) / den) m) : roundQuotient num den = m := by
  obtain ⟨above, below, tie⟩ := rounds.bounds positive
  have parts : den * (num / den) + num % den = num := Nat.div_add_mod num den
  have small : num % den < den := Nat.mod_lt _ positive
  unfold roundQuotient
  generalize num / den = whole at parts ⊢
  generalize num % den = rest at parts small ⊢
  subst parts
  -- the nearest whole number is the quotient or the one above it
  have close : m = whole ∨ m = whole + 1 := by
    have notBelow : whole < m + 1 := by
      by_contra high
      have far : (m + 1) * den ≤ whole * den := Nat.mul_le_mul_right _ (by omega)
      nlinarith
    have notAbove : m < whole + 2 := by
      by_contra high
      have far : (whole + 2) * den ≤ m * den := Nat.mul_le_mul_right _ (by omega)
      nlinarith
    omega
  rcases close with rfl | rfl
  · have upper : 2 * rest ≤ den := by nlinarith
    have strict : m % 2 = 1 → 2 * rest < den := by
      intro odd
      have bound := (tie odd).2
      nlinarith
    simp only
    split
    · rfl
    split
    · omega
    · omega
  · have lower : den ≤ 2 * rest := by nlinarith
    have strict : (whole + 1) % 2 = 1 → den < 2 * rest := by
      intro odd
      have bound := (tie odd).1
      nlinarith
    simp only
    split
    · omega
    split
    · omega
    · rfl

theorem two_zpow_pos (q : Int) : (0 : ℚ) < 2 ^ q := zpow_pos (by norm_num) q

theorem scaled_spec {num den : Nat} (positive : 0 < den) (q : Int) :
    0 < (scaled num den q).2 ∧
      ((scaled num den q).1 : ℚ) / (scaled num den q).2 = num / den / 2 ^ q := by
  unfold scaled
  have denPositive : (0 : ℚ) < den := by exact_mod_cast positive
  split
  · obtain ⟨n, rfl⟩ := Int.eq_ofNat_of_zero_le ‹_›
    refine ⟨Nat.mul_pos positive (Nat.two_pow_pos _), ?_⟩
    rw [Int.toNat_natCast, Nat.pow_eq, zpow_natCast, div_div]
    push_cast
    rfl
  · obtain ⟨n, rfl⟩ : ∃ n : Nat, q = -n := ⟨(-q).toNat, by omega⟩
    refine ⟨positive, ?_⟩
    rw [neg_neg, Int.toNat_natCast, Nat.pow_eq, zpow_neg, zpow_natCast, div_inv_eq_mul,
      div_mul_eq_mul_div]
    push_cast
    rfl

/-! ## Exponents -/

structure IsExponent (r : ℚ) (q : Int) : Prop where
  least : -1074 ≤ q
  below : r < 2 ^ (53 : Nat) * 2 ^ q
  full : q = -1074 ∨ 2 ^ (52 : Nat) * 2 ^ q ≤ r

theorem IsExponent.unique {r : ℚ} {p q : Int} (first : IsExponent r p) (second : IsExponent r q) :
    p = q := by
  have order : ∀ {p q : Int}, IsExponent r p → IsExponent r q → ¬ p < q := by
    intro p q first second less
    have full : (2 : ℚ) ^ (52 : Nat) * 2 ^ q ≤ r := by
      rcases second.full with isLeast | full
      · have least := first.least
        omega
      · exact full
    have step : (2 : ℚ) * 2 ^ p ≤ 2 ^ q := by
      rw [← zpow_one_add₀ (by norm_num)]
      exact zpow_le_zpow_right₀ (by norm_num) (by omega)
    have below := first.below
    linarith
  have notLess := order first second
  have notGreater := order second first
  omega

theorem log2_bounds {n : Nat} (positive : 0 < n) :
    (2 : ℚ) ^ (n.log2 : Int) ≤ n ∧ (n : ℚ) < 2 * 2 ^ (n.log2 : Int) := by
  rw [zpow_natCast]
  constructor
  · exact_mod_cast Nat.log2_self_le positive.ne'
  · have bound := @Nat.lt_log2_self n
    rw [Nat.pow_succ'] at bound
    exact_mod_cast bound

/-- A fraction lies around the quotient of the powers of two below its parts. -/
theorem fraction_bounds {num den : Nat} (some : 0 < num) (positive : 0 < den) :
    2 ^ ((num.log2 : Int) - den.log2) < 2 * ((num : ℚ) / den) ∧
      (num : ℚ) / den < 2 * 2 ^ ((num.log2 : Int) - den.log2) := by
  obtain ⟨numLow, numHigh⟩ := log2_bounds some
  obtain ⟨denLow, denHigh⟩ := log2_bounds positive
  have denPositive : (0 : ℚ) < den := by exact_mod_cast positive
  have lowPositive := two_zpow_pos (den.log2 : Int)
  have numPositive := two_zpow_pos (num.log2 : Int)
  rw [zpow_sub₀ (by norm_num), ← mul_div_assoc, ← mul_div_assoc,
    div_lt_div_iff₀ lowPositive denPositive, div_lt_div_iff₀ denPositive lowPositive]
  constructor <;> nlinarith

theorem isExponent_max {r : ℚ} {q : Int} (below : r < 2 ^ (53 : Nat) * 2 ^ q)
    (full : 2 ^ (52 : Nat) * 2 ^ q ≤ r) : IsExponent r (max q (-1074)) := by
  rcases le_total q (-1074) with tooSmall | large
  · rw [max_eq_right tooSmall]
    refine ⟨le_rfl, lt_of_lt_of_le below ?_, .inl rfl⟩
    exact mul_le_mul_of_nonneg_left (zpow_le_zpow_right₀ (by norm_num) tooSmall) (by norm_num)
  · rw [max_eq_left large]
    exact ⟨large, below, .inr full⟩

theorem significandExponent_isExponent {num den : Nat} (some : 0 < num) (positive : 0 < den) :
    IsExponent ((num : ℚ) / den) (significandExponent num den) := by
  have two : (2 : ℚ) ≠ 0 := by norm_num
  obtain ⟨low, high⟩ := fraction_bounds some positive
  obtain ⟨estimate, sum⟩ : ∃ estimate : Int, (num.log2 : Int) - den.log2 = 53 + estimate :=
    ⟨_, (add_sub_cancel ..).symm⟩
  have estimated : (num.log2 : Int) - (den.log2 : Int) - 53 = estimate := by omega
  obtain ⟨scaledPositive, scaledValue⟩ := @scaled_spec num den positive estimate
  -- the estimate is too small by one at most, which the scaled quotient shows
  have unfolded : significandExponent num den = max
      (if 2 ^ 53 ≤ (scaled num den estimate).1 / (scaled num den estimate).2 then estimate + 1
        else estimate) (-1074) := by
    rw [← estimated]
    rfl
  rw [unfolded]
  clear unfolded
  generalize (scaled num den estimate).1 = n at scaledValue ⊢
  generalize (scaled num den estimate).2 = d at scaledPositive scaledValue ⊢
  have dPositive : (0 : ℚ) < d := by exact_mod_cast scaledPositive
  have estimatePositive := two_zpow_pos estimate
  rw [sum, zpow_add₀ two, show (2 : ℚ) ^ (53 : Int) = 2 ^ (53 : Nat) from rfl] at low high
  have isValue : (num : ℚ) / den = n / d * 2 ^ estimate := by
    rw [scaledValue]
    field_simp
  rw [isValue] at low high ⊢
  split
  · rename_i wide
    rw [Nat.le_div_iff_mul_le scaledPositive] at wide
    have wideValue : (2 : ℚ) ^ (53 : Nat) ≤ n / d := by
      rw [le_div_iff₀ dPositive]
      exact_mod_cast wide
    have step : (2 : ℚ) ^ (estimate + 1) = 2 * 2 ^ estimate := by
      rw [add_comm, zpow_one_add₀ two]
    apply isExponent_max
    · rw [step]
      linarith
    · rw [step]
      nlinarith
  · rename_i narrow
    rw [Nat.le_div_iff_mul_le scaledPositive, not_le] at narrow
    have narrowValue : (n : ℚ) / d < 2 ^ (53 : Nat) := by
      rw [div_lt_iff₀ dPositive]
      exact_mod_cast narrow
    apply isExponent_max
    · exact mul_lt_mul_of_pos_right narrowValue estimatePositive
    · linarith

theorem significandExponent_eq {num den : Nat} (some : 0 < num) (positive : 0 < den) {q : Int}
    (isExponent : IsExponent ((num : ℚ) / den) q) : significandExponent num den = q :=
  (significandExponent_isExponent some positive).unique isExponent

end ChartInflation.Binary64
