import Mathlib.Algebra.Order.Round
import Tween.Config.Rounding
import Tween.Proofs.Exact.Field

/-! Rounding of exact numbers. What it gives is fixed by three demands, and all that is known of it
follows from these: it keeps the order and the sign, and what is rounded already stays as it is. -/

namespace Tween

/-- A multiple of `unit` that no other one comes nearer to `x` than; of two equally near ones the
one farther away from zero. -/
structure Nearest (unit x r : ℝ) : Prop where
  multiple : ∃ n : ℤ, r = n * unit
  closest (n : ℤ) : |x - r| ≤ |x - n * unit|
  away (n : ℤ) : |x - n * unit| = |x - r| → |n * unit| ≤ |r|

namespace Nearest
variable {unit x y r s : ℝ}

theorem unique (first : Nearest unit x r) (second : Nearest unit x s) : r = s := by
  obtain ⟨m, rfl⟩ := first.multiple
  obtain ⟨n, rfl⟩ := second.multiple
  have near : |x - n * unit| = |x - m * unit| := le_antisymm (second.closest m) (first.closest n)
  have far : |m * unit| = |n * unit| := le_antisymm (second.away m near.symm) (first.away n near)
  rcases abs_eq_abs.mp far with same | opposite
  · exact same
  · -- Opposite multiples are equally near only to zero, which is a multiple itself.
    have centre : x = 0 ∨ m * unit = 0 := by
      rcases abs_eq_abs.mp near with same | mirrored
      · right; linarith
      · left; linarith
    rcases centre with rfl | zero
    · have none := first.closest 0
      rw [Int.cast_zero, zero_mul, sub_zero, abs_zero, zero_sub, abs_neg] at none
      have nothing : m * unit = 0 := abs_nonpos_iff.mp none
      linarith
    · linarith

theorem neg (nearest : Nearest unit x r) : Nearest unit (-x) (-r) := by
  have mirrored (n : ℤ) : -x - n * unit = -(x - (-n : ℤ) * unit) := by push_cast; ring
  have centred : -x - -r = -(x - r) := by ring
  obtain ⟨m, same⟩ := nearest.multiple
  refine ⟨⟨-m, by rw [same]; push_cast; ring⟩, fun n => ?_, fun n equal => ?_⟩
  · rw [mirrored, centred, abs_neg, abs_neg]
    exact nearest.closest (-n)
  · rw [mirrored, centred, abs_neg, abs_neg] at equal
    have far := nearest.away (-n) equal
    rwa [Int.cast_neg, neg_mul, abs_neg, ← abs_neg r] at far

theorem self (unit : ℝ) (n : ℤ) : Nearest unit (n * unit) (n * unit) := by
  refine ⟨⟨n, rfl⟩, fun m => ?_, fun m equal => ?_⟩
  · rw [sub_self, abs_zero]
    exact abs_nonneg _
  · rw [sub_self, abs_zero] at equal
    rw [sub_eq_zero.mp (abs_eq_zero.mp equal)]

/-- Two multiples could only change places around the middle between them, where they would be the
same. -/
theorem mono (ordered : x ≤ y) (first : Nearest unit x r) (second : Nearest unit y s) : r ≤ s := by
  by_contra reversed
  rw [not_le] at reversed
  obtain ⟨m, hr⟩ := first.multiple
  obtain ⟨n, hs⟩ := second.multiple
  have above : (r + s) / 2 ≤ x := by
    have near : |x - r| ≤ |x - s| := hs ▸ first.closest n
    have squares := sq_le_sq.mpr near
    nlinarith
  have below : y ≤ (r + s) / 2 := by
    have near : |y - s| ≤ |y - r| := hr ▸ second.closest m
    have squares := sq_le_sq.mpr near
    nlinarith
  obtain rfl : x = y := le_antisymm ordered (below.trans above)
  exact absurd (first.unique second) reversed.ne'

theorem scaled {factor : ℝ} (positive : 0 < factor) (nearest : Nearest unit (x * factor) r) :
    Nearest (unit / factor) x (r / factor) := by
  have shrunk (z : ℝ) : |x - z / factor| = |x * factor - z| / factor := by
    have quotient : x - z / factor = (x * factor - z) / factor := by field_simp
    rw [quotient, abs_div, abs_of_pos positive]
  obtain ⟨m, rfl⟩ := nearest.multiple
  refine ⟨⟨m, mul_div_assoc _ _ _⟩, fun n => ?_, fun n equal => ?_⟩
  · rw [← mul_div_assoc, shrunk, shrunk]
    exact div_le_div_of_nonneg_right (nearest.closest n) positive.le
  · rw [← mul_div_assoc, shrunk, shrunk, div_left_inj' positive.ne'] at equal
    rw [← mul_div_assoc, abs_div, abs_div]
    exact div_le_div_of_nonneg_right (nearest.away n equal) (abs_nonneg factor)

end Nearest

structure Rounding (unit : ℝ) (f : ℝ → ℝ) : Prop where
  nearest (x : ℝ) : Nearest unit x (f x)
  monotone : Monotone f
  odd : f.Odd
  idempotent (x : ℝ) : f (f x) = f x

/-- Whatever gives the nearest multiples keeps the order and the sign, and stops after one step. -/
theorem Rounding.of_nearest {unit : ℝ} {f : ℝ → ℝ} (nearest : ∀ x, Nearest unit x (f x)) : Rounding unit f where
  nearest := nearest
  monotone x y ordered := (nearest x).mono ordered (nearest y)
  odd x := (nearest (-x)).unique (nearest x).neg
  idempotent x := by
    have again := nearest (f x)
    obtain ⟨n, multiple⟩ := (nearest x).multiple
    rw [multiple] at again ⊢
    exact again.unique (.self unit n)

theorem Rounding.fixed {unit : ℝ} {f : ℝ → ℝ} (rounding : Rounding unit f) (n : ℤ) : f (n * unit) = n * unit :=
  (rounding.nearest _).unique (.self unit n)

/-- A half goes up from zero on, so that it goes away from zero. -/
private theorem floor_nearest {x : ℝ} (nonneg : 0 ≤ x) : Nearest 1 x ⌊x + 1 / 2⌋ := by
  have lower : (⌊x + 1 / 2⌋ : ℝ) ≤ x + 1 / 2 := Int.floor_le _
  have upper : x + 1 / 2 < ⌊x + 1 / 2⌋ + 1 := Int.lt_floor_add_one _
  generalize ⌊x + 1 / 2⌋ = m at lower upper
  refine ⟨⟨m, (mul_one _).symm⟩, fun n => ?_, fun n equal => ?_⟩
  · rw [mul_one]
    have half : |x - m| ≤ 1 / 2 := abs_le.mpr ⟨by linarith, by linarith⟩
    rcases eq_or_ne n m with rfl | other
    · exact le_rfl
    · have apart : (1 : ℝ) ≤ |(n : ℝ) - m| := by exact_mod_cast Int.one_le_abs (sub_ne_zero.mpr other)
      have around := abs_sub_le (n : ℝ) x m
      rw [abs_sub_comm (n : ℝ) x] at around
      linarith
  · rw [mul_one] at equal ⊢
    rcases abs_eq_abs.mp equal with same | mirrored
    · rw [sub_right_injective same]
    · -- The half went up, so the other multiple is the lower one.
      have below : (n : ℝ) < m + 1 := by linarith
      have inside : (n : ℝ) ≤ m := by exact_mod_cast Int.lt_add_one_iff.mp (by exact_mod_cast below)
      exact abs_le_abs inside (by linarith)

theorem round_nearest (x : ℝ) : Nearest 1 x (Scalar.round x) := by
  change Nearest 1 x (if 0 ≤ x then (⌊x + 1 / 2⌋ : ℝ) else (⌈x - 1 / 2⌉ : ℝ))
  split
  next nonneg => exact floor_nearest nonneg
  next negative =>
    have mirrored := (floor_nearest (neg_nonneg.mpr (not_le.mp negative).le)).neg
    have ceiling : -(⌊-x + 1 / 2⌋ : ℝ) = ⌈x - 1 / 2⌉ := by
      rw [← Int.cast_neg, ← Int.ceil_neg]
      congr 2
      ring
    rwa [neg_neg, ceiling] at mirrored

namespace Scalar

/-- The digits of the exponent select the squares that multiply up to the power. -/
private theorem selectSquares_eq (digits : Nat) (result base : ℝ) {n : Nat} (fits : n < 2 ^ digits) :
    selectSquares digits result base n = result * base ^ n := by
  induction digits generalizing result base n with
  | zero =>
    obtain rfl : n = 0 := by simpa using fits
    exact (mul_one result).symm
  | succ digits ih =>
    have shorter : n / 2 < 2 ^ digits := by omega
    have halves : base ^ n = base ^ (n % 2) * (base * base) ^ (n / 2) := by
      rw [← sq, ← pow_mul, ← pow_add, Nat.mod_add_div]
    have first : (if n % 2 = 1 then result * base else result) = result * base ^ (n % 2) := by
      rcases Nat.mod_two_eq_zero_or_one n with even | odd
      · rw [even, if_neg Nat.zero_ne_one, pow_zero, mul_one]
      · rw [odd, if_pos rfl, pow_one]
    rw [selectSquares, ih _ _ shorter, first, halves, ← mul_assoc]
    split
    next done => rw [done, pow_zero, mul_one]
    next => rfl

theorem power_eq (base : ℝ) (n : Nat) : power base n = base ^ n := by
  rw [power, selectSquares_eq _ _ _ Nat.lt_log2_self]
  norm_num

theorem powerOfTen_eq (exponent : Int) : (powerOfTen exponent : ℝ) = 10 ^ exponent := by
  have ten : (10.0 : ℝ) = 10 := by norm_num
  unfold powerOfTen
  simp only [power_eq, ten]
  split
  next negative =>
    have one : (1.0 : ℝ) = 1 := by norm_num
    rw [one, one_div, ← zpow_natCast, ← zpow_neg]
    congr 1
    omega
  next nonneg =>
    rw [← zpow_natCast]
    congr 1
    omega

end Scalar

/-- What counts as one in the last of some decimal places. -/
noncomputable def lastPlace (places : UInt32) : ℝ := 10 ^ (-placesExponent places)

theorem roundPlaces_rounding (places : UInt32) : Rounding (lastPlace places) (roundPlaces · places) := by
  refine .of_nearest fun x => ?_
  have positive : (0 : ℝ) < 10 ^ placesExponent places := by positivity
  change Nearest _ x (roundPlaces x places)
  rw [lastPlace, zpow_neg, ← one_div, roundPlaces, Scalar.powerOfTen_eq]
  exact (round_nearest _).scaled positive

end Tween
