import Mathlib.Topology.UnitInterval
import Tween.Proofs.Exact.Beginning

/-! Which easings leave the range of progress. All of them lead from zero to one. Back and elastic
ones set off backwards, and show that in every form; whatever else sets off stays between its ends,
and so does what the two combinators make of it. -/

namespace Tween

namespace Curve

/-- The families that go past their ends on purpose. -/
def overshoots : Curve → Bool
  | back | elastic => true
  | quad | cubic | quart | quint | sine | expo | circ | bounce => false

end Curve

namespace Easing

def overshoots : Easing → Bool
  | step | linear => false
  | easeIn curve | easeOut curve | easeInOut curve => curve.overshoots
  | elasticOutHalf | elasticOutQuarter => true

end Easing

/-- Eased progress is progress again, neither below zero nor above one. -/
def Contained (f : ℝ → ℝ) : Prop := Set.MapsTo f unitInterval unitInterval

namespace Curve
variable {f : ℝ → ℝ}

section Combinators

theorem reverse_eq (f : ℝ → ℝ) (x : ℝ) : reverse f x = 1 - f (1 - x) := by norm_num [reverse]

theorem reverse_reverse (f : ℝ → ℝ) : reverse (reverse f) = f := by
  funext x
  rw [reverse_eq, reverse_eq, sub_sub_cancel, sub_sub_cancel]

theorem inOut_early {x : ℝ} (early : x < 1 / 2) : inOut f x = f (2 * x) / 2 := by
  have first : x < 0.5 := by norm_num [early]
  rw [inOut, if_pos first]
  norm_num

theorem inOut_late {x : ℝ} (late : 1 / 2 ≤ x) : inOut f x = 1 - f (2 * (1 - x)) / 2 := by
  have second : ¬x < 0.5 := by norm_num [late]
  rw [inOut, if_neg second]
  norm_num [mul_sub]

theorem reverse_contained (contained : Contained f) : Contained (reverse f) := by
  intro x inside
  rw [reverse_eq]
  exact Set.Icc.one_sub_mem (contained (Set.Icc.one_sub_mem inside))

theorem inOut_contained (contained : Contained f) : Contained (inOut f) := by
  intro x inside
  rcases lt_or_ge x (1 / 2) with early | late
  · have half := contained (x := 2 * x) ⟨by linarith [inside.1], by linarith⟩
    rw [inOut_early early]
    exact ⟨by linarith [half.1], by linarith [half.2]⟩
  · have half := contained (x := 2 * (1 - x)) ⟨by linarith [inside.2], by linarith⟩
    rw [inOut_late late]
    exact ⟨by linarith [half.2], by linarith [half.1]⟩

end Combinators

section Families

private theorem quadIn_contained : Contained quadIn := fun _ inside => unitInterval.mul_mem inside inside

private theorem cubicIn_contained : Contained cubicIn := fun _ inside =>
  unitInterval.mul_mem (quadIn_contained inside) inside

private theorem quartIn_contained : Contained quartIn := fun _ inside =>
  unitInterval.mul_mem (cubicIn_contained inside) inside

private theorem quintIn_contained : Contained quintIn := fun _ inside =>
  unitInterval.mul_mem (quartIn_contained inside) inside

private theorem sineIn_contained : Contained sineIn := by
  intro x inside
  have quarter : x * Real.pi / 2 ∈ Set.Icc (-(Real.pi / 2)) (Real.pi / 2) := by
    constructor
    · nlinarith [inside.1, Real.pi_pos]
    · nlinarith [inside.2, Real.pi_pos]
  have opened : sineIn x = 1 - Real.cos (x * Real.pi / 2) := by
    norm_num [sineIn, Scalar.cos_eq, Scalar.pi_eq]
  rw [opened]
  exact Set.Icc.one_sub_mem ⟨Real.cos_nonneg_of_mem_Icc quarter, Real.cos_le_one _⟩

private theorem expoIn_contained : Contained expoIn := by
  intro x inside
  rcases inside.1.eq_or_lt with rfl | begun
  · norm_num [expoIn]
  · have opened : expoIn x = 2 ^ (10 * (x - 1)) := by
      norm_num [expoIn, begun.not_ge, Scalar.pow_eq]
    rw [opened]
    refine ⟨Real.rpow_nonneg (by norm_num) _, Real.rpow_le_one_of_one_le_of_nonpos (by norm_num) ?_⟩
    linarith [inside.2]

private theorem circIn_contained : Contained circIn := by
  intro x inside
  have arc := Set.Icc.one_sub_mem (unitInterval.mul_mem inside inside)
  have opened : circIn x = 1 - √(1 - x * x) := by
    have above : ¬1 - x * x < 0 := not_lt.mpr arc.1
    norm_num [circIn, Scalar.greatest, Scalar.sqrt_eq, above]
  rw [opened]
  exact Set.Icc.one_sub_mem ⟨Real.sqrt_nonneg _, Real.sqrt_le_one.mpr arc.2⟩

/-- An arc is at its full height no sooner than `reach` away from its lowest point. -/
private theorem bounceArc_contained {middle floor low reach x : ℝ} (centred : middle / 2.75 = low) (floored : 0 ≤ floor)
    (full : 7.5625 * reach ^ 2 + floor = 1) (near : |x - low| ≤ reach) : bounceArc middle floor x ∈ unitInterval := by
  have square : (x - low) ^ 2 ≤ reach ^ 2 := sq_le_sq' (abs_le.mp near).1 (abs_le.mp near).2
  have opened : bounceArc middle floor x = 7.5625 * (x - low) ^ 2 + floor := by
    rw [bounceArc, centred, mul_assoc, sq]
  rw [opened]
  constructor
  · positivity
  · linarith

/-- The four arcs, the first of them from its lowest point on. -/
private theorem bounceOut_arcs (x : ℝ) : bounceOut x =
    if x < 4 / 11 then bounceArc 0 0 x
    else if x < 8 / 11 then bounceArc 1.5 0.75 x
    else if x < 10 / 11 then bounceArc 2.25 0.9375 x
    else bounceArc 2.625 0.984375 x := by
  norm_num [bounceOut, bounceArc]

private theorem bounceOut_contained : Contained bounceOut := by
  intro x inside
  have begun := inside.1
  have ended := inside.2
  rw [bounceOut_arcs]
  -- Two arcs meet at full height, each at half its width from its lowest point.
  split_ifs with first second third
  · have near : |x - 0| ≤ 4 / 11 := abs_le.mpr ⟨by linarith, by linarith⟩
    exact bounceArc_contained (by norm_num) (by norm_num) (by norm_num) near
  · have near : |x - 6 / 11| ≤ 2 / 11 := abs_le.mpr ⟨by linarith, by linarith⟩
    exact bounceArc_contained (by norm_num) (by norm_num) (by norm_num) near
  · have near : |x - 9 / 11| ≤ 1 / 11 := abs_le.mpr ⟨by linarith, by linarith⟩
    exact bounceArc_contained (by norm_num) (by norm_num) (by norm_num) near
  · have near : |x - 21 / 22| ≤ 1 / 22 := abs_le.mpr ⟨by linarith, by linarith⟩
    exact bounceArc_contained (by norm_num) (by norm_num) (by norm_num) near

theorem easeIn_contained {curve : Curve} (calm : curve.overshoots = false) : Contained curve.easeIn := by
  cases curve with
  | quad => exact quadIn_contained
  | cubic => exact cubicIn_contained
  | quart => exact quartIn_contained
  | quint => exact quintIn_contained
  | sine => exact sineIn_contained
  | expo => exact expoIn_contained
  | circ => exact circIn_contained
  | bounce => exact reverse_contained bounceOut_contained
  | back | elastic => cases calm

end Families

section Backwards

/-- A quarter of a swing behind its first zero the oscillation is at its top. -/
private theorem elasticOut_top {frequency : ℝ} (fast : 3 / 20 < frequency) :
    ∃ x, 0 < x ∧ x < 1 ∧ 1 < elasticOut frequency x := by
  have positive : 0 < frequency := by linarith
  have begun : 0 < 3 / 20 / frequency := by positivity
  have early : 3 / 20 / frequency < 1 := (div_lt_one positive).mpr fast
  have quarter : (frequency * (3 / 20 / frequency) - 0.075) * (2.0 * Scalar.pi) / 0.3 = Real.pi / 2 := by
    rw [mul_div_cancel₀ _ positive.ne', Scalar.pi_eq]
    norm_num
    ring
  refine ⟨3 / 20 / frequency, begun, early, ?_⟩
  -- Where the top is no longer matters, only that it is inside and a quarter of a swing in.
  generalize 3 / 20 / frequency = x at begun early quarter ⊢
  have opened : elasticOut frequency x = 2.0 ^ (-10.0 * x) * Real.sin (Real.pi / 2) + 1 := by
    rw [elasticOut, Scalar.zero_eq, Scalar.one_eq, if_neg begun.not_ge, if_neg early.not_ge, quarter]
    rfl
  rw [opened, Real.sin_pi_div_two, mul_one]
  exact lt_add_of_pos_left 1 (Real.rpow_pos_of_pos (by norm_num) _)

theorem elasticOut_leaves {frequency : ℝ} (fast : 3 / 20 < frequency) :
    ∃ x ∈ unitInterval, elasticOut frequency x ∉ unitInterval := by
  obtain ⟨x, begun, early, above⟩ := elasticOut_top fast
  exact ⟨x, ⟨begun.le, early.le⟩, fun inside => above.not_ge inside.2⟩

/-- What overshoots goes below zero before it arrives. -/
theorem easeIn_backwards {curve : Curve} (wild : curve.overshoots = true) :
    ∃ x : ℝ, 0 < x ∧ x < 1 ∧ curve.easeIn x < 0 := by
  cases curve with
  | back =>
    refine ⟨1 / 2, by norm_num, by norm_num, ?_⟩
    norm_num [easeIn, backIn, backOvershoot]
  | elastic =>
    have fast : (3 / 20 : ℝ) < 1.0 := by norm_num
    obtain ⟨x, begun, early, above⟩ := elasticOut_top fast
    refine ⟨1 - x, sub_pos.mpr early, sub_lt_self 1 begun, ?_⟩
    rw [easeIn, reverse_eq, sub_sub_cancel]
    exact sub_neg.mpr above
  | quad | cubic | quart | quint | sine | expo | circ | bounce => cases wild

end Backwards

/-- Each of the two ways turned about is the other one. -/
theorem easeOut_eq (curve : Curve) : (curve.easeOut : ℝ → ℝ) = reverse curve.easeIn := by
  cases curve with
  | bounce | elastic => exact (reverse_reverse _).symm
  | _ => rfl

theorem easeOut_one (curve : Curve) : curve.easeOut (1 : ℝ) = 1 := by
  rw [easeOut_eq, reverse_eq, sub_self, easeIn_zero, sub_zero]

end Curve

namespace Easing

theorem apply_one (easing : Easing) : easing.apply (1 : ℝ) = 1 := by
  cases easing with
  | step => norm_num [apply, Curve.step]
  | linear => rfl
  | easeIn curve => exact curve.easeIn_one
  | easeOut curve => exact curve.easeOut_one
  | easeInOut curve => norm_num [apply, Curve.inOut_late, curve.easeIn_zero]
  | elasticOutHalf | elasticOutQuarter => exact Curve.elasticOut_one _

theorem apply_contained {easing : Easing} (calm : easing.overshoots = false) : Contained easing.apply := by
  cases easing with
  | step =>
    intro x inside
    rcases inside.2.eq_or_lt with rfl | early
    · norm_num [apply, Curve.step]
    · norm_num [apply, Curve.step, early.not_ge]
  | linear => exact fun _ inside => inside
  | easeIn curve => exact Curve.easeIn_contained calm
  | easeOut curve =>
    intro x inside
    rw [apply, curve.easeOut_eq]
    exact Curve.reverse_contained (Curve.easeIn_contained calm) inside
  | easeInOut curve => exact Curve.inOut_contained (Curve.easeIn_contained calm)
  | elasticOutHalf | elasticOutQuarter => cases calm

theorem apply_leaves {easing : Easing} (wild : easing.overshoots = true) :
    ∃ x ∈ unitInterval, easing.apply x ∉ unitInterval := by
  cases easing with
  | step | linear => cases wild
  | easeIn curve =>
    obtain ⟨x, begun, early, backwards⟩ := Curve.easeIn_backwards wild
    exact ⟨x, ⟨begun.le, early.le⟩, fun inside => backwards.not_ge inside.1⟩
  | easeOut curve =>
    obtain ⟨x, begun, early, backwards⟩ := Curve.easeIn_backwards wild
    refine ⟨1 - x, Set.Icc.one_sub_mem ⟨begun.le, early.le⟩, fun inside => ?_⟩
    rw [apply, curve.easeOut_eq, Curve.reverse_eq, sub_sub_cancel] at inside
    linarith [inside.2]
  | easeInOut curve =>
    obtain ⟨x, begun, early, backwards⟩ := Curve.easeIn_backwards wild
    refine ⟨x / 2, ⟨by linarith, by linarith⟩, fun inside => ?_⟩
    rw [apply, Curve.inOut_early (by linarith), mul_div_cancel₀ _ two_ne_zero] at inside
    linarith [inside.1]
  | elasticOutHalf | elasticOutQuarter => exact Curve.elasticOut_leaves (by norm_num)

/-- An easing stays between its ends exactly if it is not made to leave them. -/
theorem apply_contained_iff (easing : Easing) : Contained easing.apply ↔ easing.overshoots = false := by
  refine ⟨fun contained => ?_, apply_contained⟩
  by_contra wild
  obtain ⟨x, inside, leaves⟩ := apply_leaves (eq_true_of_ne_false wild)
  exact leaves (contained inside)

end Easing
end Tween
