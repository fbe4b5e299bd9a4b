import Mathlib.Analysis.SpecialFunctions.Trigonometric.Angle
import Tween.Blend
import Tween.Proofs.Exact.Beginning

/-! Angles up to whole turns, without rounding. The short way from one angle to another is the one
number in the half-open range of a turn around zero that is whole turns away from their difference,
and everything else about it follows from there being only one. -/

namespace Tween

namespace Scalar

theorem turn_eq : (turn : ℝ) = 2 * Real.pi := by norm_num [turn, pi_eq]

/-- What truncation leaves over is less than the divisor, on either side of zero. -/
theorem remainder_lt {x y : ℝ} (positive : 0 < y) :
    (∃ n : ℤ, remainder x y = x - n * y) ∧ |remainder x y| < y := by
  have opened : remainder x y = x - y * (if 0 ≤ x / y then (⌊x / y⌋ : ℝ) else (⌈x / y⌉ : ℝ)) := rfl
  split_ifs at opened with nonneg
  · have lower : ⌊x / y⌋ * y ≤ x := (le_div_iff₀ positive).mp (Int.floor_le _)
    have upper : x < (⌊x / y⌋ + 1) * y := (div_lt_iff₀ positive).mp (Int.lt_floor_add_one _)
    have rest : 0 ≤ x := by simpa using (le_div_iff₀ positive).mp nonneg
    rw [opened, mul_comm]
    exact ⟨⟨_, rfl⟩, abs_lt.mpr ⟨by linarith, by linarith⟩⟩
  · have lower : (⌈x / y⌉ - 1) * y < x := (lt_div_iff₀ positive).mp (sub_lt_iff_lt_add.mpr (Int.ceil_lt_add_one _))
    have upper : x ≤ ⌈x / y⌉ * y := (div_le_iff₀ positive).mp (Int.le_ceil _)
    rw [opened, mul_comm]
    exact ⟨⟨_, rfl⟩, abs_lt.mpr ⟨by linarith, by linarith⟩⟩

end Scalar

namespace Angle
open Scalar

def Turned (a b : ℝ) : Prop := ∃ n : ℤ, b = a + n * turn

theorem turned_iff {a b : ℝ} : Turned a b ↔ (b : Real.Angle) = a := by
  rw [Real.Angle.angle_eq_iff_two_pi_dvd_sub]
  refine exists_congr fun n => ?_
  rw [turn_eq]
  constructor
  · rintro rfl
    ring
  · intro apart
    linear_combination apart

/-- A way that ends whole turns from an offset, in the half-open range of a turn, and of all such
ways one of the shortest. -/
structure Shortest (offset way : ℝ) : Prop where
  above : -Real.pi < way
  below : way ≤ Real.pi
  turned : Turned offset way
  least (other : ℝ) : Turned offset other → |way| ≤ |other|

theorem shortest_toReal (offset : ℝ) : Shortest offset (offset : Real.Angle).toReal where
  above := Real.Angle.neg_pi_lt_toReal _
  below := Real.Angle.toReal_le_pi _
  turned := turned_iff.mpr (Real.Angle.coe_toReal _)
  least other turned := by
    rw [← turned_iff.mp turned]
    rcases lt_or_ge |other| Real.pi with inside | outside
    · have range := abs_lt.mp inside
      rw [Real.Angle.toReal_coe_eq_self_iff.mpr ⟨range.1, range.2.le⟩]
    · exact (Real.Angle.abs_toReal_le_pi _).trans outside

private theorem shortWay_range (a b : ℝ) : -Real.pi < shortWay a b ∧ shortWay a b ≤ Real.pi := by
  have inside := abs_lt.mp (remainder_lt (x := b - a) (turn_eq ▸ Real.two_pi_pos)).2
  simp only [shortWay, pi_eq]
  rw [turn_eq] at *
  split
  next above => exact ⟨by linarith, by linarith⟩
  next notAbove =>
    split
    next below => exact ⟨by linarith, by linarith⟩
    next notBelow => exact ⟨not_le.mp notBelow, not_lt.mp notAbove⟩

private theorem shortWay_turned (a b : ℝ) : Turned (b - a) (shortWay a b) := by
  obtain ⟨n, rest⟩ := (remainder_lt (x := b - a) (turn_eq ▸ Real.two_pi_pos)).1
  simp only [shortWay]
  rw [rest]
  split
  next => exact ⟨-n - 1, by push_cast; ring⟩
  next =>
    split
    next => exact ⟨-n + 1, by push_cast; ring⟩
    next => exact ⟨-n, by push_cast; ring⟩

/-- The short way is the difference, taken as an angle and back. -/
theorem shortWay_eq (a b : ℝ) : shortWay a b = ((b - a : ℝ) : Real.Angle).toReal := by
  rw [← turned_iff.mp (shortWay_turned a b), Real.Angle.toReal_coe_eq_self_iff.mpr (shortWay_range a b)]

theorem shortWay_shortest (a b : ℝ) : Shortest (b - a) (shortWay a b) := shortWay_eq a b ▸ shortest_toReal (b - a)

/-- Angles shifted one after the other, each to where it is closest to the one before it. -/
def unwound {α : Type} [Scalar α] (previous : Option α) : List α → List α
  | [] => []
  | angle :: rest => closestTo previous angle :: unwound (some (closestTo previous angle)) rest

theorem closestTo_turned (previous : Option ℝ) (angle : ℝ) : Turned angle (closestTo previous angle) := by
  cases previous with
  | none => exact ⟨0, by simp [closestTo]⟩
  | some previous =>
    obtain ⟨n, way⟩ := (shortWay_shortest previous angle).turned
    exact ⟨n, by rw [closestTo, way]; ring⟩

theorem closestTo_near (previous angle : ℝ) : |closestTo (some previous) angle - previous| ≤ Real.pi := by
  have way := shortWay_shortest previous angle
  rw [closestTo, add_sub_cancel_left]
  exact abs_le.mpr ⟨way.above.le, way.below⟩

theorem unwound_turned (previous : Option ℝ) (angles : List ℝ) : List.Forall₂ Turned angles (unwound previous angles) := by
  induction angles generalizing previous with
  | nil => exact .nil
  | cons angle rest ih => exact .cons (closestTo_turned previous angle) (ih _)

theorem unwound_near (previous : Option ℝ) (angles : List ℝ) :
    (previous.toList ++ unwound previous angles).IsChain fun a b => |b - a| ≤ Real.pi := by
  induction angles generalizing previous with
  | nil => cases previous <;> simp [unwound]
  | cons angle rest ih =>
    cases previous with
    | none => exact ih (some angle)
    | some previous => exact .cons_cons (closestTo_near previous angle) (ih (some (closestTo (some previous) angle)))

/-- The short way stays within half a turn, ends whole turns from the difference and no other way
does so that is shorter. So angles that are shifted one after the other are their raw angles up to
whole turns, without a jump of more than half a turn, and a blend that has run its course points
where its second angle does. -/
theorem branches_nearest :
    (∀ a b : ℝ, Shortest (b - a) (shortWay a b)) ∧
      (∀ (previous : Option ℝ) (angles : List ℝ), List.Forall₂ Turned angles (unwound previous angles) ∧
        (previous.toList ++ unwound previous angles).IsChain fun a b => |b - a| ≤ Real.pi) ∧
      ∀ a b : ℝ, Turned b (Blend.angle a b 1) := by
  refine ⟨shortWay_shortest, fun previous angles => ⟨unwound_turned previous angles, unwound_near previous angles⟩, ?_⟩
  intro a b
  have whole : Blend.angle a b 1 = closestTo (some a) b := by rw [Blend.angle, mul_one, closestTo]
  exact whole ▸ closestTo_turned (some a) b

end Angle
end Tween
