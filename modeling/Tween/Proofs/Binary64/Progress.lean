import Tween.Proofs.Binary64.Products

/-! How far a way between two times has got. The quotient of two differences is a number as long
as the way behind is finite; when it overflows, the whole way does too and nothing is left to say. -/

namespace Tween.Binary64
open Float.Model (Format UnpackedFloat)
open Float.Model.UnpackedFloat
open Scalar (OrderLaws)

private theorem units_le {u : UnpackedFloat} (regular : Regular u) : units u ≤ overflow := by
  cases u with
  | notANumber | zero _ => simp
  | infinity s => cases s <;> simp only [units_infinity, Sign.apply] <;> omega
  | finite s m e hm => exact (units_bounds regular rfl).2.le

private theorem infinite_of_units {x : Float} {s : Sign} (defined : x.isNaN = false)
    (reached : unitsOf x = s.apply overflow) : x.toModel.unpack = .infinity s := by
  have top := overflow_pos
  have form := regular x
  change x.toModel.unpack.isNaN = false at defined
  rw [unitsOf] at reached
  generalize x.toModel.unpack = u at *
  cases u with
  | notANumber => cases defined
  | zero _ => cases s <;> simp only [units_zero, Sign.apply] at reached <;> omega
  | infinity s' => cases s <;> cases s' <;> simp only [units_infinity, Sign.apply] at reached <;> first | rfl | omega
  | finite s' m e hm =>
    have inside := units_bounds form rfl
    cases s with
    | positive => exact absurd reached inside.2.ne
    | negative => exact absurd reached inside.1.ne'

private theorem highest_of_units {x : Float} (defined : x.isNaN = false) (reached : (overflow : Int) ≤ unitsOf x) :
    x.toModel.unpack = .infinity .positive :=
  infinite_of_units defined ((units_le (regular x)).antisymm reached)

private theorem finite_of_units {x : Float} (defined : x.isNaN = false) (least : -(overflow : Int) < unitsOf x)
    (most : unitsOf x < overflow) : x.isFinite = true := by
  change x.toModel.unpack.isNaN = false at defined
  change x.toModel.unpack.isFinite = true
  rw [unitsOf] at least most
  generalize x.toModel.unpack = u at *
  cases u with
  | notANumber => cases defined
  | zero _ | finite _ _ _ _ => rfl
  | infinity s => cases s <;> simp only [units_infinity, Sign.apply] at least most <;> omega

private theorem units_inside {x : Float} (finite : x.isFinite = true) :
    -(overflow : Int) < unitsOf x ∧ unitsOf x < overflow := units_bounds (regular x) finite

section Between
variable {start time stop : Float}

private theorem sub_infinite (infinite : stop.toModel.unpack = .infinity .positive) (finite : start.isFinite = true) :
    (stop - start).toModel.unpack = .infinity .positive := by
  change start.toModel.unpack.isFinite = true at finite
  rw [sub_parts, infinite]
  cases parts : start.toModel.unpack with
  | notANumber | infinity _ => exact Bool.noConfusion (parts ▸ finite)
  | zero _ | finite _ _ _ _ => exact unpack_pack (u := .infinity .positive) trivial

/-- What is still finite behind a finite start has been reached before any later stop. -/
private theorem time_finite (finite : start.isFinite = true) (begun : start ≤ time) (ahead : time < stop) :
    time.isFinite = true := by
  obtain ⟨_, defined, early⟩ := le_iff.mp begun
  obtain ⟨_, _, late⟩ := lt_iff.mp ahead
  have inside := units_inside finite
  have most : unitsOf stop ≤ overflow := units_le (regular stop)
  exact finite_of_units defined (by omega) (by omega)

private theorem sub_le_sub_right (finite : start.isFinite = true) (finite' : time.isFinite = true)
    (ahead : time ≤ stop) :
    time - start ≤ stop - start := by
  obtain ⟨_, defined, ordered⟩ := le_iff.mp ahead
  obtain ⟨behind, way⟩ := unitsOf_sub finite' finite
  by_cases far : (overflow : Int) ≤ unitsOf stop
  · have whole := sub_infinite (highest_of_units defined far) finite
    refine le_iff.mpr ⟨behind, ?_, ?_⟩
    · change (stop - start).toModel.unpack.isNaN = false
      rw [whole]
      rfl
    · rw [unitsOf, unitsOf, whole]
      exact units_le (regular _)
  · have inside := units_inside finite'
    have near : stop.isFinite = true := finite_of_units defined (by omega) (by omega)
    obtain ⟨whole, length⟩ := unitsOf_sub near finite
    refine le_iff.mpr ⟨behind, whole, ?_⟩
    rw [way, length]
    exact held_mono (Int.sub_le_sub_right ordered _)

private theorem zero_le_sub (finite : start.isFinite = true) (finite' : time.isFinite = true) (begun : start ≤ time) :
    0.0 ≤ time - start := by
  obtain ⟨behind, way⟩ := unitsOf_sub finite' finite
  have ordered := (le_iff.mp begun).2.2
  refine le_iff.mpr ⟨rfl, behind, ?_⟩
  rw [way]
  have zero : held 0 = 0 := by
    simp only [held, nearest, shiftRounded]
    rfl
  exact zero.symm.le.trans (held_mono (Int.sub_nonneg_of_le ordered))

private theorem zero_lt_infinite {x : Float} (infinite : x.toModel.unpack = .infinity .positive) : 0.0 < x := by
  have top := overflow_pos
  have nothing : unitsOf (0.0 : Float) = 0 := rfl
  refine lt_iff.mpr ⟨rfl, ?_, ?_⟩
  · change x.toModel.unpack.isNaN = false
    rw [infinite]
    rfl
  · rw [nothing, unitsOf, infinite]
    simp only [units_infinity, Sign.apply]
    omega

private theorem zero_lt_sub (finite : start.isFinite = true) (later : start < stop) : 0.0 < stop - start := by
  obtain ⟨_, defined, ordered⟩ := lt_iff.mp later
  have start_zero : unitsOf (0.0 : Float) = 0 := rfl
  by_cases far : (overflow : Int) ≤ unitsOf stop
  · exact zero_lt_infinite (sub_infinite (highest_of_units defined far) finite)
  · have inside := units_inside finite
    have near : stop.isFinite = true := finite_of_units defined (by omega) (by omega)
    obtain ⟨whole, length⟩ := unitsOf_sub near finite
    have least := held_mono (show 1 ≤ unitsOf stop - unitsOf start by omega)
    rw [held_one] at least
    exact lt_iff.mpr ⟨rfl, whole, by omega⟩

/-- The way from an infinite start has no length but infinity. -/
private theorem sub_lowest (lowest : start.toModel.unpack = .infinity .negative) (later : start < stop) :
    (stop - start).toModel.unpack = .infinity .positive := by
  obtain ⟨_, defined, ordered⟩ := lt_iff.mp later
  change stop.toModel.unpack.isNaN = false at defined
  rw [sub_parts, lowest]
  rw [unitsOf, unitsOf, lowest] at ordered
  cases parts : stop.toModel.unpack with
  | notANumber => exact Bool.noConfusion (parts ▸ defined)
  | infinity s =>
    cases s with
    | positive => exact unpack_pack (u := .infinity .positive) trivial
    | negative => simp [parts] at ordered
  | zero _ | finite _ _ _ _ => exact unpack_pack (u := .infinity .positive) trivial

private theorem sub_lowest_cases (lowest : start.toModel.unpack = .infinity .negative) (begun : start ≤ time) :
    (time - start).isNaN = true ∨ (time - start).toModel.unpack = .infinity .positive := by
  rcases Scalar.OrderLaws.lt_or_beq_of_le begun with later | same
  · exact Or.inr (sub_lowest lowest later)
  · left
    obtain ⟨_, defined, units⟩ := beq_iff.mp same
    have equal : time.toModel.unpack = .infinity .negative := by
      refine infinite_of_units defined (units.symm.trans ?_)
      rw [unitsOf, lowest]
      rfl
    change (time - start).toModel.unpack.isNaN = true
    rw [sub_parts, equal, lowest]
    exact congrArg UnpackedFloat.isNaN (unpack_pack (u := .notANumber) trivial)

private theorem start_lowest (begun : start ≤ time) (ahead : time < stop) (infinite : ¬start.isFinite = true) :
    start.toModel.unpack = .infinity .negative := by
  obtain ⟨defined, _, early⟩ := le_iff.mp begun
  have late := (lt_iff.mp ahead).2.2
  have most : unitsOf stop ≤ overflow := units_le (regular stop)
  change start.toModel.unpack.isNaN = false at defined
  change ¬start.toModel.unpack.isFinite = true at infinite
  cases parts : start.toModel.unpack with
  | notANumber => exact Bool.noConfusion (parts ▸ defined)
  | zero _ | finite _ _ _ _ =>
    rw [parts] at infinite
    exact absurd rfl infinite
  | infinity s =>
    cases s with
    | negative => rfl
    | positive =>
      have top : unitsOf start = overflow := by
        rw [unitsOf, parts]
        rfl
      omega

/-- Of two different times the later one is ahead by more than nothing, however near or far. -/
theorem ahead_positive (later : start < stop) : 0.0 < stop - start := by
  by_cases finite : start.isFinite = true
  · exact zero_lt_sub finite later
  · have defined : start ≤ start := (OrderLaws.le_defined (OrderLaws.le_of_lt later)).1
    exact zero_lt_infinite (sub_lowest (start_lowest defined later finite) later)

/-- If the way behind is not finite it has no length, or the whole way is as infinite. -/
private theorem way_infinite (begun : start ≤ time) (ahead : time < stop) (long : (time - start).isFinite = false) :
    (time - start).isNaN = true ∨
      ((time - start).toModel.unpack = .infinity .positive ∧ (stop - start).toModel.unpack = .infinity .positive) := by
  by_cases finite : start.isFinite = true
  · right
    have here := time_finite finite begun ahead
    obtain ⟨_, way, least⟩ := le_iff.mp (zero_le_sub finite here begun)
    obtain ⟨_, whole, longer⟩ := le_iff.mp (sub_le_sub_right finite here (OrderLaws.le_of_lt ahead))
    have reached : (overflow : Int) ≤ unitsOf (time - start) := by
      by_contra short
      have nothing : unitsOf (0.0 : Float) = 0 := rfl
      have top := overflow_pos
      rw [finite_of_units way (by omega) (by omega)] at long
      cases long
    exact ⟨highest_of_units way reached, highest_of_units whole (reached.trans longer)⟩
  · have lowest := start_lowest begun ahead finite
    have whole := sub_lowest lowest (OrderLaws.lt_of_le_of_lt begun ahead)
    exact (sub_lowest_cases lowest begun).imp_right fun way => ⟨way, whole⟩

/-- The progress on a way is finite as soon as the way behind is. -/
theorem progress_finite (begun : start ≤ time) (ahead : time < stop) (near : (time - start).isFinite = true) :
    ((time - start) / (stop - start)).isFinite = true := by
  obtain ⟨finite', finite⟩ := finite_of_sub near
  exact div_finite near (zero_lt_sub finite (OrderLaws.lt_of_le_of_lt begun ahead))
    (zero_le_sub finite finite' begun) (sub_le_sub_right finite finite' (OrderLaws.le_of_lt ahead))

/-- Between two equal values nothing changes, as long as the way behind is finite. -/
theorem between_equal {v : Float} (finite : v.isFinite = true) (begun : start ≤ time) (ahead : time < stop)
    (near : (time - start).isFinite = true) : (v == v + (v - v) * ((time - start) / (stop - start))) = true := by
  have nothing := sub_self finite
  have rest : (v - v).isFinite = true := finite_of_nothing nothing
  exact add_nothing finite (mul_nothing rest (progress_finite begun ahead near) (Or.inl nothing))

theorem between_undefined (v : Float) (begun : start ≤ time) (ahead : time < stop)
    (long : (time - start).isFinite = false) : (v + (v - v) * ((time - start) / (stop - start))).isNaN = true := by
  apply add_undefined
  refine mul_undefined (Or.inr ?_)
  rcases way_infinite begun ahead long with undefined | ⟨way, whole⟩
  · exact div_undefined undefined _
  · exact div_infinite way whole

end Between
end Tween.Binary64
