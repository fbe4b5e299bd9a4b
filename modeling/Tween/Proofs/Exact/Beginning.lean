import Mathlib.Analysis.SpecialFunctions.Pow.Real
import Tween.Blend
import Tween.Easing
import Tween.Proofs.Exact.Field

/-! How a way begins without rounding. Every easing starts at zero, where blends of numbers have
gone nowhere yet. Neither have blends of rotations, which are quaternions of length one. -/

namespace Tween

namespace Scalar

theorem cos_eq (x : ℝ) : Scalar.cos x = Real.cos x := rfl

theorem pi_eq : (Scalar.pi : ℝ) = Real.pi := rfl

theorem sqrt_eq (x : ℝ) : Scalar.sqrt x = Real.sqrt x := rfl

theorem pow_eq (x y : ℝ) : Scalar.pow x y = x ^ y := rfl

theorem zero_eq : (0.0 : ℝ) = 0 := by norm_num

theorem one_eq : (1.0 : ℝ) = 1 := by norm_num

end Scalar

namespace Curve

private theorem reverse_zero {f : ℝ → ℝ} (arrives : f 1 = 1) : reverse f 0 = 0 := by
  norm_num [reverse, arrives]

private theorem inOut_zero {f : ℝ → ℝ} (begins : f 0 = 0) : inOut f 0 = 0 := by
  norm_num [inOut, begins]

private theorem bounceOut_zero : bounceOut (0 : ℝ) = 0 := by norm_num [bounceOut]

private theorem bounceOut_one : bounceOut (1 : ℝ) = 1 := by norm_num [bounceOut, bounceArc]

private theorem elasticOut_zero (frequency : ℝ) : elasticOut frequency 0 = 0 := by norm_num [elasticOut]

theorem elasticOut_one (frequency : ℝ) : elasticOut frequency 1 = 1 := by norm_num [elasticOut]

theorem easeIn_zero (curve : Curve) : curve.easeIn (0 : ℝ) = 0 := by
  cases curve with
  | quad | cubic | quart | quint => norm_num [easeIn, quadIn, cubicIn, quartIn, quintIn]
  | sine => norm_num [easeIn, sineIn, Scalar.cos_eq]
  | expo => norm_num [easeIn, expoIn]
  | circ => norm_num [easeIn, circIn, Scalar.greatest, Scalar.sqrt_eq]
  | back => norm_num [easeIn, backIn]
  | bounce => exact reverse_zero bounceOut_one
  | elastic => exact reverse_zero (elasticOut_one _)

/-- What sets off at zero arrives at one. -/
theorem easeIn_one (curve : Curve) : curve.easeIn (1 : ℝ) = 1 := by
  cases curve with
  | quad | cubic | quart | quint => norm_num [easeIn, quadIn, cubicIn, quartIn, quintIn]
  | sine => norm_num [easeIn, sineIn, Scalar.cos_eq, Scalar.pi_eq]
  | expo => norm_num [easeIn, expoIn, Scalar.pow_eq]
  | circ => norm_num [easeIn, circIn, Scalar.greatest, Scalar.sqrt_eq]
  | back => norm_num [easeIn, backIn]
  | bounce => norm_num [easeIn, reverse, bounceOut_zero]
  | elastic => norm_num [easeIn, reverse, elasticOut_zero]

theorem easeOut_zero (curve : Curve) : curve.easeOut (0 : ℝ) = 0 := by
  cases curve with
  | bounce => exact bounceOut_zero
  | elastic => exact elasticOut_zero _
  | _ => exact reverse_zero (easeIn_one _)

end Curve

theorem Easing.apply_zero (easing : Easing) : easing.apply (0 : ℝ) = 0 := by
  cases easing with
  | step => norm_num [apply, Curve.step]
  | linear => rfl
  | easeIn curve => exact curve.easeIn_zero
  | easeOut curve => exact curve.easeOut_zero
  | easeInOut curve => exact Curve.inOut_zero curve.easeIn_zero
  | elasticOutHalf | elasticOutQuarter => exact Curve.elasticOut_zero _

namespace Vec4

theorem normalized_unit {v : Vec4 ℝ} (unit : v.norm = 1) : v.normalized = v := by
  simp [normalized, map, unit]

theorem scale_whole_none (v w : Vec4 ℝ) : v.scale 1 + w.scale 0 = v := by
  change Vec4.mk (v.x * 1 + w.x * 0) (v.y * 1 + w.y * 0) (v.z * 1 + w.z * 0) (v.w * 1 + w.w * 0) = v
  simp

end Vec4

/-- Between nearly equal rotations the blend is straight and brought back to length one, so a
quaternion of another length need not come out as it is. -/
theorem Quaternion.blendArc_zero {a : Quaternion ℝ} (unit : a.parts.norm = 1) (b : Quaternion ℝ) :
    blendArc a b 0 = a := by
  unfold blendArc
  extract_lets near cosine angle sine first second
  split
  next => rfl
  next =>
    split
    next => rw [blendStraight, Scalar.one_eq, sub_zero, Vec4.scale_whole_none, ofVector, Vec4.normalized_unit unit]
    next curved =>
      have apart : sine ≠ 0 := by
        intro flat
        rw [flat] at curved
        exact curved (by norm_num [Scalar.abs])
      have width : Real.sin (Real.arccos cosine) = sine := by
        rw [Real.sin_arccos, sq, ← Scalar.one_eq]
        rfl
      have whole : first = 1 := by
        change Real.sin ((1.0 - 0) * Real.arccos cosine) / sine = 1
        rw [Scalar.one_eq, sub_zero, one_mul, width, div_self apart]
      have none : second = 0 := by
        change Real.sin (0 * Real.arccos cosine) / sine = 0
        rw [zero_mul, Real.sin_zero, zero_div]
      rw [whole, none, Vec4.scale_whole_none]

namespace Blend
variable {V : Type}

/-- Nothing of the second value shows yet. -/
def Departs (blend : Blend ℝ V) : Prop := ∀ a b, blend a b 0 = a

def DepartsFrom (blend : Blend ℝ V) (a : V) : Prop := ∀ b, blend a b 0 = a

theorem scalar_departs : Departs (scalar : Blend ℝ ℝ) := fun a b => by simp [scalar]

theorem angle_departs : Departs (angle : Blend ℝ ℝ) := fun a b => by simp [angle]

theorem vec2_departs : Departs (vec2 : Blend ℝ (Vec2 ℝ)) := fun a b => by simp [vec2, scalar_departs a.x, scalar_departs a.y]

theorem vec3_departs : Departs (vec3 : Blend ℝ (Vec3 ℝ)) := fun a b => by
  simp [vec3, scalar_departs a.x, scalar_departs a.y, scalar_departs a.z]

theorem color_departs : Departs (color : Blend ℝ (Color ℝ)) := fun a b => by
  simp [color, scalar_departs a.red, scalar_departs a.green, scalar_departs a.blue]

theorem quaternion_departs (a : Quaternion ℝ) (unit : a.parts.norm = 1) : DepartsFrom quaternion a :=
  Quaternion.blendArc_zero unit

theorem first_departs : Departs (first : Blend ℝ Bool) := fun _ _ => rfl

/-! The other blends of flags look at the second value at once. -/

theorem second_not_departs : ¬Departs (second : Blend ℝ Bool) := fun departs =>
  Bool.false_ne_true (departs true false)

theorem either_not_departs : ¬Departs (either : Blend ℝ Bool) := fun departs =>
  Bool.false_ne_true (departs false true).symm

theorem both_not_departs : ¬Departs (both : Blend ℝ Bool) := fun departs =>
  Bool.false_ne_true (departs true false)

end Blend

end Tween
