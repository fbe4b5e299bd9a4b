import Tween.Proofs.Exact.Angles

/-! Ways with a stop. A blend goes evenly if a stop anywhere on the way does not show: the way to the
stop is the first part of the whole way, and the way from there on is the rest of it. An angle at a
stop may have left the range of a turn, and the short way on from there is still the same. -/

namespace Tween.Blend
variable {V : Type}

/-- The blends of numbers, angles, vectors, colours and flags. Rotations of space have their own. -/
inductive Plain : {V : Type} → Blend ℝ V → Prop
  | scalar : Plain Blend.scalar
  | angle : Plain Blend.angle
  | vec2 : Plain Blend.vec2
  | vec3 : Plain Blend.vec3
  | color : Plain Blend.color
  | first : Plain Blend.first
  | second : Plain Blend.second
  | either : Plain Blend.either
  | both : Plain Blend.both

structure Even (blend : Blend ℝ V) : Prop where
  rests (v : V) (progress : ℝ) : blend v v progress = v
  /-- The way to a stop at `stop`. -/
  front (v w : V) {stop : ℝ} (progress : ℝ) (begun : 0 ≤ stop) (early : stop < 1) :
    blend v (blend v w stop) progress = blend v w (stop * progress)
  /-- The way on from there. -/
  back (v w : V) {stop : ℝ} (progress : ℝ) (begun : 0 ≤ stop) (early : stop < 1) :
    blend (blend v w stop) w progress = blend v w (stop + (1 - stop) * progress)

theorem scalar_even : Even (scalar : Blend ℝ ℝ) where
  rests v progress := by simp [scalar]
  front v w _ progress _ _ := by simp only [scalar]; ring
  back v w _ progress _ _ := by simp only [scalar]; ring

theorem vec2_even : Even (vec2 : Blend ℝ (Vec2 ℝ)) where
  rests v progress := by simp [vec2, scalar_even.rests]
  front v w _ progress begun early := by simp [vec2, scalar_even.front _ _ progress begun early]
  back v w _ progress begun early := by simp [vec2, scalar_even.back _ _ progress begun early]

theorem vec3_even : Even (vec3 : Blend ℝ (Vec3 ℝ)) where
  rests v progress := by simp [vec3, scalar_even.rests]
  front v w _ progress begun early := by simp [vec3, scalar_even.front _ _ progress begun early]
  back v w _ progress begun early := by simp [vec3, scalar_even.back _ _ progress begun early]

theorem color_even : Even (color : Blend ℝ (Color ℝ)) where
  rests v progress := by simp [color, scalar_even.rests]
  front v w _ progress begun early := by simp [color, scalar_even.front _ _ progress begun early]
  back v w _ progress begun early := by simp [color, scalar_even.back _ _ progress begun early]

/-- A choice does not move, so at a stop it only has to come out the same again. -/
private theorem choice_even {choose : Bool → Bool → Bool}
    (again : ∀ v w, choose v v = v ∧ choose v (choose v w) = choose v w ∧ choose (choose v w) w = choose v w) :
    Even fun v w (_ : ℝ) => choose v w where
  rests v _ := (again v v).1
  front v w _ _ _ _ := (again v w).2.1
  back v w _ _ _ _ := (again v w).2.2

section Angle
open Angle (shortWay shortWay_eq)
variable {v w stop : ℝ}

/-- Part of the short way is a short way. -/
private theorem shortWay_part {part : ℝ} (begun : 0 ≤ part) (ended : part ≤ 1) :
    ((shortWay v w * part : ℝ) : Real.Angle).toReal = shortWay v w * part := by
  have way := Angle.shortWay_shortest v w
  refine Real.Angle.toReal_coe_eq_self_iff.mpr ⟨?_, ?_⟩
  · rcases ended.lt_or_eq with less | rfl
    · nlinarith [way.above, Real.pi_pos]
    · simpa using way.above
  · nlinarith [way.below, Real.pi_pos]

theorem angle_even : Even (angle : Blend ℝ ℝ) where
  rests v progress := by simp [angle, shortWay_eq]
  front v w stop progress begun early := by
    have onward : shortWay v (angle v w stop) = shortWay v w * stop := by
      rw [shortWay_eq, angle, add_sub_cancel_left, shortWay_part begun early.le]
    rw [angle, onward, angle, mul_assoc]
  back v w stop progress begun early := by
    have onward : shortWay (angle v w stop) w = shortWay v w * (1 - stop) := by
      have rest : ((w - angle v w stop : ℝ) : Real.Angle) = (shortWay v w * (1 - stop) : ℝ) := by
        have whole : ((shortWay v w : ℝ) : Real.Angle) = (w - v : ℝ) := by rw [shortWay_eq, Real.Angle.coe_toReal]
        have parts : w - angle v w stop = (w - v) - shortWay v w * stop := by rw [angle]; ring
        rw [parts, mul_one_sub, Real.Angle.coe_sub, ← whole, ← Real.Angle.coe_sub]
      rw [shortWay_eq, rest, shortWay_part (sub_nonneg.mpr early.le) (sub_le_self 1 begun)]
    rw [angle, onward, angle, angle]
    ring

end Angle

theorem Plain.even {blend : Blend ℝ V} (plain : Plain blend) : Even blend := by
  cases plain with
  | scalar => exact scalar_even
  | angle => exact angle_even
  | vec2 => exact vec2_even
  | vec3 => exact vec3_even
  | color => exact color_even
  | first | second | either | both => exact choice_even (by decide)

end Tween.Blend
