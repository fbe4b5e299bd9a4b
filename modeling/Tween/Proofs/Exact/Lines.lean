import Mathlib.Analysis.InnerProductSpace.PiL2
import Tween.Distance
import Tween.Proofs.Exact.Beginning

/-! Distances to lines without rounding. Each formula gives the least distance to a point of the line,
and only one number is the least. So whatever leaves the distances to the points of the line as they
are leaves the result as it is, in however many dimensions it is computed. -/

namespace Tween

section Space
variable {E : Type} [NormedAddCommGroup E] [InnerProductSpace ℝ E]

/-- How far a point is from the points of a line. The line through a point and itself is that point. -/
def lineDistances (start middle stop : E) : Set ℝ :=
  Set.range fun u : ℝ => dist middle (start + u • (stop - start))

/-- What an offset has besides its part along the base. -/
noncomputable def rejection (base offset : E) : E := offset - (inner ℝ offset base / inner ℝ base base) • base

theorem rejection_zero (offset : E) : rejection 0 offset = offset := by
  rw [rejection, smul_zero, sub_zero]

theorem rejection_inner (base offset : E) : inner ℝ (rejection base offset) base = 0 := by
  rcases eq_or_ne base 0 with rfl | line
  · exact inner_zero_right _
  · have square : inner ℝ base base ≠ 0 := inner_self_ne_zero.mpr line
    rw [rejection, inner_sub_left, real_inner_smul_left, div_mul_cancel₀ _ square, sub_self]

/-- No other way to the line is shorter than the perpendicular one. -/
theorem rejection_le (base offset : E) (u : ℝ) : ‖rejection base offset‖ ≤ ‖offset - u • base‖ := by
  have parts : offset - u • base = rejection base offset + (inner ℝ offset base / inner ℝ base base - u) • base := by
    rw [rejection, sub_smul]
    abel
  have right : inner ℝ (rejection base offset) ((inner ℝ offset base / inner ℝ base base - u) • base) = 0 := by
    rw [real_inner_smul_right, rejection_inner, mul_zero]
  have pythagoras := norm_add_sq_eq_norm_sq_add_norm_sq_real right
  rw [← parts] at pythagoras
  refine nonneg_le_nonneg_of_sq_le_sq (norm_nonneg _) ?_
  rw [pythagoras]
  exact le_add_of_nonneg_right (mul_self_nonneg _)

/-- The square of the area that a base and an offset span. -/
theorem rejection_area (base offset : E) : (‖rejection base offset‖ * ‖base‖) ^ 2 =
    inner ℝ offset offset * inner ℝ base base - inner ℝ offset base ^ 2 := by
  rcases eq_or_ne base 0 with rfl | line
  · simp
  · have square : inner ℝ base base ≠ 0 := inner_self_ne_zero.mpr line
    have height : inner ℝ (rejection base offset) (rejection base offset) =
        inner ℝ offset offset - inner ℝ offset base / inner ℝ base base * inner ℝ offset base := by
      calc inner ℝ (rejection base offset) (rejection base offset)
          = inner ℝ (rejection base offset) offset := by
            -- What is perpendicular to the base does not see the part along it.
            nth_rewrite 2 [rejection]
            rw [inner_sub_right, real_inner_smul_right, rejection_inner, mul_zero, sub_zero]
        _ = inner ℝ offset offset - inner ℝ offset base / inner ℝ base base * inner ℝ offset base := by
            rw [rejection, inner_sub_left, real_inner_smul_left, real_inner_comm offset base]
    rw [mul_pow, ← real_inner_self_eq_norm_sq, ← real_inner_self_eq_norm_sq, height]
    field_simp

theorem rejection_least (start middle stop : E) :
    IsLeast (lineDistances start middle stop) ‖rejection (stop - start) (middle - start)‖ := by
  have apart (u : ℝ) : dist middle (start + u • (stop - start)) = ‖middle - start - u • (stop - start)‖ := by
    rw [dist_eq_norm, sub_add_eq_sub_sub]
  constructor
  · exact ⟨_, apart _⟩
  · rintro _ ⟨u, rfl⟩
    exact (rejection_le _ _ u).trans_eq (apart u).symm

theorem lineDistances_exchanged (start middle stop : E) :
    lineDistances stop middle start = lineDistances start middle stop := by
  have backwards (u : ℝ) : stop + (1 - u) • (start - stop) = start + u • (stop - start) := by module
  rw [lineDistances, ← (Equiv.subLeft (1 : ℝ)).surjective.range_comp]
  simp only [Function.comp_def, Equiv.subLeft_apply, backwards, lineDistances]

theorem lineDistances_moved (start middle stop shift : E) :
    lineDistances (start - shift) (middle - shift) (stop - shift) = lineDistances start middle stop := by
  have along (u : ℝ) : start - shift + u • (stop - start) = start + u • (stop - start) - shift := by abel
  simp only [lineDistances, sub_sub_sub_cancel_right, along, dist_sub_right]

end Space

/-- What a formula has to give for the distance of its second point to the line through the two others,
when `place` says where the points are. Every translation takes some vector away. -/
structure Measures {V E : Type} [Sub V] [NormedAddCommGroup E] [InnerProductSpace ℝ E] (place : V → E)
    (formula : V → V → V → ℝ) : Prop where
  least (start middle stop : V) : IsLeast (lineDistances (place start) (place middle) (place stop)) (formula start middle stop)
  single (start middle : V) : formula start middle start = dist (place middle) (place start)
  moved (start middle stop shift : V) : formula (start - shift) (middle - shift) (stop - shift) = formula start middle stop
  exchanged (start middle stop : V) : formula stop middle start = formula start middle stop

/-- There is one least distance, so everything else follows from the distances that it is the least of. -/
theorem Measures.of_least {V E : Type} [Sub V] [NormedAddCommGroup E] [InnerProductSpace ℝ E] {place : V → E}
    {formula : V → V → V → ℝ} (linear : ∀ v w, place (v - w) = place v - place w)
    (least : ∀ start middle stop, IsLeast (lineDistances (place start) (place middle) (place stop)) (formula start middle stop)) :
    Measures place formula where
  least := least
  single start middle := by
    obtain ⟨⟨u, same⟩, -⟩ := least start middle start
    rw [← same]
    simp
  moved start middle stop shift := by
    have shifted := least (start - shift) (middle - shift) (stop - shift)
    rw [linear, linear, linear, lineDistances_moved] at shifted
    exact shifted.unique (least start middle stop)
  exchanged start middle stop := by
    have backwards := least stop middle start
    rw [lineDistances_exchanged] at backwards
    exact backwards.unique (least start middle stop)

namespace Vec2
variable (v w : Vec2 ℝ)

/-- The point with these coordinates. -/
noncomputable def place : EuclideanSpace ℝ (Fin 2) := WithLp.toLp _ ![v.x, v.y]

/-- The same point of the plane in space. -/
def padded {α : Type} [Scalar α] (v : Vec2 α) : Vec3 α := ⟨v.x, v.y, 0.0⟩

theorem place_sub : (v - w).place = v.place - w.place := by
  ext i
  fin_cases i <;> rfl

theorem inner_place : inner ℝ v.place w.place = v.dot w := by
  simp [place, dot, Fin.sum_univ_two, PiLp.inner_apply, mul_comm]

theorem norm_place : ‖v.place‖ = v.norm := by
  rw [norm_eq_sqrt_real_inner, inner_place]
  rfl

end Vec2

namespace Vec3
variable (v w : Vec3 ℝ)

noncomputable def place : EuclideanSpace ℝ (Fin 3) := WithLp.toLp _ ![v.x, v.y, v.z]

def padded {α : Type} [Scalar α] (v : Vec3 α) : Vec4 α := ⟨v.x, v.y, v.z, 0.0⟩

theorem place_sub : (v - w).place = v.place - w.place := by
  ext i
  fin_cases i <;> rfl

theorem place_scale (factor : ℝ) : (v.scale factor).place = factor • v.place := by
  ext i
  fin_cases i <;> exact mul_comm _ factor

theorem inner_place : inner ℝ v.place w.place = v.dot w := by
  simp [place, dot, Fin.sum_univ_three, PiLp.inner_apply, mul_comm]

theorem norm_place : ‖v.place‖ = v.norm := by
  rw [norm_eq_sqrt_real_inner, inner_place]
  rfl

end Vec3

namespace Vec4
variable (v w : Vec4 ℝ)

noncomputable def place : EuclideanSpace ℝ (Fin 4) := WithLp.toLp _ ![v.x, v.y, v.z, v.w]

theorem place_sub : (v - w).place = v.place - w.place := by
  ext i
  fin_cases i <;> rfl

theorem place_scale (factor : ℝ) : (v.scale factor).place = factor • v.place := by
  ext i
  fin_cases i <;> exact mul_comm _ factor

theorem inner_place : inner ℝ v.place w.place = v.dot w := by
  have terms : inner ℝ v.place w.place = w.x * v.x + w.y * v.y + w.z * v.z + w.w * v.w := by
    simp [place, Fin.sum_univ_four, PiLp.inner_apply]
  rw [terms, dot]
  ring

theorem norm_place : ‖v.place‖ = v.norm := by
  rw [norm_eq_sqrt_real_inner, inner_place]
  rfl

end Vec4

namespace Distance

/-- Without a line the offset itself is what is left of it. -/
private theorem rejected {E : Type} [NormedAddCommGroup E] [InnerProductSpace ℝ E] (base offset : E) :
    (if inner ℝ base base == 0.0 then ‖offset‖ else ‖offset - (inner ℝ offset base / inner ℝ base base) • base‖) =
      ‖rejection base offset‖ := by
  rw [Scalar.zero_eq]
  split_ifs with none
  · have still : base = 0 := inner_self_eq_zero.mp (eq_of_beq none)
    rw [still, rejection_zero]
  · rfl

theorem toLine3_eq (start middle stop : Vec3 ℝ) :
    toLine3 start middle stop = ‖rejection (stop.place - start.place) (middle.place - start.place)‖ := by
  rw [← rejected]
  simp only [toLine3, ← Vec3.norm_place, ← Vec3.inner_place, Vec3.place_sub, Vec3.place_scale]

theorem toLine4_eq (start middle stop : Vec4 ℝ) :
    toLine4 start middle stop = ‖rejection (stop.place - start.place) (middle.place - start.place)‖ := by
  rw [← rejected]
  simp only [toLine4, ← Vec4.norm_place, ← Vec4.inner_place, Vec4.place_sub, Vec4.place_scale]

/-- The area that a base and an offset span is the base times what the offset has besides its part
along the base. -/
private theorem area_eq (base offset : Vec2 ℝ) :
    |base.x * offset.y - base.y * offset.x| = ‖rejection base.place offset.place‖ * ‖base.place‖ := by
  have lagrange : (base.x * offset.y - base.y * offset.x) ^ 2 =
      offset.dot offset * base.dot base - offset.dot base ^ 2 := by
    simp only [Vec2.dot]
    ring
  have squares : |base.x * offset.y - base.y * offset.x| ^ 2 = (‖rejection base.place offset.place‖ * ‖base.place‖) ^ 2 := by
    rw [sq_abs, lagrange, rejection_area, Vec2.inner_place, Vec2.inner_place, Vec2.inner_place]
  exact (sq_eq_sq₀ (abs_nonneg _) (by positivity)).mp squares

theorem toLine2_eq (start middle stop : Vec2 ℝ) :
    toLine2 start middle stop = ‖rejection (stop.place - start.place) (middle.place - start.place)‖ := by
  rw [← Vec2.place_sub, ← Vec2.place_sub]
  simp only [toLine2, ← Vec2.norm_place, Scalar.zero_eq]
  generalize stop - start = base
  generalize middle - start = offset
  split_ifs with none
  · have still : base.place = 0 := norm_eq_zero.mp (eq_of_beq none)
    rw [still, rejection_zero]
  · have line : ‖base.place‖ ≠ 0 := fun same => none (beq_iff_eq.mpr same)
    exact (div_eq_iff line).mpr (area_eq base offset)

theorem toLine2_measures : Measures Vec2.place toLine2 :=
  .of_least Vec2.place_sub fun start middle stop => toLine2_eq start middle stop ▸ rejection_least _ _ _

theorem toLine3_measures : Measures Vec3.place toLine3 :=
  .of_least Vec3.place_sub fun start middle stop => toLine3_eq start middle stop ▸ rejection_least _ _ _

theorem toLine4_measures : Measures Vec4.place toLine4 :=
  .of_least Vec4.place_sub fun start middle stop => toLine4_eq start middle stop ▸ rejection_least _ _ _

theorem toLine3_padded (start middle stop : Vec2 ℝ) :
    toLine3 start.padded middle.padded stop.padded = toLine2 start middle stop := by
  have same : lineDistances start.padded.place middle.padded.place stop.padded.place =
      lineDistances start.place middle.place stop.place := by
    simp [lineDistances, EuclideanSpace.dist_eq, Vec2.padded, Vec2.place, Vec3.place, Fin.sum_univ_succ]
  exact (same ▸ toLine3_measures.least _ _ _).unique (toLine2_measures.least start middle stop)

theorem toLine4_padded (start middle stop : Vec3 ℝ) :
    toLine4 start.padded middle.padded stop.padded = toLine3 start middle stop := by
  have same : lineDistances start.padded.place middle.padded.place stop.padded.place =
      lineDistances start.place middle.place stop.place := by
    simp [lineDistances, EuclideanSpace.dist_eq, Vec3.padded, Vec3.place, Vec4.place, Fin.sum_univ_succ]
  exact (same ▸ toLine4_measures.least _ _ _).unique (toLine3_measures.least start middle stop)

/-- In two, three and four dimensions the distance to a line is the least distance to one of its points,
the same for both directions of the line and wherever all of it lies, and more dimensions than needed
do not change it. -/
theorem formulas_agree :
    Measures Vec2.place toLine2 ∧ Measures Vec3.place toLine3 ∧ Measures Vec4.place toLine4 ∧
      (∀ start middle stop : Vec2 ℝ, toLine3 start.padded middle.padded stop.padded = toLine2 start middle stop) ∧
      ∀ start middle stop : Vec3 ℝ, toLine4 start.padded middle.padded stop.padded = toLine3 start middle stop :=
  ⟨toLine2_measures, toLine3_measures, toLine4_measures, toLine3_padded, toLine4_padded⟩

end Distance
end Tween
