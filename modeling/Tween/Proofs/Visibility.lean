import Tween.Proofs.Exact.Rounding
import Tween.Visibility

/-! Visibility is judged on the values that commands carry. Whatever it reads it rounds first, so
that a state is seen exactly if its rounding is. -/

namespace Tween

namespace Config
variable (config : Config ℝ)

/-- One channel of a colour, rounded on its way through the byte scale. -/
noncomputable def roundChannel (x : ℝ) : ℝ := roundPlaces (x * 255.0) config.places.color / 255.0

theorem roundColor_channels (c : Color ℝ) :
    config.roundColor c = ⟨config.roundChannel c.red, config.roundChannel c.green, config.roundChannel c.blue⟩ := rfl

theorem roundChannel_rounding : Rounding (lastPlace config.places.color / 255) config.roundChannel := by
  refine .of_nearest fun x => ?_
  have byte : (255.0 : ℝ) = 255 := by norm_num
  have near := (roundPlaces_rounding config.places.color).nearest (x * 255.0)
  rw [roundChannel, byte] at *
  exact near.scaled (by norm_num)

private theorem vec_rounded (places : UInt32) (v : Vec2 ℝ) :
    (v.map (roundPlaces · places)).map (roundPlaces · places) = v.map (roundPlaces · places) :=
  congrArg₂ Vec2.mk ((roundPlaces_rounding places).idempotent v.x) ((roundPlaces_rounding places).idempotent v.y)

/-- A state with the values that commands carry. -/
noncomputable def rounded (s : State ℝ) : State ℝ :=
  { s with
    position := config.roundPosition s.position
    scale := config.roundScale s.scale
    rotation := config.roundRotation s.rotation
    color := config.roundColor s.color
    opacity := config.roundOpacity s.opacity }

variable (s : State ℝ)

theorem roundPosition_rounded : config.roundPosition (config.rounded s).position = config.roundPosition s.position :=
  vec_rounded _ _

theorem roundScale_rounded : config.roundScale (config.rounded s).scale = config.roundScale s.scale := vec_rounded _ _

theorem roundRotation_rounded : config.roundRotation (config.rounded s).rotation = config.roundRotation s.rotation :=
  (roundPlaces_rounding _).idempotent _

theorem roundOpacity_rounded : config.roundOpacity (config.rounded s).opacity = config.roundOpacity s.opacity :=
  (roundPlaces_rounding _).idempotent _

theorem roundColor_rounded : config.roundColor (config.rounded s).color = config.roundColor s.color := by
  have again := config.roundChannel_rounding.idempotent
  change config.roundColor (config.roundColor s.color) = config.roundColor s.color
  simp only [roundColor_channels, again]

end Config

namespace State

theorem footprint_rounded (s : State ℝ) (bitmapSize : Vec2 ℝ) (origin : Origin) (config : Config ℝ) :
    (config.rounded s).footprint bitmapSize origin config = s.footprint bitmapSize origin config := by
  simp only [footprint, config.roundPosition_rounded, config.roundScale_rounded, config.roundRotation_rounded]

/-- A state is seen exactly if the values are that commands carry for it. Rounding gives the nearest
multiple of the last place, a half going away from zero; it keeps the order and the sign, and stops
after one step. For a colour all this holds of its channels, whose last place is counted in bytes. -/
theorem visible_as_written (config : Config ℝ) (s : State ℝ) (bitmapSize : Vec2 ℝ) (origin : Origin) :
    (config.rounded s).isVisible bitmapSize origin config = s.isVisible bitmapSize origin config ∧
      (∀ places, Rounding (lastPlace places) (roundPlaces · places)) ∧
      Rounding (lastPlace config.places.color / 255) config.roundChannel ∧
      ∀ c : Color ℝ, config.roundColor c =
        ⟨config.roundChannel c.red, config.roundChannel c.green, config.roundChannel c.blue⟩ := by
  refine ⟨?_, roundPlaces_rounding, config.roundChannel_rounding, config.roundColor_channels⟩
  simp only [isVisible, footprint_rounded, config.roundScale_rounded, config.roundOpacity_rounded,
    config.roundColor_rounded]
  rfl

end State
end Tween
