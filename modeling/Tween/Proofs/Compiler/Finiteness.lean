import Tween.Proofs.Binary64.Rounding
import Tween.Proofs.Compiler.Buffer
import Tween.Proofs.Exchange.Nulls

/-! Whether a pass writes finite numbers. Accepted states are finite and nothing ever becomes
undefined, but a moved time can overflow, and so can a value that is to be rounded, because it is
multiplied first. -/

namespace Tween
open Binary64

namespace Config
variable {config : Config Float} {s : State Float} (valid : config.fault? = none)
include valid

theorem Fits.rounds {timeOffset : Float} (fits : config.Fits timeOffset s) :
    config.Rounds (fun x => Float.isFinite x = true) s := by
  obtain ⟨_, position, scale, rotation, color, opacity⟩ := (moderate_iff_fits valid).mpr fits
  exact ⟨Vec2.forall_numbers.mpr (isFinite_vec2.mp position), Vec2.forall_numbers.mpr (isFinite_vec2.mp scale), rotation,
    Color.forall_numbers.mpr (isFinite_color.mp color), opacity⟩

theorem rounds_defined (finite : s.Finite) : config.Rounds (fun x => Float.isNaN x = false) s := by
  have number (aspect : Aspect) {x : Float} (finite : x.isFinite = true) :
      (roundPlaces x (config.places.get aspect)).isNaN = false :=
    roundPlaces_defined (places_short valid aspect) (defined_of_finite finite)
  have byte {x : Float} (finite : x.isFinite = true) :
      (roundPlaces (x * 255.0) config.places.color / 255.0).isNaN = false :=
    roundByte_defined (places_short valid .color) (defined_of_finite finite)
  obtain ⟨x, y⟩ := isFinite_vec2.mp finite.position
  obtain ⟨width, height⟩ := isFinite_vec2.mp finite.scale
  obtain ⟨⟨red, green⟩, blue⟩ := isFinite_color.mp finite.color
  exact ⟨Vec2.forall_numbers.mpr ⟨number .position x, number .position y⟩,
    Vec2.forall_numbers.mpr ⟨number .scale width, number .scale height⟩, number .rotation finite.rotation,
    Color.forall_numbers.mpr ⟨⟨byte red, byte green⟩, byte blue⟩, number .opacity finite.opacity⟩

end Config

namespace Compiler

/-- The states that a pass takes keyframes from: the visible ones, and invisible ones next to them. -/
def recorded (c : Compiler Float) (script : Script Float) (sizes : String → Option (Vec2 Float)) : List (State Float) :=
  (Span.recordings true (Span.ofStates (c.isVisible script sizes) none c.states)).flatten

theorem recorded_subset {c : Compiler Float} {script : Script Float} {sizes : String → Option (Vec2 Float)} :
    c.recorded script sizes ⊆ c.states := (Span.recorded_sublist c.states).subset

private theorem appended_numbers_recorded {c : Compiler Float} {script : Script Float}
    {sizes : String → Option (Vec2 Float)} {options : PassOptions Float} {holds : Float → Prop}
    (starts : ∀ time ∈ options.startTime, holds time) (stops : ∀ time ∈ options.endTime, holds time)
    (times : ∀ s ∈ c.recorded script sizes, holds (s.time + options.timeOffset))
    (rounds : ∀ s ∈ c.recorded script sizes, c.config.Rounds holds s) (nothing : holds (c.config.roundOpacity 0.0)) :
    ∀ command ∈ (c.emission script sizes options).appended script, ∀ x ∈ command.numbers, holds x := by
  have reports : (c.emission script sizes options).tracks.Reports (c.recorded script sizes) :=
    Capture.run_reports _ c.states
  have placed : (c.emission script sizes options).tracks.Each (Channel.At holds) := Capture.run_at_recorded times
  exact Emission.appended_numbers starts stops reports placed rounds nothing script

/-- A pass with finite options writes no undefined number. It writes no infinite number either, and
no null when exported, unless a recorded state is too large to be moved or rounded. -/
theorem pass_finite (c : Compiler Float) (filled : c.Filled) (valid : c.config.fault? = none) (script : Script Float)
    (sizes : String → Option (Vec2 Float)) (options : PassOptions Float) (shift : options.timeOffset.isFinite = true)
    (starts : ∀ time ∈ options.startTime, Float.isFinite time = true)
    (stops : ∀ time ∈ options.endTime, Float.isFinite time = true) :
    ∃ appended, ((c.compile script sizes options).2.1).commands = script.commands ++ appended ∧
      (∀ command ∈ appended, ∀ x ∈ command.numbers, Float.isNaN x = false) ∧
      ((∀ s ∈ c.recorded script sizes, c.config.Fits options.timeOffset s) →
        (∀ command ∈ appended, ∀ x ∈ command.numbers, Float.isFinite x = true) ∧
          (script.toJson.hasNull = false → ((c.compile script sizes options).2.1).toJson.hasNull = false)) := by
  have accepted : ∀ s ∈ c.recorded script sizes, s.Finite := fun s member =>
    filled.sorted.1 s (recorded_subset member)
  have zero := Config.roundOpacity_zero valid
  refine ⟨_, compile_appended c script sizes options, ?_, fun fits => ?_⟩
  · refine appended_numbers_recorded (fun time found => defined_of_finite (starts time found))
      (fun time found => defined_of_finite (stops time found)) (fun s member => ?_)
      (fun s member => Config.rounds_defined valid (accepted s member)) ?_
    · exact (unitsOf_add (accepted s member).time shift).1
    · rw [zero]
      decide
  · have finite : ∀ command ∈ (c.emission script sizes options).appended script,
        ∀ x ∈ command.numbers, Float.isFinite x = true := by
      refine appended_numbers_recorded starts stops (fun s member => (fits s member).time)
        (fun s member => (fits s member).rounds valid) ?_
      rw [zero]
      decide
    refine ⟨finite, fun whole => ?_⟩
    rw [compile_script]
    exact Script.hasNull_append whole finite

def arriving (x : Float) : Compiler Float where
  config := .standard
  states := [{ State.neutral 0.0 with position := ⟨x, 240.0⟩ }, { State.neutral 1.0 with position := ⟨320.0, 240.0⟩ }]

/-- The first state is out of sight, but the move starts there, and ten times the way is too far. -/
theorem arriving_overflows :
    (arriving 1e308).Filled ∧ (arriving 1e308).config.fault? = none ∧ blankScript.toJson.hasNull = false ∧
      (∃ command ∈ ((arriving 1e308).compile blankScript (fun _ => none) .standard).2.1.commands,
        ∃ x ∈ command.numbers, Float.isFinite x = false) ∧
      ((arriving 1e308).compile blankScript (fun _ => none) .standard).2.1.toJson.hasNull = true := by
  have filled : (arriving 1e308).Filled := Filled.of_sorted _ (by decide +kernel) (by decide +kernel)
  exact ⟨filled, by decide +kernel, by decide +kernel, by decide +kernel, by decide +kernel⟩

theorem pass_finite_arriving : (arriving 1000.0).Filled ∧
    (∀ command ∈ ((arriving 1000.0).compile blankScript (fun _ => none) .standard).2.1.commands,
      ∀ x ∈ command.numbers, Float.isFinite x = true) ∧
    ((arriving 1000.0).compile blankScript (fun _ => none) .standard).2.1.toJson.hasNull = false := by
  have filled : (arriving 1000.0).Filled := Filled.of_sorted _ (by decide +kernel) (by decide +kernel)
  obtain ⟨appended, written, _, finite⟩ := pass_finite (arriving 1000.0) filled (by decide +kernel) blankScript
    (fun _ => none) .standard (by decide) nofun nofun
  have fits : ∀ s ∈ (arriving 1000.0).states, (arriving 1000.0).config.Fits 0.0 s := by decide +kernel
  obtain ⟨numbers, exported⟩ := finite fun s member => fits s (recorded_subset member)
  refine ⟨filled, ?_, exported (by decide +kernel)⟩
  rw [written]
  exact numbers

end Compiler
end Tween
