import Tween.Proofs.Emission.Shift

/-! A pass knows no time of its own. With exact sums, a later offset and a window that is as much
later give the same commands as much later. -/

namespace Tween.Compiler
open Scalar
variable {α : Type} [Scalar α] [ExactSums α] (c : Compiler α) (sizes : String → Option (Vec2 α)) (options : PassOptions α)
  (shift : α)

theorem compile_shifted (script : Script α) :
    c.compile (script.shifted shift) sizes (options.shifted shift) =
      ((c.compile script sizes options).1, (c.compile script sizes options).2.1.shifted shift,
        (c.compile script sizes options).2.2) := by
  have emission : c.emission (script.shifted shift) sizes (options.shifted shift) =
      (c.emission script sizes options).shifted shift := by
    have tracks : (c.capture (script.shifted shift) sizes (options.shifted shift).timeOffset).tracks =
        (c.capture script sizes options.timeOffset).tracks.shifted shift := (Capture.run_shifted _ _ c.states).1
    exact congrArg (fun tracks => (⟨c.config, tracks, bitmapSize sizes script, options.shifted shift⟩ : Emission α)) tracks
  have begun : (c.capture (script.shifted shift) sizes (options.shifted shift).timeOffset).begun =
      (c.capture script sizes options.timeOffset).begun := (Capture.run_shifted _ _ c.states).2
  rw [compile_eq, compile_eq, passWith, passWith, emission, begun]
  split
  next => exact congrArg (_, ·, _) (Emission.run_shifted _ script)
  next => rfl

/-- Onto an empty script, a pass whose offset and window are `shift` later answers the same and
writes the same commands, each `shift` later. -/
theorem pass_shifted (texturePath : String) (origin : Origin) (initialPosition : Vec2 α) :
    let fresh : Script α := { texturePath, origin, initialPosition }
    c.compile fresh sizes (options.shifted shift) =
      ((c.compile fresh sizes options).1, (c.compile fresh sizes options).2.1.shifted shift,
        (c.compile fresh sizes options).2.2) :=
  compile_shifted c sizes options shift { texturePath, origin, initialPosition }

-- A decimal numeral is read by the scalars, whatever else can read it.
attribute [local instance (high)] Scalar.toOfScientific

/-- Across the canvas in real time. -/
noncomputable def crossing : Compiler ℝ where
  config := .standard
  states := [State.neutral 1.0, { State.neutral 2.0 with position := ⟨320.0, 240.0⟩ }]

theorem pass_shifted_crossing :
    let fresh : Script ℝ := { texturePath := "", origin := .centre, initialPosition := canvasCenter }
    let options : PassOptions ℝ := ⟨some 0.0, none, 0.5, true⟩
    ExactSums ℝ ∧ crossing.compile fresh (fun _ => none) (options.shifted 3.0) =
      ((crossing.compile fresh (fun _ => none) options).1, (crossing.compile fresh (fun _ => none) options).2.1.shifted 3.0,
        (crossing.compile fresh (fun _ => none) options).2.2) :=
  ⟨inferInstance, pass_shifted crossing (fun _ => none) ⟨some 0.0, none, 0.5, true⟩ 3.0 "" .centre canvasCenter⟩

end Tween.Compiler
