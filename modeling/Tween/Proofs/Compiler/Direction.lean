import Tween.Proofs.Capture.Times
import Tween.Proofs.Channel.Overrun
import Tween.Proofs.Emission.FlagSpans
import Tween.Proofs.Emission.Parts

/-! Which commands go back in time. With both ends of a window or with none there are no such
commands. A window with one end makes one of a property that never changes, if that end lies beyond
the keyframes. -/

namespace Tween
open Scalar OrderLaws Channel

def Command.Forward {α : Type} [Scalar α] (command : Command α) : Prop := command.startTime ≤ command.endTime

namespace Emission
variable {α : Type} [Scalar α] {e : Emission α}

/-- A property has one value only, and the window of the options is overrun by it. A fade that is
left out as redundant does not count. -/
def Overruns (e : Emission α) (script : Script α) : Prop :=
  let initial := script.initialPosition
  e.tracks.position.Overrun (e.options.playback initial (e.moveForm initial).1) ∨
    e.tracks.scale.Overrun (e.options.playback ⟨1.0, 1.0⟩ e.scaleForm.1) ∨
    e.tracks.rotation.Overrun (e.options.playback 0.0 e.config.roundRotation) ∨
    e.tracks.color.Overrun (e.options.playback .white e.config.roundColor) ∨
    (e.tracks.opacity.Overrun (e.options.playback 1.0 e.config.roundOpacity) ∧
      keptFades showsNothing (e.ahead script) e.fades ≠ [])

variable [OrderLaws α]

private theorem commands_forward_iff {V : Type} [BEq V] [PartialEquivBEq V] {channel : Channel α V} {rest : V}
    {edit : V → V} {change : V → V → Change α} (ordered : Ordered channel.keyframes)
    (defined : channel.At fun time => time ≤ time) :
    (∀ command ∈ e.commands channel rest edit change, command.Forward) ↔
      ¬channel.Overrun (e.options.playback rest edit) := by
  rw [← pairs_forward_iff ordered defined]
  exact List.forall_mem_map

private theorem fades_forward_iff (ordered : Ordered e.tracks.opacity.keyframes)
    (defined : e.tracks.opacity.At fun time => time ≤ time) (script : Script α) :
    (∀ fade ∈ keptFades showsNothing (e.ahead script) e.fades, (command .fade fade).Forward) ↔
      ¬(e.tracks.opacity.Overrun (e.options.playback 1.0 e.config.roundOpacity) ∧
        keptFades showsNothing (e.ahead script) e.fades ≠ []) := by
  have kept := keptFades_sublist showsNothing (e.ahead script) e.fades
  by_cases overrun : e.tracks.opacity.Overrun (e.options.playback 1.0 e.config.roundOpacity)
  · obtain ⟨p, single, back⟩ := overrun.single ordered defined
    have all : ∀ fade ∈ keptFades showsNothing (e.ahead script) e.fades, fade = p := by
      intro fade member
      have found : fade ∈ e.tracks.opacity.pairs (e.options.playback 1.0 e.config.roundOpacity) := kept.subset member
      rw [single] at found
      exact List.mem_singleton.mp found
    simp only [overrun, true_and, ne_eq, not_not]
    constructor
    · intro forward
      refine List.eq_nil_iff_forall_not_mem.mpr fun fade member => back ?_
      exact all fade member ▸ forward fade member
    · intro none
      rw [none]
      exact List.forall_mem_nil _
  · refine iff_of_true (fun fade member => ?_) fun overruns => overrun overruns.1
    exact (pairs_forward_iff ordered defined).mpr overrun fade (kept.subset member)

private theorem flags_forward {channel : Channel α Bool} (ordered : Ordered channel.keyframes)
    (defined : channel.At fun time => time ≤ time) (change : Change α) :
    ∀ command ∈ flags channel change, command.Forward :=
  List.forall_mem_map.mpr (flagSpans_forward ordered defined)

theorem appended_forward_iff (ordered : e.tracks.Each (Ordered ·.keyframes))
    (defined : e.tracks.Each (At fun time => time ≤ time)) (script : Script α) :
    (∀ command ∈ e.appended script, command.Forward) ↔ ¬e.Overruns script := by
  have flags := iff_true_intro (And.intro (flags_forward ordered.flipH defined.flipH .flipH)
    (And.intro (flags_forward ordered.flipV defined.flipV .flipV)
      (flags_forward ordered.additive defined.additive .additive)))
  have rotations : (∀ command ∈ e.rotations, command.Forward) ↔
      ¬e.tracks.rotation.Overrun (e.options.playback 0.0 e.config.roundRotation) :=
    commands_forward_iff ordered.rotation defined.rotation
  have colors : (∀ command ∈ e.colors, command.Forward) ↔
      ¬e.tracks.color.Overrun (e.options.playback .white e.config.roundColor) :=
    commands_forward_iff ordered.color defined.color
  rw [forall_appended, moves_eq, scales_eq, commands_forward_iff ordered.position defined.position,
    commands_forward_iff ordered.scale defined.scale, rotations, colors,
    fades_forward_iff ordered.opacity defined.opacity, flags, and_true]
  simp only [Overruns, not_or]

omit [OrderLaws α] in
theorem not_overruns_of_window (ordered : e.tracks.Each (Ordered ·.keyframes))
    (defined : e.tracks.Each (At fun time => time ≤ time)) (script : Script α)
    (both : e.options.startTime.isSome = e.options.endTime.isSome)
    (window : ∀ start ∈ e.options.startTime, ∀ stop ∈ e.options.endTime, start ≤ stop) : ¬e.Overruns script := by
  rintro (position | scale | rotation | color | ⟨opacity, _⟩)
  · exact not_overrun_of_window ordered.position defined.position both window position
  · exact not_overrun_of_window ordered.scale defined.scale both window scale
  · exact not_overrun_of_window ordered.rotation defined.rotation both window rotation
  · exact not_overrun_of_window ordered.color defined.color both window color
  · exact not_overrun_of_window ordered.opacity defined.opacity both window opacity

end Emission

namespace Compiler

/-- A pass appends commands that all go forward exactly if nothing that it writes overruns the
window. Without a window, or with both of its ends in order, that is always so. -/
theorem pass_forward_iff (c : Compiler Float) (filled : c.Filled) (script : Script Float)
    (sizes : String → Option (Vec2 Float)) (options : PassOptions Float) (shift : options.timeOffset.isFinite = true) :
    ∃ appended, ((c.compile script sizes options).2.1).commands = script.commands ++ appended ∧
      ((∀ command ∈ appended, command.startTime ≤ command.endTime) ↔
        ¬(c.emission script sizes options).Overruns script) ∧
      (options.startTime.isSome = options.endTime.isSome →
        (∀ start ∈ options.startTime, ∀ stop ∈ options.endTime, start ≤ stop) →
        ∀ command ∈ appended, command.startTime ≤ command.endTime) := by
  have timed := filled.timed (Binary64.defined_of_finite shift)
  have ordered : (c.emission script sizes options).tracks.Each (Ordered ·.keyframes) :=
    (Capture.run_assembled _ _ timed _).2
  have defined : (c.emission script sizes options).tracks.Each (At fun time => time ≤ time) :=
    Capture.run_at _ timed.defined
  have forward := Emission.appended_forward_iff ordered defined script
  refine ⟨_, compile_appended c script sizes options, forward, fun both window => ?_⟩
  exact forward.mpr (Emission.not_overruns_of_window ordered defined script both window)

def resting : Compiler Float where
  config := .standard
  states := [0.0, 10.0].map fun time => { State.neutral time with position := ⟨100.0, 100.0⟩ }

/-- With a window that ends before the object begins, the one move of an object at rest ends before
it starts. -/
theorem resting_goes_back :
    resting.Filled ∧ resting.config.fault? = none ∧
      ∃ command ∈ ((resting.compile blankScript (fun _ => none) ⟨none, some (-20.0), 0.0, false⟩).2.1).commands,
        ¬command.startTime ≤ command.endTime :=
  ⟨Filled.of_sorted _ (by decide +kernel) (by decide +kernel), by decide +kernel, by decide +kernel⟩

theorem pass_forward_iff_resting : resting.Filled ∧ (0.0 : Float).isFinite = true ∧
    ∀ command ∈ ((resting.compile blankScript (fun _ => none) ⟨some (-20.0), some 20.0, 0.0, false⟩).2.1).commands,
      command.startTime ≤ command.endTime := by
  have filled : resting.Filled := Filled.of_sorted _ (by decide +kernel) (by decide +kernel)
  have finite : (0.0 : Float).isFinite = true := by decide
  obtain ⟨appended, written, _, forward⟩ := pass_forward_iff resting filled blankScript (fun _ => none)
    ⟨some (-20.0), some 20.0, 0.0, false⟩ finite
  refine ⟨filled, finite, ?_⟩
  rw [written]
  refine forward rfl ?_
  rintro _ ⟨⟩ _ ⟨⟩
  decide

end Compiler
end Tween
