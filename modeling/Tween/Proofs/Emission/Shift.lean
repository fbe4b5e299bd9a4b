import Tween.Proofs.Capture.Shift
import Tween.Proofs.Emission.Written

/-! Emission later. The sink is asked for its first and last time, which move with the commands on
it, so the same commands arrive at later times. -/

namespace Tween
open Scalar ExactSums
variable {α : Type} [Scalar α] {shift : α}

/-- The same command `shift` later. -/
def Command.shifted (shift : α) (command : Command α) : Command α :=
  { command with startTime := command.startTime + shift, endTime := command.endTime + shift }

def PassOptions.shifted (shift : α) (options : PassOptions α) : PassOptions α :=
  { options with
    startTime := options.startTime.map (· + shift)
    endTime := options.endTime.map (· + shift)
    timeOffset := options.timeOffset + shift }

namespace Script

def shifted (shift : α) (script : Script α) : Script α := { script with commands := script.commands.map (·.shifted shift) }

variable [ExactSums α] (script : Script α)

omit [ExactSums α] in
private theorem fold_shifted {pick : α → α → α} (moves : ∀ a b, pick (a + shift) (b + shift) = pick a b + shift)
    (times : List α) (time : α) :
    (times.map (· + shift)).foldl pick (time + shift) = times.foldl pick time + shift := by
  induction times generalizing time with
  | nil => rfl
  | cons next times ih =>
    rw [List.map_cons, List.foldl_cons, List.foldl_cons, moves]
    exact ih _

theorem startTime_shifted : (script.shifted shift).startTime = script.startTime.map (· + shift) := by
  have times : (script.shifted shift).commands.map (·.startTime) =
      (script.commands.map (·.startTime)).map (· + shift) := by
    rw [shifted, List.map_map, List.map_map]
    rfl
  unfold startTime
  rw [times]
  cases script.commands.map (·.startTime) with
  | nil => rfl
  | cons time times =>
    exact congrArg some (fold_shifted (fun a b => least_shift a b shift) times time)

theorem endTime_shifted : (script.shifted shift).endTime = script.endTime.map (· + shift) := by
  have times : (script.shifted shift).commands.map (·.endTime) = (script.commands.map (·.endTime)).map (· + shift) := by
    rw [shifted, List.map_map, List.map_map]
    rfl
  unfold endTime
  rw [times]
  cases script.commands.map (·.endTime) with
  | nil => rfl
  | cons time times =>
    exact congrArg some (fold_shifted (fun a b => greatest_shift a b shift) times time)

end Script

namespace Emission

def shifted (shift : α) (e : Emission α) : Emission α :=
  { e with tracks := e.tracks.shifted shift, options := e.options.shifted shift }

section Lists
variable [ExactSums α] (e : Emission α)

theorem commands_shifted {V : Type} [BEq V] (channel : Channel α V) (rest : V) (edit : V → V)
    (change : V → V → Change α) :
    (e.shifted shift).commands (channel.shifted shift) rest edit change =
      (e.commands channel rest edit change).map (·.shifted shift) := by
  have pairs : (channel.shifted shift).pairs ((e.shifted shift).options.playback rest edit) =
      (channel.pairs (e.options.playback rest edit)).map (·.shifted shift) :=
    Channel.pairs_shifted (e.options.playback rest edit) channel
  rw [commands, commands, pairs, List.map_map, List.map_map]
  rfl

theorem moves_shifted (initial : Vec2 α) : (e.shifted shift).moves initial = (e.moves initial).map (·.shifted shift) := by
  have positions : (e.shifted shift).tracks.position = e.tracks.position.shifted shift := rfl
  have config : (e.shifted shift).config = e.config := rfl
  simp only [moves, config, positions, Channel.shifted_keyframes, List.all_map, Function.comp_def,
    Keyframe.shifted_value, commands_shifted]
  split_ifs <;> rfl

theorem scales_shifted : (e.shifted shift).scales = e.scales.map (·.shifted shift) := by
  have keyframes : (e.shifted shift).tracks.scale.keyframes = e.tracks.scale.keyframes.map (·.shifted shift) := rfl
  unfold scales
  dsimp only
  rw [keyframes, List.any_map]
  split
  next apart => exact (commands_shifted ..).trans (congrArg _ (if_pos apart).symm)
  next close => exact (commands_shifted ..).trans (congrArg _ (if_neg close).symm)

theorem fades_shifted : (e.shifted shift).fades = e.fades.map (·.shifted shift) :=
  Channel.pairs_shifted (e.options.playback 1.0 e.config.roundOpacity) e.tracks.opacity

omit [ExactSums α] in
private theorem flagSpansFrom_shifted (opened : Option α) (latest : α) (keyframes : List (Keyframe α Bool)) :
    flagSpansFrom (opened.map (· + shift)) (latest + shift) (keyframes.map (·.shifted shift)) =
      (flagSpansFrom opened latest keyframes).map fun (start, stop) => (start + shift, stop + shift) := by
  induction keyframes generalizing opened latest with
  | nil => cases opened <;> rfl
  | cons k rest ih =>
    have outside := ih none
    have inside (start : α) := ih (some start)
    rw [Option.map_none] at outside
    simp only [Option.map_some] at inside
    cases value : k.value <;> cases opened <;>
      simp [flagSpansFrom, value, outside, inside]

omit [ExactSums α] in
theorem flags_shifted (channel : Channel α Bool) (change : Change α) :
    flags (channel.shifted shift) change = (flags channel change).map (·.shifted shift) := by
  unfold flags
  rw [Channel.shifted_keyframes]
  cases channel.keyframes with
  | nil => rfl
  | cons k rest =>
    have spans : flagSpansFrom none (k.time + shift) (k.shifted shift :: rest.map (·.shifted shift)) =
        (flagSpansFrom none k.time (k :: rest)).map fun (start, stop) => (start + shift, stop + shift) :=
      flagSpansFrom_shifted none k.time (k :: rest)
    rw [List.map_cons, flagSpans, flagSpans, Keyframe.shifted_time, spans, List.map_map, List.map_map]
    rfl

theorem showsNothing_shifted (sinkStart sinkEnd : Option α) (fade : Pair α α) :
    showsNothing (sinkStart.map (· + shift)) (sinkEnd.map (· + shift)) (fade.shifted shift) =
      showsNothing sinkStart sinkEnd fade := by
  cases sinkStart with
  | none => rfl
  | some start =>
    cases sinkEnd with
    | none => rfl
    | some stop =>
      simp only [showsNothing, Option.map_some, Pair.shifted, Keyframe.shifted_time, Keyframe.shifted_value,
        lt_shift_iff, beq_shift]

end Lists

theorem pushAll_shifted (script : Script α) (commands : List (Command α)) :
    pushAll (script.shifted shift) (commands.map (·.shifted shift)) = (pushAll script commands).shifted shift := by
  simp only [pushAll_script, Script.shifted, List.map_append]

variable [ExactSums α]

theorem pushFades_shifted (script : Script α) (fades : List (Pair α α)) :
    pushFades showsNothing (script.shifted shift) (fades.map (·.shifted shift)) =
      (pushFades showsNothing script fades).shifted shift := by
  induction fades generalizing script with
  | nil => rfl
  | cons fade fades ih =>
    have redundant : showsNothing (Sink.startTime (script.shifted shift)) (Sink.endTime (script.shifted shift))
        (fade.shifted shift) = showsNothing (Sink.startTime script) (Sink.endTime script) fade :=
      (congrArg₂ (showsNothing · · _) script.startTime_shifted script.endTime_shifted).trans (showsNothing_shifted ..)
    rw [List.map_cons, pushFades, pushFades, List.foldl_cons, List.foldl_cons, redundant]
    split
    next => exact ih script
    next =>
      rw [← pushFades, ← pushFades, ← ih]
      exact congrArg (pushFades showsNothing · _) (pushAll_shifted script [command .fade fade])

/-- The emission of later tracks onto a script that is as much later. -/
theorem run_shifted (e : Emission α) (script : Script α) :
    (e.shifted shift).run (script.shifted shift) = (e.run script).shifted shift := by
  have rotations : (e.shifted shift).rotations = e.rotations.map (·.shifted shift) := commands_shifted ..
  have colors : (e.shifted shift).colors = e.colors.map (·.shifted shift) := commands_shifted ..
  have flipH : flags (e.shifted shift).tracks.flipH .flipH = (flags e.tracks.flipH .flipH).map (·.shifted shift) :=
    flags_shifted ..
  have flipV : flags (e.shifted shift).tracks.flipV .flipV = (flags e.tracks.flipV .flipV).map (·.shifted shift) :=
    flags_shifted ..
  have additive : flags (e.shifted shift).tracks.additive .additive =
      (flags e.tracks.additive .additive).map (·.shifted shift) := flags_shifted ..
  have initial : Sink.initialPosition (script.shifted shift) = Sink.initialPosition script := rfl
  simp only [run, runWith, initial, moves_shifted, scales_shifted, rotations, colors, fades_shifted, flipH, flipV,
    additive, pushAll_shifted, pushFades_shifted]

end Emission
end Tween
