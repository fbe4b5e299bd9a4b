import Tween.Proofs.Emission.Written

/-! How many commands a pass writes for one aspect. Each part of an emission changes one aspect
only, so the commands of an aspect are counted part by part. -/

namespace Tween

/-- The setting that a change belongs to. Flags have none. -/
def Change.aspect? {α : Type} : Change α → Option Aspect
  | .move .. | .moveX .. | .moveY .. => some .position
  | .scale .. | .scaleVec .. => some .scale
  | .rotate .. => some .rotation
  | .color .. => some .color
  | .fade .. => some .opacity
  | .flipH | .flipV | .additive => none

def tally {α : Type} (aspect : Aspect) (commands : List (Command α)) : Nat :=
  commands.countP fun command => command.change.aspect? == some aspect

namespace Emission
variable {α : Type} [Scalar α] {e : Emission α} {aspect : Aspect}

/-- The commands of one aspect. Fades depend on what the sink already has, so they are no part. -/
def part (e : Emission α) (initial : Vec2 α) : Aspect → List (Command α)
  | .position => e.moves initial
  | .scale => e.scales
  | .rotation => e.rotations
  | .color => e.colors
  | .opacity => []

theorem part_settings {config other : Config α} (settings : other = { config with tolerance := other.tolerance })
    (tracks : Tracks α) (bitmapSize initial : Vec2 α) (options : PassOptions α) (aspect : Aspect) :
    part { config := other, tracks, bitmapSize, options } initial aspect =
      part { config, tracks, bitmapSize, options } initial aspect := by
  rw [settings]
  cases aspect <;> rfl

omit [Scalar α] in
private theorem tally_append (front back : List (Command α)) :
    tally aspect (front ++ back) = tally aspect front + tally aspect back := List.countP_append

omit [Scalar α] in
private theorem tally_uniform {own : Option Aspect} {commands : List (Command α)}
    (all : ∀ command ∈ commands, command.change.aspect? = own) :
    tally aspect commands = if own = some aspect then commands.length else 0 := by
  unfold tally
  split
  next same =>
    refine List.countP_eq_length.mpr fun command member => ?_
    rw [all command member, same]
    exact beq_self_eq_true _
  next other =>
    refine List.countP_eq_zero.mpr fun command member => ?_
    rw [all command member, beq_iff_eq]
    exact other

private theorem aspect_commands {V : Type} [BEq V] {own : Option Aspect} {change : V → V → Change α}
    (channel : Channel α V) (rest : V) (edit : V → V) (each : ∀ a b, (change a b).aspect? = own) :
    ∀ command ∈ e.commands channel rest edit change, command.change.aspect? = own :=
  List.forall_mem_map.mpr fun _ _ => each _ _

private theorem aspect_moves (initial : Vec2 α) :
    ∀ command ∈ e.moves initial, command.change.aspect? = some .position := by
  unfold moves
  dsimp only
  split
  · exact aspect_commands _ _ _ fun _ _ => rfl
  · split <;> exact aspect_commands _ _ _ fun _ _ => rfl

private theorem aspect_scales : ∀ command ∈ e.scales, command.change.aspect? = some .scale := by
  unfold scales
  dsimp only
  split <;> exact aspect_commands _ _ _ fun _ _ => rfl

omit [Scalar α] in
private theorem aspect_flags (channel : Channel α Bool) (change : Change α) (silent : change.aspect? = none) :
    ∀ command ∈ flags channel change, command.change.aspect? = none :=
  List.forall_mem_map.mpr fun _ _ => silent

/-- Of the commands that a pass appends, those of its part change the aspect. -/
theorem tally_run (e : Emission α) (counted : aspect ≠ .opacity) (script : Script α) :
    ∃ appended, (e.run script).commands = script.commands ++ appended ∧
      tally aspect appended = (e.part script.initialPosition aspect).length := by
  have faded (kept : List (Pair α α)) : ∀ fade ∈ kept.map (command .fade), fade.change.aspect? = some .opacity :=
    List.forall_mem_map.mpr fun _ _ => rfl
  have turned : ∀ command ∈ e.rotations, command.change.aspect? = some .rotation :=
    aspect_commands _ _ _ fun _ _ => rfl
  have coloured : ∀ command ∈ e.colors, command.change.aspect? = some .color :=
    aspect_commands _ _ _ fun _ _ => rfl
  have flipH := aspect_flags e.tracks.flipH .flipH rfl
  have flipV := aspect_flags e.tracks.flipV .flipV rfl
  have additive := aspect_flags e.tracks.additive .additive rfl
  refine ⟨e.appended script, run_appended e script, ?_⟩
  simp only [appended, tally_append, tally_uniform (aspect_moves _), tally_uniform aspect_scales, tally_uniform turned,
    tally_uniform coloured, tally_uniform (faded _), tally_uniform flipH, tally_uniform flipV, tally_uniform additive]
  cases aspect with
  | opacity => exact absurd rfl counted
  | position | scale | rotation | color => simp [part]

end Emission
end Tween
