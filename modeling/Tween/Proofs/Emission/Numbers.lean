import Tween.Proofs.Capture.Times
import Tween.Proofs.Capture.Values
import Tween.Proofs.Channel.PairEnds
import Tween.Proofs.Emission.FlagSpans
import Tween.Proofs.Emission.Parts

/-! The numbers that commands are written with: moved times of recorded states, bounds of the
window, and rounded values of recorded states. What holds of all these holds of the commands. -/

namespace Tween
open Channel
variable {α : Type}

def Vec2.numbers (v : Vec2 α) : List α := [v.x, v.y]

def Color.numbers (c : Color α) : List α := [c.red, c.green, c.blue]

section
variable {holds : α → Prop}

theorem forall_pair {x y : α} : (∀ z ∈ [x, y], holds z) ↔ holds x ∧ holds y := by simp

theorem Vec2.forall_numbers {v : Vec2 α} : (∀ x ∈ v.numbers, holds x) ↔ holds v.x ∧ holds v.y := forall_pair

theorem Color.forall_numbers {c : Color α} :
    (∀ x ∈ c.numbers, holds x) ↔ (holds c.red ∧ holds c.green) ∧ holds c.blue := by simp [numbers, and_assoc]

end

def Change.numbers : Change α → List α
  | .move a b => a.numbers ++ b.numbers
  | .moveX a b => [a, b]
  | .moveY a b => [a, b]
  | .scale a b => [a, b]
  | .scaleVec a b => a.numbers ++ b.numbers
  | .rotate a b => [a, b]
  | .color a b => a.numbers ++ b.numbers
  | .fade a b => [a, b]
  | .flipH => []
  | .flipV => []
  | .additive => []

def Command.numbers (command : Command α) : List α :=
  command.startTime :: command.endTime :: command.change.numbers

variable [Scalar α] {holds : α → Prop}

/-- The values of a state as they are written. -/
structure Config.Rounds (config : Config α) (holds : α → Prop) (s : State α) : Prop where
  position : ∀ x ∈ (config.roundPosition s.position).numbers, holds x
  scale : ∀ x ∈ (config.roundScale s.scale).numbers, holds x
  rotation : holds (config.roundRotation s.rotation)
  color : ∀ x ∈ (config.roundColor s.color).numbers, holds x
  opacity : holds (config.roundOpacity s.opacity)

namespace Emission
variable {e : Emission α}

omit [Scalar α] in
private theorem flags_numbers {channel : Channel α Bool} (placed : channel.At holds) {change : Change α}
    (flag : change.numbers = []) : ∀ command ∈ flags channel change, ∀ x ∈ command.numbers, holds x := by
  refine List.forall_mem_map.mpr fun span member => ?_
  obtain ⟨start, stop⟩ := flagSpans_times placed span member
  rw [Command.numbers, flag]
  exact List.forall_mem_cons.mpr ⟨start, List.forall_mem_singleton.mpr stop⟩

section Window
variable (starts : ∀ time ∈ e.options.startTime, holds time) (stops : ∀ time ∈ e.options.endTime, holds time)
include starts stops

/-- One property: `values` holds of what is made of its keyframes, and is all that its changes need. -/
private theorem commands_numbers {V : Type} [BEq V] {channel : Channel α V} {rest : V} {edit : V → V}
    {change : V → V → Change α} (values : V → Prop) (placed : channel.At holds)
    (edits : channel.Valued fun value => values (edit value))
    (changes : ∀ a b, values a → values b → ∀ x ∈ (change a b).numbers, holds x) :
    ∀ command ∈ e.commands channel rest edit change, ∀ x ∈ command.numbers, holds x := by
  have both : BothWithin holds values (channel.pairs (e.options.playback rest edit)) :=
    pairs_within (fun k member => ⟨placed k member, edits k member⟩) starts stops
  refine List.forall_mem_map.mpr fun p member => ?_
  obtain ⟨⟨start, first⟩, stop, last⟩ := both p member
  exact List.forall_mem_cons.mpr ⟨start, List.forall_mem_cons.mpr ⟨stop, changes _ _ first last⟩⟩

variable {states : List (State α)} (reports : e.tracks.Reports states) (placed : e.tracks.Each (At holds))
  (rounds : ∀ s ∈ states, e.config.Rounds holds s)
include reports placed rounds

private theorem moves_numbers (initial : Vec2 α) : ∀ command ∈ e.moves initial, ∀ x ∈ command.numbers, holds x := by
  have xs : e.tracks.position.Valued fun value => holds (e.config.roundPosition value).x :=
    reports.position.taken fun s member => (Vec2.forall_numbers.mp (rounds s member).position).1
  have ys : e.tracks.position.Valued fun value => holds (e.config.roundPosition value).y :=
    reports.position.taken fun s member => (Vec2.forall_numbers.mp (rounds s member).position).2
  rw [moves_eq]
  unfold moveForm
  dsimp only
  split
  next =>
    exact commands_numbers starts stops (fun v => holds v.x) placed.position xs
      fun _ _ first last => forall_pair.mpr ⟨first, last⟩
  next =>
    split
    next =>
      exact commands_numbers starts stops (fun v => holds v.y) placed.position ys
        fun _ _ first last => forall_pair.mpr ⟨first, last⟩
    next =>
      exact commands_numbers starts stops (fun v => ∀ x ∈ v.numbers, holds x) placed.position
        (fun k member => Vec2.forall_numbers.mpr ⟨xs k member, ys k member⟩)
        fun _ _ first last => List.forall_mem_append.mpr ⟨first, last⟩

private theorem scales_numbers : ∀ command ∈ e.scales, ∀ x ∈ command.numbers, holds x := by
  have both : e.tracks.scale.Valued fun value => ∀ x ∈ (e.config.roundScale value).numbers, holds x :=
    reports.scale.taken fun s member => (rounds s member).scale
  rw [scales_eq]
  unfold scaleForm
  dsimp only
  split
  next =>
    exact commands_numbers starts stops (fun v => ∀ x ∈ v.numbers, holds x) placed.scale both
      fun _ _ first last => List.forall_mem_append.mpr ⟨first, last⟩
  next =>
    exact commands_numbers starts stops (fun v => holds v.x) placed.scale
      (fun k member => (Vec2.forall_numbers.mp (both k member)).1) fun _ _ first last => forall_pair.mpr ⟨first, last⟩

private theorem rotations_numbers : ∀ command ∈ e.rotations, ∀ x ∈ command.numbers, holds x :=
  commands_numbers starts stops holds placed.rotation
    (reports.rotation.taken fun s member => (rounds s member).rotation)
    fun _ _ first last => forall_pair.mpr ⟨first, last⟩

private theorem colors_numbers : ∀ command ∈ e.colors, ∀ x ∈ command.numbers, holds x :=
  commands_numbers starts stops (fun c => ∀ x ∈ c.numbers, holds x) placed.color
    (reports.color.taken fun s member => (rounds s member).color)
    fun _ _ first last => List.forall_mem_append.mpr ⟨first, last⟩

/-- Where something comes or goes, an opacity of nothing is written too. -/
private theorem fades_numbers (nothing : holds (e.config.roundOpacity 0.0)) :
    ∀ fade ∈ e.fades, ∀ x ∈ (command .fade fade).numbers, holds x := by
  have written : ∀ command ∈ e.commands e.tracks.opacity 1.0 e.config.roundOpacity .fade,
      ∀ x ∈ command.numbers, holds x := by
    refine commands_numbers starts stops holds placed.opacity (fun k member => ?_)
      fun _ _ first last => forall_pair.mpr ⟨first, last⟩
    rcases reports.opacity k member with none | ⟨s, found, same⟩
    · exact none ▸ nothing
    · exact same ▸ (rounds s found).opacity
  exact List.forall_mem_map.mp written

/-- A coordinate that stays at its initial value is not written, so what holds of recorded times, of
the window and of rounded values is all that has to be known. -/
theorem appended_numbers (nothing : holds (e.config.roundOpacity 0.0)) (script : Script α) :
    ∀ command ∈ e.appended script, ∀ x ∈ command.numbers, holds x := by
  have fades := fades_numbers starts stops reports placed rounds nothing
  refine (forall_appended e script).mpr ⟨moves_numbers starts stops reports placed rounds _,
    scales_numbers starts stops reports placed rounds, rotations_numbers starts stops reports placed rounds,
    colors_numbers starts stops reports placed rounds, fun fade kept => fades fade ?_,
    flags_numbers placed.flipH rfl, flags_numbers placed.flipV rfl, flags_numbers placed.additive rfl⟩
  exact (keptFades_sublist showsNothing (e.ahead script) e.fades).subset kept

end Window

end Emission
end Tween
