import Tween.Proofs.Capture.Thinning
import Tween.Proofs.Emission.Faithful

/-! The same emission with fewer keyframes of one channel. Which kind of commands is chosen depends
on the keyframes that are left, so the choice may differ. More commands are never needed. -/

namespace Tween.Emission
open Scalar OrderLaws Channel Capture
variable {e : Emission Float} {timeOffset : Float} {recordings : List (List (State Float))}

theorem commands_length {V : Type} [BEq V] (unbounded : e.options = .unbounded timeOffset) (channel : Channel Float V)
    (rest : V) (edit : V → V) (change : V → V → Change Float) :
    (e.commands channel rest edit change).length = (channel.pairs { rest, edit }).length := by
  rw [commands, List.length_map, unbounded]
  rfl

section Moves

/-- An edit under which the stored values compare as their rounded values do. -/
structure Alike {V : Type} [BEq V] (rounded edit : V → V) (rest : V) (keyframes : List (Keyframe Float V)) : Prop where
  same : ∀ k ∈ keyframes, ∀ k' ∈ keyframes,
    (edit k.value == edit k'.value) = (rounded k.value == rounded k'.value)
  resting : ∀ k ∈ keyframes, (edit k.value == rest) = (rounded k.value == rest)

theorem Alike.pruned {V : Type} [BEq V] {value : State Float → V} {thin c : Channel Float V} {rounded edit : V → V}
    {rest : V} (alike : Alike rounded edit rest c.keyframes) (pruned : Pruned timeOffset recordings value thin c) :
    Alike rounded edit rest thin.keyframes := by
  refine ⟨fun k member k' member' => ?_, fun k member => ?_⟩
  · obtain ⟨stored, found, value⟩ := pruned.among member
    obtain ⟨stored', found', value'⟩ := pruned.among member'
    rw [← value, ← value']
    exact alike.same stored found stored' found'
  · obtain ⟨stored, found, value⟩ := pruned.among member
    rw [← value]
    exact alike.resting stored found

private theorem beq_axes {x y x' y' shared : Float} (first : (y == shared) = true) (second : (y' == shared) = true) :
    ((⟨x, shared⟩ : Vec2 Float) == ⟨x', shared⟩) = ((⟨x, y⟩ : Vec2 Float) == ⟨x', y'⟩) := by
  have own : (shared == shared) = true := PartialEquivBEq.trans (PartialEquivBEq.symm first) first
  have both : (y == y') = true := PartialEquivBEq.trans first (PartialEquivBEq.symm second)
  change (x == x' && shared == shared) = (x == x' && y == y')
  rw [own, both]

private theorem beq_axes_swapped {x y x' y' shared : Float} (first : (x == shared) = true)
    (second : (x' == shared) = true) :
    ((⟨shared, y⟩ : Vec2 Float) == ⟨shared, y'⟩) = ((⟨x, y⟩ : Vec2 Float) == ⟨x', y'⟩) := by
  change (shared == shared && y == y') = (x == x' && y == y')
  rw [Bool.and_comm, Bool.and_comm (x == x')]
  exact beq_axes first second

/-- Moves along one axis leave out a coordinate that never changes. -/
private theorem moves_alike (unbounded : e.options = .unbounded timeOffset) (initial : Vec2 Float) :
    ∃ edit, (e.moves initial).length = (e.tracks.position.pairs { rest := initial, edit }).length ∧
      Alike e.config.roundPosition edit initial e.tracks.position.keyframes := by
  unfold moves
  dsimp only
  split
  next across =>
    have along := List.all_eq_true.mp (Bool.and_eq_true_iff.mp across).1
    refine ⟨_, commands_length unbounded _ _ _ _, fun k member k' member' => ?_, fun k member => ?_⟩
    · exact beq_axes (along k member) (along k' member')
    · have fixed := along k member
      exact beq_axes fixed (PartialEquivBEq.trans (PartialEquivBEq.symm fixed) fixed)
  next =>
    split
    next down =>
      have along := List.all_eq_true.mp (Bool.and_eq_true_iff.mp down).1
      refine ⟨_, commands_length unbounded _ _ _ _, fun k member k' member' => ?_, fun k member => ?_⟩
      · exact beq_axes_swapped (along k member) (along k' member')
      · have fixed := along k member
        exact beq_axes_swapped fixed (PartialEquivBEq.trans (PartialEquivBEq.symm fixed) fixed)
    next => exact ⟨_, commands_length unbounded _ _ _ _, fun _ _ _ _ => rfl, fun _ _ => rfl⟩

end Moves

section Scales

/-- By more than a pixel. -/
private def differs (bitmapSize scale : Vec2 Float) : Bool :=
  1.0 < Scalar.abs (scale.x - scale.y) * Scalar.greatest bitmapSize.x bitmapSize.y

private def scalesApart (e : Emission Float) : Bool :=
  e.tracks.scale.keyframes.any fun k => differs e.bitmapSize (e.config.roundScale k.value)

/-- What a command says of a scale: both axes, or the horizontal one for both. -/
private def stated (axesApart : Bool) (scale : Vec2 Float) : Vec2 Float :=
  if axesApart then scale else ⟨scale.x, scale.x⟩

private theorem stated_square (axesApart : Bool) (x : Float) : stated axesApart ⟨x, x⟩ = ⟨x, x⟩ := by
  cases axesApart <;> rfl

private theorem stated_blunter {few many : Bool} (implies : few = true → many = true) {v w : Vec2 Float}
    (same : (stated many v == stated many w) = true) : (stated few v == stated few w) = true := by
  have width : (v.x == w.x) = true := by cases many <;> exact (Vec2.beq_iff.mp same).1
  cases few with
  | true => rwa [implies rfl] at same
  | false => exact Vec2.beq_of_axes width width

private theorem scales_length (unbounded : e.options = .unbounded timeOffset) :
    e.scales.length = (e.tracks.scale.pairs {
      rest := ⟨1.0, 1.0⟩, edit := fun s => stated e.scalesApart (e.config.roundScale s) }).length := by
  change (if e.scalesApart then _ else _ : List (Command Float)).length = _
  cases e.scalesApart <;> exact commands_length unbounded _ _ _ _

end Scales

section Fewer

/-- Rounded values equal themselves. -/
private theorem rounded_reflexive {V : Type} [BEq V] {value : State Float → V} {thin c : Channel Float V}
    {rounded : V → V} (apart : Apart timeOffset recordings) (pruned : Pruned timeOffset recordings value thin c)
    (defined : ∀ s : State Float, s.Finite → (rounded (value s) == rounded (value s)) = true) :
    ∀ k ∈ c.keyframes, (rounded k.value == rounded k.value) = true := by
  intro k member
  obtain ⟨recorded, present, s, inside, same⟩ := pruned.recorded member
  exact same ▸ defined s (apart.accepted recorded present s inside)

variable (unbounded : e.options = .unbounded timeOffset) (valid : e.config.fault? = none)
  (apart : Apart timeOffset recordings) {tracks : Tracks Float}
include unbounded apart

/-- Commands of one kind. -/
private theorem commands_fewer {V : Type} [BEq V] [PartialEquivBEq V] {value : State Float → V}
    {thin c : Channel Float V} {rounded : V → V} (pruned : Pruned timeOffset recordings value thin c)
    (defined : ∀ s : State Float, s.Finite → (rounded (value s) == rounded (value s)) = true) (rest : V)
    (change : V → V → Change Float) :
    ({ e with tracks }.commands thin rest rounded change).length ≤ (e.commands c rest rounded change).length := by
  have few := commands_length (e := { e with tracks }) unbounded thin rest rounded change
  rw [few, commands_length unbounded]
  exact pruned.pairs apart (rounded_reflexive apart pruned defined) (fun _ _ _ _ same => same) fun _ _ same => same

include valid

theorem moves_fewer (pruned : Pruned timeOffset recordings (·.position) tracks.position e.tracks.position)
    (initial : Vec2 Float) : ({ e with tracks }.moves initial).length ≤ (e.moves initial).length := by
  obtain ⟨edit, many, alike⟩ := moves_alike unbounded initial
  obtain ⟨blunt, few, alike'⟩ := @moves_alike { e with tracks } timeOffset unbounded initial
  have defined := rounded_reflexive apart pruned fun s finite =>
    Config.roundPosition_congr valid (Binary64.beq_self_vec2 finite.position)
  have kept := alike.pruned pruned
  rw [few, many]
  refine pruned.pairs apart (fun k member => (alike.same k member k member).trans (defined k member)) ?_ ?_
  · intro k member k' member' same
    exact (alike'.same k member k' member').trans ((kept.same k member k' member').symm.trans same)
  · intro k member same
    exact (alike'.resting k member).trans ((kept.resting k member).symm.trans same)

theorem scales_fewer (pruned : Pruned timeOffset recordings (·.scale) tracks.scale e.tracks.scale) :
    ({ e with tracks }.scales).length ≤ e.scales.length := by
  have defined := rounded_reflexive apart pruned fun s finite =>
    Config.roundScale_congr valid (Binary64.beq_self_vec2 finite.scale)
  have implies : scalesApart { e with tracks } = true → e.scalesApart = true := by
    intro wide
    obtain ⟨k, member, wide⟩ := List.any_eq_true.mp wide
    obtain ⟨stored, found, value⟩ := pruned.among member
    exact List.any_eq_true.mpr ⟨stored, found, value ▸ wide⟩
  rw [@scales_length { e with tracks } timeOffset unbounded, scales_length unbounded]
  refine pruned.pairs apart (fun k member => ?_) (fun _ _ _ _ => stated_blunter implies) fun k _ same => ?_
  · cases e.scalesApart with
    | false => exact Vec2.beq_of_axes (Vec2.beq_iff.mp (defined k member)).1 (Vec2.beq_iff.mp (defined k member)).1
    | true => exact defined k member
  · rw [← stated_square _ 1.0] at same ⊢
    exact stated_blunter implies same

theorem rotations_fewer (pruned : Pruned timeOffset recordings (·.rotation) tracks.rotation e.tracks.rotation) :
    ({ e with tracks }.rotations).length ≤ e.rotations.length :=
  commands_fewer unbounded apart pruned
    (fun _ finite => Config.roundRotation_congr valid (Binary64.beq_self finite.rotation)) 0.0 .rotate

theorem colors_fewer (pruned : Pruned timeOffset recordings (·.color) tracks.color e.tracks.color) :
    ({ e with tracks }.colors).length ≤ e.colors.length :=
  commands_fewer unbounded apart pruned
    (fun _ finite => Config.roundColor_congr valid (Binary64.beq_self_color finite.color)) .white .color

end Fewer

end Tween.Emission
