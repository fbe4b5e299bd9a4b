import Tween.Proofs.Channel.Agreement
import Tween.Proofs.Emission.Suppression

/-! Moves along one axis. They leave out a coordinate that stays at its initial place, and read with
that place they are the moves along both axes. -/

namespace Tween.Emission
open Channel
variable {α : Type} [Scalar α] {initial : Vec2 α}

def SamePlace (v w : Vec2 α) : Prop := Same v.x w.x ∧ Same v.y w.y

/-- A command that says what a move along both axes says. An axis that it leaves alone stays at its
initial place. -/
structure ReadsAs (initial : Vec2 α) (command move : Command α) : Prop where
  startTime : command.startTime = move.startTime
  endTime : command.endTime = move.endTime
  places : ∃ start stop start' stop', command.change.positions? initial = some (start, stop) ∧
    move.change = .move start' stop' ∧ SamePlace start start' ∧ SamePlace stop stop'

def Kept (first a b : α) : Prop := a = first ∧ (b == first) = true

section Comparison
variable {across down : α → α → Prop}

private theorem kept_comparable [PartialEquivBEq α] (first : α) : Comparable (Kept first) first where
  alike := by
    rintro a a' b b' ⟨rfl, here⟩ ⟨rfl, there⟩
    rw [PartialEquivBEq.trans (PartialEquivBEq.symm here) here, PartialEquivBEq.trans here (PartialEquivBEq.symm there)]
  resting := by
    rintro a b ⟨rfl, here⟩
    rw [PartialEquivBEq.trans (PartialEquivBEq.symm here) here, here]

private theorem places_comparable (first : Comparable across initial.x) (second : Comparable down initial.y) :
    Comparable (fun v w : Vec2 α => across v.x w.x ∧ down v.y w.y) initial where
  alike {v v' w w'} same same' := by
    change (v.x == v'.x && v.y == v'.y) = (w.x == w'.x && w.y == w'.y)
    rw [first.alike same.1 same'.1, second.alike same.2 same'.2]
  resting {v w} same := by
    change (v.x == initial.x && v.y == initial.y) = (w.x == initial.x && w.y == initial.y)
    rw [first.resting same.1, second.resting same.2]

end Comparison

theorem Kept.same [PartialEquivBEq α] {first a b : α} (kept : Kept first a b) : Same a b :=
  Or.inr (kept.1 ▸ PartialEquivBEq.symm kept.2)

private theorem commands_readAs {across down : α → α → Prop} (e : Emission α) {edit : Vec2 α → Vec2 α}
    {change : Vec2 α → Vec2 α → Change α} (first : Comparable across initial.x) (second : Comparable down initial.y)
    (sameX : ∀ {a b}, across a b → Same a b) (sameY : ∀ {a b}, down a b → Same a b)
    (edited : ∀ k ∈ e.tracks.position.keyframes, across (edit k.value).x (e.config.roundPosition k.value).x ∧
      down (edit k.value).y (e.config.roundPosition k.value).y)
    (reads : ∀ {v v' w w' : Vec2 α}, across v.x w.x ∧ down v.y w.y → across v'.x w'.x ∧ down v'.y w'.y →
      (change v v').positions? initial = some (v, v')) :
    List.Forall₂ (ReadsAs initial) (e.commands e.tracks.position initial edit change)
      (e.commands e.tracks.position initial e.config.roundPosition .move) := by
  have pairs := pairs_corresponds e.tracks.position (e.options.playback initial edit) e.config.roundPosition
    (places_comparable first second) edited
  rw [commands, commands, List.forall₂_map_left_iff, List.forall₂_map_right_iff]
  refine pairs.imp fun p p' same => ⟨same.start.time, same.stop.time, ?_⟩
  have start := same.start.value
  have stop := same.stop.value
  exact ⟨_, _, _, _, reads start stop, rfl, ⟨sameX start.1, sameY start.2⟩, sameX stop.1, sameY stop.2⟩

/-- Whichever axes the commands of a position leave out, they say what moves along both would say. -/
theorem moves_readAs [PartialEquivBEq α] (e : Emission α) (initial : Vec2 α) :
    List.Forall₂ (ReadsAs initial) (e.moves initial)
      (e.commands e.tracks.position initial e.config.roundPosition .move) := by
  unfold moves
  dsimp only
  split
  next level =>
    have keeps := List.all_eq_true.mp (Bool.and_eq_true_iff.mp level).1
    refine commands_readAs e (.rfl initial.x) (kept_comparable initial.y) Or.inl Kept.same
      (fun k member => ⟨rfl, rfl, keeps k member⟩) ?_
    rintro ⟨x, y⟩ ⟨x', y'⟩ w w' ⟨_, rfl, _⟩ ⟨_, rfl, _⟩
    rfl
  next =>
    split
    next upright =>
      have keeps := List.all_eq_true.mp (Bool.and_eq_true_iff.mp upright).1
      refine commands_readAs e (kept_comparable initial.x) (.rfl initial.y) Kept.same Or.inl
        (fun k member => ⟨⟨rfl, keeps k member⟩, rfl⟩) ?_
      rintro ⟨x, y⟩ ⟨x', y'⟩ w w' ⟨⟨rfl, _⟩, _⟩ ⟨⟨rfl, _⟩, _⟩
      rfl
    next =>
      exact commands_readAs e (.rfl initial.x) (.rfl initial.y) Or.inl Or.inl (fun _ _ => ⟨rfl, rfl⟩) fun _ _ => rfl

def hopping : Emission Float where
  config := .standard
  tracks := { Tracks.empty with position := { Channel.withBlend Blend.vec2 canvasCenter with
    keyframes := [⟨0.0, ⟨0.04, 100.0⟩, .linear, false⟩, ⟨1.0, ⟨-0.04, 240.0⟩, .linear, false⟩,
      ⟨3.0, ⟨-0.04, 240.0⟩, .linear, true⟩, ⟨3.0, ⟨0.0, 250.0⟩, .linear, false⟩,
      ⟨5.0, ⟨0.0, 90.0⟩, .easeIn .sine, false⟩] } }
  bitmapSize := ⟨1.0, 1.0⟩
  options := ⟨some (-1.0), some 7.0, 0.0, true⟩

theorem moves_readAs_hopping : List.Forall₂ (ReadsAs ⟨0.0, 240.0⟩) (hopping.moves ⟨0.0, 240.0⟩)
    (hopping.commands hopping.tracks.position ⟨0.0, 240.0⟩ hopping.config.roundPosition .move) :=
  moves_readAs hopping ⟨0.0, 240.0⟩

/-- The rounded zeros differ in their signs, and no command mentions them. -/
example : (hopping.moves ⟨0.0, 240.0⟩ == [⟨-1.0, 0.0, .moveY 100.0 100.0⟩, ⟨0.0, 1.0, .moveY 100.0 240.0⟩,
    ⟨3.0, 5.0, .moveY 250.0 90.0⟩, ⟨5.0, 7.0, .moveY 90.0 90.0⟩]) = true := by decide +kernel

end Tween.Emission
