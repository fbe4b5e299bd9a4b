import Tween.Proofs.Channel.Stillness

/-! Which pairs go back in time. The pairs of transitions do not, and a window only adds pairs that
reach it. The one pair of a channel that never changes takes its ends from the window without a
look at their order, so there it depends on where the window lies. -/

namespace Tween
open Scalar OrderLaws
variable {α V : Type} [Scalar α] [BEq V]

def Pair.Forward (pair : Pair α V) : Prop := pair.start.time ≤ pair.stop.time

namespace Channel

omit [Scalar α] [BEq V] in
private theorem played_ne_nil (first : Keyframe α V) (behind : List (Keyframe α V)) : first :: behind ≠ [] :=
  List.cons_ne_nil first behind

/-- A value that never changes and has to be stated, in a window whose start, or else the first
keyframe, lies behind its end, or else the last keyframe. -/
def Overrun (c : Channel α V) (playback : Playback α V) : Prop :=
  ∃ first behind, edited playback.edit c.keyframes = first :: behind ∧ Still playback.loopable first behind ∧
    (first.value == playback.rest) = false ∧
    ¬playback.startTime.getD first.time ≤
      playback.endTime.getD ((first :: behind).getLast (played_ne_nil first behind)).time

variable [OrderLaws α] {c : Channel α V} {playback : Playback α V}

omit [BEq V] [OrderLaws α] in
private theorem ordered_ends {first : Keyframe α V} {behind : List (Keyframe α V)} (ordered : Ordered (first :: behind))
    (defined : first.time ≤ first.time) :
    first.time ≤ ((first :: behind).getLast (List.cons_ne_nil _ _)).time := by
  cases behind with
  | nil => exact defined
  | cons next behind =>
    have member : (next :: behind).getLast (List.cons_ne_nil _ _) ∈ next :: behind := List.getLast_mem _
    exact (List.pairwise_cons.mp ordered).1 _ member

private theorem constant_forward_iff {first last : Keyframe α V} (ends : first.time ≤ last.time) :
    (∀ p ∈ constant playback first last, p.Forward) ↔
      ((first.value == playback.rest) = false →
        playback.startTime.getD first.time ≤ playback.endTime.getD last.time) := by
  have defined := le_defined ends
  obtain ⟨rest, edit, startTime, endTime, loopable⟩ := playback
  cases shown : first.value == rest with
  | true => simp [constant, Keyframe.atTime, bne, shown]
  | false =>
    cases startTime <;> cases endTime <;>
      simp [constant, Keyframe.atTime, bne, shown, Pair.Forward, ends, defined]

/-- Every pair of an ordered channel goes forward unless its one value overruns the window. -/
theorem pairs_forward_iff [PartialEquivBEq V] (ordered : Ordered c.keyframes)
    (defined : ∀ k ∈ c.keyframes, k.time ≤ k.time) :
    (∀ p ∈ c.pairs playback, p.Forward) ↔ ¬c.Overrun playback := by
  have played : Ordered (edited playback.edit c.keyframes) := List.pairwise_map.mpr ordered
  have times : ∀ k ∈ edited playback.edit c.keyframes, k.time ≤ k.time := List.forall_mem_map.mpr defined
  cases shape : edited playback.edit c.keyframes with
  | nil =>
    have empty : c.keyframes = [] := List.map_eq_nil_iff.mp shape
    have none : c.pairs playback = [] := by simp [pairs, empty]
    simp [none, Overrun, shape]
  | cons first behind =>
    rw [shape] at played times
    have ends := ordered_ends played (times first List.mem_cons_self)
    by_cases still : Still playback.loopable first behind
    · rw [pairs_still shape still, leadOut_constant, constant_forward_iff ends]
      simp [Overrun, shape, still]
    · rw [pairs_moving shape still]
      refine iff_of_true ?_ ?_
      · have moving : Successive first.time (transitions playback.loopable none first behind) :=
          transitions_successive played fun s found => absurd found (Option.not_mem_none s)
        obtain ⟨time, successive⟩ := moving.leadIn playback
        exact fun p member => ((successive.leadOut playback).bounds member).2
      · rintro ⟨first', behind', same, still', _⟩
        obtain ⟨rfl, rfl⟩ := List.cons.inj (shape.symm.trans same)
        exact still still'

theorem Overrun.single [PartialEquivBEq V] (overrun : c.Overrun playback) (ordered : Ordered c.keyframes)
    (defined : ∀ k ∈ c.keyframes, k.time ≤ k.time) : ∃ p, c.pairs playback = [p] ∧ ¬p.Forward := by
  have back : ¬∀ p ∈ c.pairs playback, p.Forward := mt (pairs_forward_iff ordered defined).mp (not_not.mpr overrun)
  obtain ⟨first, behind, shape, still, _⟩ := overrun
  rw [pairs_still shape still, leadOut_constant] at back ⊢
  unfold constant at back ⊢
  dsimp only at back ⊢
  split at back
  next stated => exact ⟨_, if_pos stated, fun forward => back (List.forall_mem_singleton.mpr forward)⟩
  next => exact absurd (List.forall_mem_nil _) back

omit [OrderLaws α] in
/-- A window with both ends in order is overrun by nothing, and neither is an open one. -/
theorem not_overrun_of_window (ordered : Ordered c.keyframes) (defined : ∀ k ∈ c.keyframes, k.time ≤ k.time)
    (both : playback.startTime.isSome = playback.endTime.isSome)
    (window : ∀ start ∈ playback.startTime, ∀ stop ∈ playback.endTime, start ≤ stop) : ¬c.Overrun playback := by
  rintro ⟨first, behind, shape, _, _, overrun⟩
  have played : Ordered (edited playback.edit c.keyframes) := List.pairwise_map.mpr ordered
  have times : ∀ k ∈ edited playback.edit c.keyframes, k.time ≤ k.time := List.forall_mem_map.mpr defined
  rw [shape] at played times
  have ends := ordered_ends played (times first List.mem_cons_self)
  cases starts : playback.startTime <;> cases stops : playback.endTime <;> rw [starts, stops] at overrun both
  case none.none => exact overrun ends
  case none.some => cases both
  case some.none => cases both
  case some.some start stop => exact overrun (window start starts stop stops)

end Channel
end Tween
