import Tween.Proofs.Capture.Segmentation
import Tween.Proofs.Channel.Shift

/-! Capturing states later. Times are compared with each other and measured against each other, never
with a fixed time, so the tracks are those of the earlier capture at later times. -/

namespace Tween
open Scalar ExactSums
variable {α : Type} [Scalar α] [ExactSums α] {shift : α}

/-! A common shift of the first coordinates does not show in differences. -/

private theorem Vec2.sub_shifted (t u x x' : α) :
    (⟨t + shift, x⟩ : Vec2 α) - ⟨u + shift, x'⟩ = ⟨t, x⟩ - ⟨u, x'⟩ :=
  congrArg (Vec2.mk · (x - x')) (sub_shift t u shift)

private theorem Vec3.sub_shifted (t u x y x' y' : α) :
    (⟨t + shift, x, y⟩ : Vec3 α) - ⟨u + shift, x', y'⟩ = ⟨t, x, y⟩ - ⟨u, x', y'⟩ :=
  congrArg (Vec3.mk · (x - x') (y - y')) (sub_shift t u shift)

private theorem Vec4.sub_shifted (t u x y z x' y' z' : α) :
    (⟨t + shift, x, y, z⟩ : Vec4 α) - ⟨u + shift, x', y', z'⟩ = ⟨t, x, y, z⟩ - ⟨u, x', y', z'⟩ :=
  congrArg (Vec4.mk · (x - x') (y - y') (z - z')) (sub_shift t u shift)

namespace Channel
variable {V : Type} [BEq V] (c : Channel α V) (tolerance : α)

theorem simplify1_shifted (project : V → α) :
    (c.shifted shift).simplify1 tolerance project = (c.simplify1 tolerance project).shifted shift := by
  refine simplify_shifted (fun a m z => ?_) tolerance c
  simp only [Distance.toLine2, Keyframe.shifted_time, Keyframe.shifted_value, Vec2.sub_shifted]

theorem simplify2_shifted (project : V → Vec2 α) :
    (c.shifted shift).simplify2 tolerance project = (c.simplify2 tolerance project).shifted shift := by
  refine simplify_shifted (fun a m z => ?_) tolerance c
  simp only [Distance.toLine3, Keyframe.shifted_time, Keyframe.shifted_value, Vec3.sub_shifted]

theorem simplify3_shifted (project : V → Vec3 α) :
    (c.shifted shift).simplify3 tolerance project = (c.simplify3 tolerance project).shifted shift := by
  refine simplify_shifted (fun a m z => ?_) tolerance c
  simp only [Distance.toLine4, Keyframe.shifted_time, Keyframe.shifted_value, Vec4.sub_shifted]

end Channel

namespace Tracks

omit [ExactSums α] in
/-- All channels move alike. -/
def shifted (shift : α) (tracks : Tracks α) : Tracks α where
  position := tracks.position.shifted shift
  scale := tracks.scale.shifted shift
  rotation := tracks.rotation.shifted shift
  color := tracks.color.shifted shift
  opacity := tracks.opacity.shifted shift
  flipH := tracks.flipH.shifted shift
  flipV := tracks.flipV.shifted shift
  additive := tracks.additive.shifted shift

theorem record_shifted (tracks : Tracks α) (state : State α) (time : α) :
    (tracks.shifted shift).record state (time + shift) = (tracks.record state time).shifted shift := by
  have add {V : Type} (c : Channel α V) (value : V) :
      (c.shifted shift).add (time + shift) value = (c.add time value).shifted shift :=
    Channel.insert_shifted c { time, value } false
  simp only [record, shifted, add]

theorem hold_shifted (tracks : Tracks α) (time : α) :
    (tracks.shifted shift).hold (time + shift) = (tracks.hold time).shifted shift := by
  have held {V : Type} (c : Channel α V) :
      ((c.shifted shift).hold? (time + shift)).getD (c.shifted shift) = ((c.hold? time).getD c).shifted shift := by
    rw [Channel.hold?_shifted]
    cases c.hold? time <;> rfl
  simp only [hold, shifted, held]

theorem receive_shifted (target source : Tracks α) :
    (target.shifted shift).receive (source.shifted shift) = (target.receive source).shifted shift := by
  simp only [receive, shifted, Channel.receive_shifted]

end Tracks

namespace Capture
variable (config : Config α) (bitmapSize : Vec2 α)

theorem simplified_shifted (tracks : Tracks α) :
    simplified config bitmapSize (tracks.shifted shift) = (simplified config bitmapSize tracks).shifted shift := by
  have flag (c : Channel α Bool) : (c.shifted shift).simplify 0.0 (fun _ _ _ => 0.0) =
      (c.simplify 0.0 fun _ _ _ => 0.0).shifted shift := Channel.simplify_shifted (fun _ _ _ => rfl) _ c
  simp only [simplified, Tracks.shifted, Channel.simplify1_shifted, Channel.simplify2_shifted,
    Channel.simplify3_shifted, flag]

/-- A span adjoins the one before if it starts when that one ends, wherever both have moved. -/
theorem faded_shifted (precedingEnd : Option α) (opacity : Channel α α) :
    faded config (precedingEnd.map (· + shift)) (opacity.shifted shift) =
      (faded config precedingEnd opacity).shifted shift := by
  unfold faded
  rw [Channel.shifted_startTime, Channel.shifted_endTime]
  cases opacity.startTime with
  | none => rfl
  | some start =>
    cases opacity.endTime with
    | none => rfl
    | some stop =>
      have adjoins : (precedingEnd.map (· + shift) == some (start + shift)) = (precedingEnd == some start) := by
        cases precedingEnd with
        | none => rfl
        | some time => exact beq_shift time start shift
      have nothing (c : Channel α α) (time : α) (before : Bool) :
          (c.shifted shift).insert { time := time + shift, value := 0.0 } before =
            (c.insert { time, value := 0.0 } before).shifted shift := c.insert_shifted { time, value := 0.0 } before
      simp only [Option.map_some, adjoins, Channel.shifted_startValue, nothing]
      split <;> simp only [Channel.shifted_endValue, nothing] <;> split <;> rfl

/-- A span begins with its first position, which is when the tracks so far are held. -/
theorem close_shifted (tracks span : Tracks α) :
    close config bitmapSize (tracks.shifted shift) (span.shifted shift) =
      (close config bitmapSize tracks span).shifted shift := by
  have starts : (span.shifted shift).position.startTime = span.position.startTime.map (· + shift) :=
    Channel.shifted_startTime _
  have ends : (tracks.shifted shift).opacity.endTime = tracks.opacity.endTime.map (· + shift) :=
    Channel.shifted_endTime _
  unfold close closeSpan
  dsimp only
  rw [starts, ends]
  cases span.position.startTime with
  | none => rfl
  | some start =>
    have opacity : faded config (tracks.opacity.endTime.map (· + shift))
        ((simplified config bitmapSize span).shifted shift).opacity =
        (faded config tracks.opacity.endTime (simplified config bitmapSize span).opacity).shifted shift :=
      faded_shifted ..
    simp only [Option.map_some, simplified_shifted, opacity, Tracks.hold_shifted]
    exact Tracks.receive_shifted _ { simplified config bitmapSize span with
      opacity := faded config tracks.opacity.endTime (simplified config bitmapSize span).opacity }

variable {timeOffset : α} {visible : State α → Bool}

private theorem recordAll_shifted (tracks : Tracks α) (states : List (State α)) :
    (tracks.shifted shift).recordAll (timeOffset + shift) states = (tracks.recordAll timeOffset states).shifted shift := by
  induction states generalizing tracks with
  | nil => rfl
  | cons state states ih =>
    have later : state.time + (timeOffset + shift) = state.time + timeOffset + shift := (ExactSums.add_assoc ..).symm
    rw [Tracks.recordAll, Tracks.recordAll, List.foldl_cons, List.foldl_cons, later, Tracks.record_shifted]
    exact ih _

private theorem lay_shifted (tracks : Tracks α) (recordings : List (List (State α))) :
    lay config bitmapSize (timeOffset + shift) (tracks.shifted shift) recordings =
      (lay config bitmapSize timeOffset tracks recordings).shifted shift := by
  induction recordings generalizing tracks with
  | nil => rfl
  | cons recorded recordings ih =>
    have span : Tracks.empty.recordAll (timeOffset + shift) recorded =
        (Tracks.empty.recordAll timeOffset recorded).shifted shift := recordAll_shifted .empty recorded
    rw [lay, List.foldl_cons, span, close_shifted]
    exact ih _

/-- The same states captured `shift` later give the same tracks `shift` later. -/
theorem run_shifted (states : List (State α)) :
    (run config bitmapSize (timeOffset + shift) visible states).tracks =
        (run config bitmapSize timeOffset visible states).tracks.shifted shift ∧
      (run config bitmapSize (timeOffset + shift) visible states).begun =
        (run config bitmapSize timeOffset visible states).begun := by
  rw [(run_eq states).1, (run_eq states).1, (run_eq states).2, (run_eq states).2]
  exact ⟨lay_shifted config bitmapSize .empty _, rfl⟩

end Capture
end Tween
