import Tween.Proofs.Capture.Layout
import Tween.Proofs.Channel.Members

/-! Where keyframes can be. A run of the reader invents values at the ends of a span but never a
time: whatever the order of insertion, every keyframe is at the moved time of some state. -/

namespace Tween
variable {α : Type}

namespace Channel
variable {V : Type} {allowed : α → Prop}

/-- Every keyframe is at a time that is allowed. -/
def At (allowed : α → Prop) (c : Channel α V) : Prop := ∀ k ∈ c.keyframes, allowed k.time

theorem At.first {c : Channel α V} (placed : c.At allowed) : ∀ time ∈ c.startTime, allowed time := by
  intro time found
  obtain ⟨k, head, rfl⟩ := Option.map_eq_some_iff.mp found
  exact placed k (List.mem_of_mem_head? head)

theorem At.last {c : Channel α V} (placed : c.At allowed) : ∀ time ∈ c.endTime, allowed time := by
  intro time found
  obtain ⟨k, ending, rfl⟩ := Option.map_eq_some_iff.mp found
  exact placed k (List.mem_of_mem_getLast? ending)

variable [Scalar α]

theorem At.insert {c : Channel α V} (placed : c.At allowed) {k : Keyframe α V} (time : allowed k.time) (before : Bool) :
    (c.insert k before).At allowed := by
  intro other member
  rcases mem_insert.mp member with rfl | stored
  · exact time
  · exact placed other stored

theorem At.hold {c : Channel α V} (placed : c.At allowed) {time : α} (here : allowed time) :
    ((c.hold? time).getD c).At allowed := by
  intro other member
  rcases mem_hold.mp member with ⟨last, _, rfl⟩ | stored
  · exact here
  · exact placed other stored

theorem At.receive {c source : Channel α V} (placed : c.At allowed) (more : source.At allowed) :
    (c.receive source).At allowed :=
  fun k member => (mem_receive.mp member).elim (placed k) (more k)

theorem At.simplify [BEq V] {c : Channel α V} (placed : c.At allowed) (tolerance : α) (deviation : Deviation α V) :
    (c.simplify tolerance deviation).At allowed :=
  fun k member => placed k ((simplify_trimmed c tolerance deviation).sublist.subset member)

end Channel

namespace Capture
open Channel
variable [Scalar α] {allowed : α → Prop} {config : Config α} {bitmapSize : Vec2 α} {timeOffset : α}

/-- The values that are put in stand at the start and the end, which are times of keyframes already. -/
private theorem faded_at {opacity : Channel α α} (placed : opacity.At allowed) (precedingEnd : Option α) :
    (faded config precedingEnd opacity).At allowed := by
  unfold faded
  split
  next start stop starts stops =>
    have entered : (if 0.0 < config.roundOpacity opacity.startValue ∧ (precedingEnd == some start) = false
        then opacity.insert { time := start, value := 0.0 } true else opacity).At allowed := by
      split
      · exact placed.insert (placed.first start starts) true
      · exact placed
    have left (entered : Channel α α) (placed : entered.At allowed) (stops : allowed stop) :
        (if 0.0 < config.roundOpacity entered.endValue then entered.insert { time := stop, value := 0.0 } false
          else entered).At allowed := by
      split
      · exact placed.insert stops false
      · exact placed
    exact left _ entered (placed.last stop stops)
  next => exact placed

theorem recordAll_at {states : List (State α)} (times : ∀ s ∈ states, allowed (s.time + timeOffset))
    {tracks : Tracks α} (placed : tracks.Each (At allowed)) : (tracks.recordAll timeOffset states).Each (At allowed) := by
  induction states generalizing tracks with
  | nil => exact placed
  | cons s states ih =>
    have time := times s List.mem_cons_self
    refine ih (fun s member => times s (List.mem_cons_of_mem _ member)) ?_
    exact ⟨placed.position.insert time false, placed.scale.insert time false, placed.rotation.insert time false,
      placed.color.insert time false, placed.opacity.insert time false, placed.flipH.insert time false,
      placed.flipV.insert time false, placed.additive.insert time false⟩

private theorem close_at {tracks span : Tracks α} (placed : tracks.Each (At allowed)) (more : span.Each (At allowed)) :
    (close config bitmapSize tracks span).Each (At allowed) := by
  unfold close closeSpan
  dsimp only
  split
  next => exact placed
  next start starts =>
    have here := more.position.first start starts
    exact ⟨(placed.position.hold here).receive (more.position.simplify _ _),
      (placed.scale.hold here).receive (more.scale.simplify _ _),
      (placed.rotation.hold here).receive (more.rotation.simplify _ _),
      (placed.color.hold here).receive (more.color.simplify _ _),
      (placed.opacity.hold here).receive (faded_at (more.opacity.simplify _ _) _),
      (placed.flipH.hold here).receive (more.flipH.simplify _ _),
      (placed.flipV.hold here).receive (more.flipV.simplify _ _),
      (placed.additive.hold here).receive (more.additive.simplify _ _)⟩

theorem empty_at : (Tracks.empty : Tracks α).Each (At allowed) := by
  have none {V : Type} {c : Channel α V} (empty : c.keyframes = []) : c.At allowed := by
    rw [At, empty]
    exact List.forall_mem_nil _
  exact ⟨none rfl, none rfl, none rfl, none rfl, none rfl, none rfl, none rfl, none rfl⟩

/-- No keyframe is at another time than some recorded state. -/
theorem run_at_recorded {visible : State α → Bool} {states : List (State α)}
    (times : ∀ s ∈ (Span.recordings true (Span.ofStates visible none states)).flatten, allowed (s.time + timeOffset)) :
    (run config bitmapSize timeOffset visible states).tracks.Each (At allowed) := by
  rw [(run_eq states).1]
  refine lay_preserves ?_ empty_at
  intro recorded within tracks placed
  apply close_at placed (recordAll_at _ empty_at)
  intro s member
  exact times s (List.mem_flatten_of_mem within member)

theorem run_at (visible : State α → Bool) {states : List (State α)} (times : ∀ s ∈ states, allowed (s.time + timeOffset)) :
    (run config bitmapSize timeOffset visible states).tracks.Each (At allowed) :=
  run_at_recorded fun s member => times s ((Span.recorded_sublist states).subset member)

end Capture
end Tween
