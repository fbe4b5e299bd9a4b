import Tween.Proofs.Capture.Segmentation
import Tween.Proofs.Channel.Members
import Tween.Proofs.Channel.Simplification

/-! Which values keyframes can have. A run of the reader copies the values of the states that it
records, and holding repeats them; the only value of its own is an opacity of nothing. -/

namespace Tween
variable {α : Type} [Scalar α]

namespace Channel
variable {V : Type} {allowed : V → Prop} {c source : Channel α V}

def Valued (allowed : V → Prop) (c : Channel α V) : Prop := ∀ k ∈ c.keyframes, allowed k.value

omit [Scalar α] in
/-- What holds of the values of states holds of the values taken from them. -/
theorem Valued.taken {states : List (State α)} {read : State α → V}
    (valued : c.Valued fun value => ∃ s ∈ states, value = read s) (each : ∀ s ∈ states, allowed (read s)) :
    c.Valued allowed := by
  intro k member
  obtain ⟨s, found, same⟩ := valued k member
  exact same ▸ each s found

theorem Valued.insert (valued : c.Valued allowed) {k : Keyframe α V} (value : allowed k.value) (before : Bool) :
    (c.insert k before).Valued allowed := by
  intro other member
  rcases mem_insert.mp member with rfl | stored
  · exact value
  · exact valued other stored

theorem Valued.hold (valued : c.Valued allowed) (time : α) : ((c.hold? time).getD c).Valued allowed := by
  intro other member
  rcases mem_hold.mp member with ⟨last, found, rfl⟩ | stored
  · exact valued last (List.mem_of_mem_getLast? found)
  · exact valued other stored

theorem Valued.receive (valued : c.Valued allowed) (more : source.Valued allowed) : (c.receive source).Valued allowed :=
  fun k member => (mem_receive.mp member).elim (valued k) (more k)

theorem Valued.simplify [BEq V] (valued : c.Valued allowed) (tolerance : α) (deviation : Deviation α V) :
    (c.simplify tolerance deviation).Valued allowed :=
  fun k member => valued k ((simplify_trimmed c tolerance deviation).sublist.subset member)

end Channel

open Channel

/-- Every value is that of one of the states, but for opacities where something comes or goes. -/
structure Tracks.Reports (states : List (State α)) (tracks : Tracks α) : Prop where
  position : tracks.position.Valued fun value => ∃ s ∈ states, value = s.position
  scale : tracks.scale.Valued fun value => ∃ s ∈ states, value = s.scale
  rotation : tracks.rotation.Valued fun value => ∃ s ∈ states, value = s.rotation
  color : tracks.color.Valued fun value => ∃ s ∈ states, value = s.color
  opacity : tracks.opacity.Valued fun value => value = 0.0 ∨ ∃ s ∈ states, value = s.opacity
  flipH : tracks.flipH.Valued fun value => ∃ s ∈ states, value = s.flipH
  flipV : tracks.flipV.Valued fun value => ∃ s ∈ states, value = s.flipV
  additive : tracks.additive.Valued fun value => ∃ s ∈ states, value = s.additive

namespace Capture
variable {config : Config α} {bitmapSize : Vec2 α} {timeOffset : α} {states : List (State α)}

private theorem empty_reports : (Tracks.empty : Tracks α).Reports states :=
  ⟨nofun, nofun, nofun, nofun, nofun, nofun, nofun, nofun⟩

private theorem recordAll_reports {recorded : List (State α)} (some : ∀ s ∈ recorded, s ∈ states) {tracks : Tracks α}
    (reports : tracks.Reports states) : (tracks.recordAll timeOffset recorded).Reports states := by
  induction recorded generalizing tracks with
  | nil => exact reports
  | cons s recorded ih =>
    have member := some s List.mem_cons_self
    refine ih (fun other later => some other (List.mem_cons_of_mem _ later)) ?_
    exact {
      position := reports.position.insert ⟨s, member, rfl⟩ false
      scale := reports.scale.insert ⟨s, member, rfl⟩ false
      rotation := reports.rotation.insert ⟨s, member, rfl⟩ false
      color := reports.color.insert ⟨s, member, rfl⟩ false
      opacity := reports.opacity.insert (Or.inr ⟨s, member, rfl⟩) false
      flipH := reports.flipH.insert ⟨s, member, rfl⟩ false
      flipV := reports.flipV.insert ⟨s, member, rfl⟩ false
      additive := reports.additive.insert ⟨s, member, rfl⟩ false }

private theorem faded_valued {allowed : α → Prop} (nothing : allowed 0.0) {opacity : Channel α α}
    (valued : opacity.Valued allowed) (precedingEnd : Option α) :
    (faded config precedingEnd opacity).Valued allowed := by
  have either {condition : Prop} [Decidable condition] {first second : Channel α α} (left : first.Valued allowed)
      (right : second.Valued allowed) : (if condition then first else second).Valued allowed := by
    split
    · exact left
    · exact right
  have inserted {c : Channel α α} (valued : c.Valued allowed) (time : α) (before : Bool) :
      (c.insert { time, value := 0.0 } before).Valued allowed := valued.insert nothing before
  unfold faded
  split
  next start stop _ _ =>
    have entered : (if 0.0 < config.roundOpacity opacity.startValue ∧ (precedingEnd == some start) = false
        then opacity.insert { time := start, value := 0.0 } true else opacity).Valued allowed :=
      either (inserted valued start true) valued
    exact either (inserted entered stop false) entered
  next => exact valued

private theorem close_reports {tracks span : Tracks α} (reports : tracks.Reports states) (more : span.Reports states) :
    (close config bitmapSize tracks span).Reports states := by
  unfold close closeSpan
  dsimp only
  split
  next => exact reports
  next start _ =>
    have nothing : (fun value : α => value = 0.0 ∨ ∃ s ∈ states, value = s.opacity) 0.0 := Or.inl rfl
    exact {
      position := (reports.position.hold start).receive (more.position.simplify _ _)
      scale := (reports.scale.hold start).receive (more.scale.simplify _ _)
      rotation := (reports.rotation.hold start).receive (more.rotation.simplify _ _)
      color := (reports.color.hold start).receive (more.color.simplify _ _)
      opacity := (reports.opacity.hold start).receive (faded_valued nothing (more.opacity.simplify _ _) _)
      flipH := (reports.flipH.hold start).receive (more.flipH.simplify _ _)
      flipV := (reports.flipV.hold start).receive (more.flipV.simplify _ _)
      additive := (reports.additive.hold start).receive (more.additive.simplify _ _) }

/-- The tracks of a run report the states that it records. -/
theorem run_reports (visible : State α → Bool) (states : List (State α)) :
    (run config bitmapSize timeOffset visible states).tracks.Reports
      (Span.recordings true (Span.ofStates visible none states)).flatten := by
  rw [(run_eq states).1]
  refine lay_preserves ?_ empty_reports
  intro recorded within tracks reports
  have some : ∀ s ∈ recorded, s ∈ (Span.recordings true (Span.ofStates visible none states)).flatten :=
    fun s member => List.mem_flatten_of_mem within member
  exact close_reports reports (recordAll_reports some empty_reports)

end Capture
end Tween
