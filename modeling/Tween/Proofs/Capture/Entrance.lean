import Tween.Proofs.Capture.Layout
import Tween.Proofs.Channel.Members

/-! An object is never seen from the start: among the opacities of a run of the reader there is one
that does not round above nothing, and spans that come later take no keyframe away. Nothing is
assumed of the order or the definedness of times. -/

namespace Tween.Capture
open Channel
variable {α : Type} [Scalar α] {config : Config α} {bitmapSize : Vec2 α} {timeOffset : α}

omit [Scalar α] in
private theorem start_some {V : Type} {c : Channel α V} (present : c.keyframes ≠ []) :
    ∃ first ∈ c.keyframes, c.startTime = some first.time ∧ c.startValue = first.value := by
  obtain ⟨first, rest, shape⟩ := List.exists_cons_of_ne_nil present
  refine ⟨first, by rw [shape]; exact List.mem_cons_self, ?_⟩
  simp [startTime, startValue, first?, shape]

omit [Scalar α] in
private theorem end_some {V : Type} {c : Channel α V} (present : c.keyframes ≠ []) : c.endTime ≠ none := by
  simp [endTime, last?, List.getLast?_eq_none_iff, present]

/-- The way into a span without another one before it starts at nothing. -/
private theorem faded_enters (nothing : ¬0.0 < config.roundOpacity 0.0) {opacity : Channel α α}
    (present : opacity.keyframes ≠ []) :
    ∃ k ∈ (faded config none opacity).keyframes, ¬0.0 < config.roundOpacity k.value := by
  obtain ⟨first, member, starts, value⟩ := start_some present
  obtain ⟨stop, stops⟩ := Option.ne_none_iff_exists'.mp (end_some present)
  have alone : ((none : Option α) == some first.time) = false := rfl
  have left {entered : Channel α α} {k : Keyframe α α} (inside : k ∈ entered.keyframes) :
      k ∈ (if 0.0 < config.roundOpacity entered.endValue then entered.insert { time := stop, value := 0.0 } false
        else entered).keyframes := by
    split
    · exact mem_insert.mpr (Or.inr inside)
    · exact inside
  unfold faded
  simp only [starts, stops, alone, and_true, value]
  by_cases bright : 0.0 < config.roundOpacity first.value
  · rw [if_pos bright]
    exact ⟨{ time := first.time, value := 0.0 }, left (mem_insert.mpr (Or.inl rfl)), nothing⟩
  · rw [if_neg bright]
    exact ⟨first, left member, bright⟩

private theorem recordAll_present {states : List (State α)} (some : states ≠ []) (tracks : Tracks α) :
    (tracks.recordAll timeOffset states).Each (·.keyframes ≠ []) := by
  have insert {V : Type} (c : Channel α V) (time : α) (value : V) : (c.add time value).keyframes ≠ [] :=
    List.ne_nil_of_mem (mem_insert.mpr (Or.inl rfl))
  induction states generalizing tracks with
  | nil => exact absurd rfl some
  | cons s states ih =>
    by_cases last : states = []
    · subst last
      exact ⟨insert _ _ _, insert _ _ _, insert _ _ _, insert _ _ _, insert _ _ _, insert _ _ _, insert _ _ _,
        insert _ _ _⟩
    · exact ih last _

private theorem close_enters (nothing : ¬0.0 < config.roundOpacity 0.0) {recorded : List (State α)}
    (some : recorded ≠ []) :
    ∃ k ∈ (close config bitmapSize .empty (Tracks.empty.recordAll timeOffset recorded)).opacity.keyframes,
      ¬0.0 < config.roundOpacity k.value := by
  have present : (Tracks.empty.recordAll timeOffset recorded).Each (·.keyframes ≠ []) := recordAll_present some .empty
  generalize Tracks.empty.recordAll timeOffset recorded = span at present
  obtain ⟨first, _, starts, _⟩ := start_some present.position
  have kept : (simplified config bitmapSize span).opacity.keyframes ≠ [] :=
    (simplify_trimmed span.opacity _ _).ne_nil present.opacity
  obtain ⟨k, member, faint⟩ := faded_enters nothing kept
  refine ⟨k, ?_, faint⟩
  unfold close closeSpan
  simp only [starts]
  exact mem_receive.mpr (Or.inr member)

private theorem close_keeps {tracks span : Tracks α} {k : Keyframe α α} (member : k ∈ tracks.opacity.keyframes) :
    k ∈ (close config bitmapSize tracks span).opacity.keyframes := by
  unfold close closeSpan
  dsimp only
  split
  next => exact member
  next => exact mem_receive.mpr (Or.inl (mem_hold.mpr (Or.inr member)))

/-- Once an object has been visible, its opacity has a keyframe that does not round above nothing. -/
theorem run_enters (nothing : ¬0.0 < config.roundOpacity 0.0) {visible : State α → Bool} {states : List (State α)}
    (begun : (run config bitmapSize timeOffset visible states).begun = true) :
    ∃ k ∈ (run config bitmapSize timeOffset visible states).tracks.opacity.keyframes,
      ¬0.0 < config.roundOpacity k.value := by
  rw [(run_eq states).1]
  rw [(run_eq states).2] at begun
  cases found : Span.ofStates visible none states with
  | nil =>
    rw [found] at begun
    cases begun
  | cons span spans =>
    have some := recordings_present true (span :: spans) (span.recorded true) List.mem_cons_self
    let entered : Tracks α := close config bitmapSize .empty (Tracks.empty.recordAll timeOffset (span.recorded true))
    obtain ⟨k, member, faint⟩ : ∃ k ∈ entered.opacity.keyframes, ¬0.0 < config.roundOpacity k.value :=
      close_enters nothing some
    have kept : k ∈ (lay config bitmapSize timeOffset entered (Span.recordings false spans)).opacity.keyframes :=
      @lay_preserves _ _ _ _ _ (k ∈ ·.opacity.keyframes) _ (fun _ _ _ => close_keeps) entered member
    exact ⟨k, kept, faint⟩

end Tween.Capture
