import Tween.Proofs.Binary64.Rounding
import Tween.Proofs.Capture.Layout
import Tween.Proofs.Channel.Passing

/-! A span on its own, simplified without loss. Keyframes that repeat a value are left out, and
still the curve of each channel passes the value of every recorded state. -/

namespace Tween.Capture
open Scalar OrderLaws Channel
variable {V : Type} {timeOffset : Float} {states : List (State Float)} {value : State Float → V}

/-- The times of the states, moved by the offset, are finite, and no two are the same. -/
structure Strict (timeOffset : Float) (states : List (State Float)) : Prop where
  finite : ∀ s ∈ states, (s.time + timeOffset).isFinite = true
  ascending : states.Pairwise fun s t => s.time + timeOffset < t.time + timeOffset

def keyed (timeOffset : Float) (value : State Float → V) (states : List (State Float)) : List (Keyframe Float V) :=
  states.map fun s => { time := s.time + timeOffset, value := value s }

/-- What is kept of one value of the states. -/
structure Sampled [BEq V] (timeOffset : Float) (value : State Float → V) (states : List (State Float))
    (keyframes : List (Keyframe Float V)) : Prop where
  trimmed : Trimmed keyframes (keyed timeOffset value states)
  passes : ∀ s ∈ states, Passes keyframes (s.time + timeOffset) (value s)

namespace Sampled
variable [BEq V] {keyframes : List (Keyframe Float V)} (sampled : Sampled timeOffset value states keyframes)
include sampled

theorem stored {k : Keyframe Float V} (member : k ∈ keyframes) :
    ∃ s ∈ states, k = { time := s.time + timeOffset, value := value s } := by
  obtain ⟨s, found, same⟩ := List.mem_map.mp (sampled.trimmed.sublist.subset member)
  exact ⟨s, found, same.symm⟩

theorem free : ∀ k ∈ keyframes, k.hold = false := by
  intro k member
  obtain ⟨s, _, rfl⟩ := sampled.stored member
  rfl

theorem last_time {last : State Float} (ending : states.getLast? = some last) :
    ∃ k, keyframes.getLast? = some k ∧ k.time = last.time + timeOffset := by
  refine ⟨{ time := last.time + timeOffset, value := value last }, ?_, rfl⟩
  rw [sampled.trimmed.last, keyed, List.getLast?_map, ending]
  rfl

theorem all (holds : V → Prop) (kept : ∀ k ∈ keyframes, holds k.value)
    (respects : ∀ s ∈ states, ∀ w, (value s == w) = true → holds (value s) → holds w) : ∀ s ∈ states, holds (value s) := by
  intro s member
  obtain ⟨front, k, back, shape, _, _, same, _⟩ := sampled.passes s member
  have found : k ∈ keyframes := shape ▸ List.mem_append_right _ List.mem_cons_self
  obtain ⟨t, recorded, rfl⟩ := sampled.stored found
  exact respects t recorded _ same (kept _ found)

section Strict
variable (strict : Strict timeOffset states)
include strict

theorem ascending : keyframes.Pairwise (·.time < ·.time) :=
  List.Pairwise.sublist sampled.trimmed.sublist (List.pairwise_map.mpr strict.ascending)

theorem ordered : Ordered keyframes := (sampled.ascending strict).imp OrderLaws.le_of_lt

theorem unmoved : Unmoved keyframes := by
  intro a first b second later
  obtain ⟨s, start, rfl⟩ := sampled.stored first
  obtain ⟨t, stop, rfl⟩ := sampled.stored second
  exact Binary64.progress_start (strict.finite s start) (strict.finite t stop) later

/-- The pairs of what is kept show the edited value of every state at its time. -/
theorem shows [PartialEquivBEq V] {edit : V → V}
    (respects : ∀ s ∈ states, ∀ w, (value s == w) = true → (edit (value s) == edit w) = true)
    (reflexive : ∀ s ∈ states, (value s == value s) = true) (blend : Blend Float V) (rest : V) {c : Channel Float V}
    (kept : c.keyframes = keyframes) {s : State Float} (member : s ∈ states) :
    (replay blend.anchored rest (c.pairs { rest, edit }) (s.time + timeOffset) == edit (value s)) = true := by
  have edited : Passes (edited edit keyframes) (s.time + timeOffset) (edit (value s)) := by
    refine (sampled.passes s member).edited fun k found w same => ?_
    obtain ⟨t, recorded, rfl⟩ := sampled.stored found
    exact respects t recorded w same
  subst kept
  refine pairs_show blend rest (sampled.ordered strict) sampled.free (fun k found => ?_) (sampled.unmoved strict) edited
  obtain ⟨t, recorded, rfl⟩ := sampled.stored found
  exact respects t recorded _ (reflexive t recorded)

end Strict
end Sampled

theorem simplify_sampled [BEq V] [PartialEquivBEq V] (strict : Strict timeOffset states)
    (reflexive : ∀ s ∈ states, (value s == value s) = true) {c : Channel Float V}
    (recorded : c.keyframes = keyed timeOffset value states) {tolerance : Float} (lossless : tolerance ≤ 0.0)
    (deviation : Deviation Float V) : Sampled timeOffset value states (c.simplify tolerance deviation).keyframes := by
  have found {k : Keyframe Float V} (member : k ∈ c.keyframes) :
      ∃ s ∈ states, k = { time := s.time + timeOffset, value := value s } := by
    rw [recorded] at member
    obtain ⟨s, present, same⟩ := List.mem_map.mp member
    exact ⟨s, present, same.symm⟩
  have ascending : c.keyframes.Pairwise (·.time < ·.time) := by
    rw [recorded]
    exact List.pairwise_map.mpr strict.ascending
  have trimmed := simplify_trimmed c tolerance deviation
  rw [recorded] at trimmed
  refine ⟨trimmed, fun s member => ?_⟩
  have stored : { time := s.time + timeOffset, value := value s } ∈ c.keyframes := by
    rw [recorded]
    exact List.mem_map_of_mem member
  have values : ∀ k ∈ c.keyframes, (k.value == k.value) = true := by
    intro k member
    obtain ⟨t, present, rfl⟩ := found member
    exact reflexive t present
  have times : ∀ k ∈ c.keyframes, k.time ≤ k.time := by
    intro k member
    obtain ⟨t, present, rfl⟩ := found member
    exact ge_of_beq (Binary64.beq_self (strict.finite t present))
  have passed := simplify_passes lossless deviation ascending values times stored
  exact passed

end Tween.Capture
