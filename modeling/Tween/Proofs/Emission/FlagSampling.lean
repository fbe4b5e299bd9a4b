import Tween.Proofs.Channel.Sampling
import Tween.Proofs.Emission.FlagSpans
import Tween.Proofs.StableOrder

/-! Flags that are sampled. A flag keeps its value up to its next keyframe, so sampling finds it set
in the spans that are emitted for it and nowhere else. -/

namespace Tween.Emission
open Scalar OrderLaws Channel
variable {α : Type} [Scalar α] [OrderLaws α] {c : Channel α Bool} {time : α}

private theorem sampleWith_covered (ordered : Ordered c.keyframes) {first last : Keyframe α Bool}
    (head : c.first? = some first) (ending : c.last? = some last) (begun : first.time ≤ time) (early : time < last.time) :
    c.sampleWith Blend.first time = covered (flagSpans c.keyframes) time := by
  obtain ⟨front, before, after, back, shape, reached, ahead⟩ := ordered.around head ending begun early
  have passed : before.time ≤ time := reached before (by simp)
  have apart : ¬(after.time == before.time) = true := fun same =>
    ahead after List.mem_cons_self (le_trans (le_of_beq same) passed)
  have spans : covered (flagSpans c.keyframes) time = before.value := by
    rw [shape]
    exact flagSpans_reached (shape ▸ ordered) passed ahead (List.cons_ne_nil after back)
  rw [spans, sampleWith_split (shape.trans (List.append_cons front before _)) reached ahead, List.getLast?_concat]
  dsimp only [List.head?_cons]
  rw [between, if_neg apart]
  rfl

omit [OrderLaws α] in
private theorem covered_iff {spans : List (α × α)} :
    covered spans time = true ↔ ∃ span ∈ spans, span.1 ≤ time ∧ time < span.2 := by
  simp [covered]

/-- A flag is sampled as set in its spans and nowhere else. They go forward, one behind the other, and
the one that is open at the last keyframe ends there. -/
theorem flagSpans_sampled (blended : c.blend = some Blend.first) (sorted : Sorted Keyframe.time c.keyframes) :
    (∀ first ∈ c.first?, ∀ last ∈ c.last?, ∀ time, first.time ≤ time → time < last.time →
        ∃ value, c.sample time = .ok value ∧
          (value = true ↔ ∃ span ∈ flagSpans c.keyframes, span.1 ≤ time ∧ time < span.2)) ∧
      (∀ span ∈ flagSpans c.keyframes, span.1 ≤ span.2) ∧
      (flagSpans c.keyframes).Pairwise (·.2 ≤ ·.1) ∧
      ∀ last ∈ c.last?, last.value = true →
        ∃ front k run, c.keyframes = front ++ k :: run ∧ (∀ other ∈ front.getLast?, other.value = false) ∧
          (∀ other ∈ k :: run, other.value = true) ∧ (flagSpans c.keyframes).getLast? = some (k.time, last.time) := by
  refine ⟨fun first head last ending time begun early => ⟨c.sampleWith Blend.first time, ?_, ?_⟩,
    flagSpans_forward sorted.ordered sorted.defined, flagSpans_apart sorted.ordered sorted.defined,
    fun last ending set => flagSpans_closing ending set⟩
  · rw [sample, blended]
  · rw [sampleWith_covered sorted.ordered head ending begun early, covered_iff]

/-- Set twice, from one instant in which it is cleared and set again, and set to the end. -/
def blinker : Channel Float Bool where
  keyframes := [⟨0.0, false, .linear, false⟩, ⟨1.0, true, .linear, false⟩, ⟨3.0, false, .easeIn .sine, false⟩,
    ⟨3.0, true, .linear, false⟩, ⟨3.0, true, .linear, true⟩, ⟨4.0, false, .linear, false⟩, ⟨4.0, true, .linear, false⟩,
    ⟨4.0, false, .linear, false⟩, ⟨6.0, true, .linear, false⟩, ⟨8.0, true, .linear, false⟩]
  blend := some Blend.first
  rest := false

theorem flagSpans_sampled_blinker : blinker.blend = some Blend.first ∧ Sorted Keyframe.time blinker.keyframes ∧
    (∃ value, blinker.sample 3.5 = .ok value ∧
      (value = true ↔ ∃ span ∈ flagSpans blinker.keyframes, span.1 ≤ 3.5 ∧ 3.5 < span.2)) ∧
    (∀ span ∈ flagSpans blinker.keyframes, span.1 ≤ span.2) ∧ (flagSpans blinker.keyframes).Pairwise (·.2 ≤ ·.1) ∧
    ∃ front k run, blinker.keyframes = front ++ k :: run ∧ (∀ other ∈ front.getLast?, other.value = false) ∧
      (∀ other ∈ k :: run, other.value = true) ∧ (flagSpans blinker.keyframes).getLast? = some (k.time, 8.0) := by
  have sorted : Sorted Keyframe.time blinker.keyframes := ⟨by decide, by decide⟩
  have begun : (0.0 : Float) ≤ 3.5 := by decide
  have early : (3.5 : Float) < 8.0 := by decide
  obtain ⟨sampled, forward, apart, closing⟩ := flagSpans_sampled (c := blinker) rfl sorted
  exact ⟨rfl, sorted, sampled _ rfl _ rfl 3.5 begun early, forward, apart, closing _ rfl rfl⟩

example : (flagSpans blinker.keyframes == [(1.0, 3.0), (3.0, 4.0), (4.0, 4.0), (6.0, 8.0)]) = true := by decide

end Tween.Emission
