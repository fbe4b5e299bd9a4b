import Mathlib.Analysis.Convex.Segment
import Tween.Proofs.Exact.Overshoot
import Tween.Proofs.Exact.Sampling

/-! How far a sampled channel goes. An easing that stays in the range of progress keeps the way between
two keyframes between their values, so what is sampled is never beyond what is stored. -/

namespace Tween

theorem Blend.scalar_within (a b : ℝ) {progress : ℝ} (inside : progress ∈ unitInterval) :
    Blend.scalar a b progress ∈ Set.uIcc a b := by
  rw [← segment_eq_uIcc, segment_eq_image']
  exact ⟨progress, inside, congrArg (a + ·) (mul_comm progress (b - a))⟩

namespace Channel

section Specification
variable {α V : Type} [Scalar α]

/-- The keyframes next to a time: the last one that has been reached and the first one that has not.
In front of all keyframes and behind them there is only one. -/
def neighbours (keyframes : List (Keyframe α V)) (time : α) : List (Keyframe α V) :=
  (reached? keyframes time).toList ++ (ahead? keyframes time).toList

/-- Neither below the least value of some keyframes nor above the greatest. -/
def Spanned (keyframes : List (Keyframe α α)) (value : α) : Prop :=
  ∃ low ∈ keyframes, ∃ high ∈ keyframes, low.value ≤ value ∧ value ≤ high.value

/-- How far a value may go that is sampled at a time. -/
structure Confined (c : Channel α α) (time value : α) : Prop where
  empty : c.keyframes = [] → value = c.rest
  near : c.keyframes ≠ [] → Spanned (neighbours c.keyframes time) value
  overall : c.keyframes ≠ [] → Spanned c.keyframes value

end Specification

section Neighbours
variable {α : Type} [Scalar α] {keyframes more : List (Keyframe α α)} {time value : α}

theorem Spanned.mono (spanned : Spanned keyframes value) (within : keyframes ⊆ more) : Spanned more value := by
  obtain ⟨low, first, high, second, bounds⟩ := spanned
  exact ⟨low, within first, high, within second, bounds⟩

theorem neighbours_subset (keyframes : List (Keyframe α α)) (time : α) : neighbours keyframes time ⊆ keyframes := by
  intro k member
  rcases List.mem_append.mp member with reached | ahead
  · exact List.mem_reverse.mp (List.mem_of_find?_eq_some (Option.mem_toList.mp reached))
  · exact List.mem_of_find?_eq_some (Option.mem_toList.mp ahead)

end Neighbours

section Exact
variable {c : Channel ℝ ℝ} {before after : Keyframe ℝ ℝ} {time : ℝ}

theorem between_within (begun : before.time ≤ time) (early : time < after.time) (calm : after.ease.overshoots = false) :
    between Blend.scalar before after time ∈ Set.uIcc before.value after.value := by
  have whole : 0 < after.time - before.time := sub_pos.mpr (begun.trans_lt early)
  have progress : (time - before.time) / (after.time - before.time) ∈ unitInterval :=
    ⟨div_nonneg (sub_nonneg.mpr begun) whole.le, (div_le_one whole).mpr (sub_le_sub_right early.le _)⟩
  rw [between_apart (begun.trans_lt early)]
  exact Blend.scalar_within _ _ (Easing.apply_contained calm progress)

theorem sampleWith_spanned (ordered : Ordered c.keyframes) (calm : ∀ k ∈ c.keyframes, k.ease.overshoots = false)
    (nonempty : c.keyframes ≠ []) (time : ℝ) :
    Spanned (neighbours c.keyframes time) (c.sampleWith Blend.scalar time) := by
  rw [sampleWith_amid ordered, neighbours]
  cases reached : reached? c.keyframes time with
  | some before =>
    cases ahead : ahead? c.keyframes time with
    | some after =>
      have begun : before.time ≤ time := by simpa using List.find?_some reached
      have early : time < after.time := by simpa using List.find?_some ahead
      have between := between_within begun early (calm after (List.mem_of_find?_eq_some ahead))
      rcases Set.mem_uIcc.mp between with rising | falling
      · exact ⟨before, by simp, after, by simp, rising⟩
      · exact ⟨after, by simp, before, by simp, falling⟩
    | none => exact ⟨before, by simp, before, by simp, le_rfl, le_rfl⟩
  | none =>
    cases ahead : ahead? c.keyframes time with
    | some after => exact ⟨after, by simp, after, by simp, le_rfl, le_rfl⟩
    | none =>
      obtain ⟨k, member⟩ := List.exists_mem_of_ne_nil _ nonempty
      have late : ¬time < k.time := by simpa using List.find?_eq_none.mp ahead k member
      exact absurd (not_lt.mp late) (reached?_eq_none.mp reached k member)

end Exact

/-- Every easing leads from zero to one, and exactly the overshooting ones leave that range on their
way. So a channel without these shows, at any time, a value between those of the keyframes next to it,
and never one that is beyond all stored values. -/
theorem eased_within :
    (∀ easing : Easing, easing.apply (0 : ℝ) = 0 ∧ easing.apply (1 : ℝ) = 1 ∧
        (Contained easing.apply ↔ easing.overshoots = false)) ∧
      ∀ c : Channel ℝ ℝ, Ordered c.keyframes → (∀ k ∈ c.keyframes, k.ease.overshoots = false) →
        c.blend = some Blend.scalar → ∀ time, ∃ value, c.sample time = .ok value ∧ c.Confined time value := by
  refine ⟨fun easing => ⟨easing.apply_zero, easing.apply_one, easing.apply_contained_iff⟩, ?_⟩
  intro c ordered calm blended time
  refine ⟨c.sampleWith Blend.scalar time, by rw [sample, blended], ?_⟩
  exact {
    empty none := by rw [sampleWith, none]
    near nonempty := sampleWith_spanned ordered calm nonempty time
    overall nonempty := (sampleWith_spanned ordered calm nonempty time).mono (neighbours_subset _ time) }

noncomputable def dropping : Channel ℝ ℝ where
  keyframes := [(0, 9, .linear), (3, 1, .easeOut .bounce), (3, 2, .step), (5, 8, .easeInOut .circ)].map
    fun ((time, value, ease) : ℕ × ℕ × Easing) => { time, value, ease }
  blend := some Blend.scalar
  rest := Scalar.pi

theorem eased_within_dropping :
    Ordered dropping.keyframes ∧ (∀ k ∈ dropping.keyframes, k.ease.overshoots = false) ∧
      dropping.keyframes ≠ [] ∧ ∃ value, dropping.sample ((2 : ℕ) : ℝ) = .ok value ∧ dropping.Confined (2 : ℕ) value := by
  have ordered : Ordered dropping.keyframes := by norm_num [dropping, Ordered]
  have calm : ∀ k ∈ dropping.keyframes, k.ease.overshoots = false := by
    simp [dropping, Easing.overshoots, Curve.overshoots]
  exact ⟨ordered, calm, List.cons_ne_nil _ _, eased_within.2 dropping ordered calm rfl (2 : ℕ)⟩

end Channel
end Tween
