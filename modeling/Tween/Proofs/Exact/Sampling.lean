import Mathlib.Algebra.Order.Field.Basic
import Tween.Proofs.Channel.Course
import Tween.Proofs.Channel.Sampling
import Tween.Proofs.Exact.Beginning

/-! Sampling without rounding. What shows is decided by the two keyframes around a time; on the way
between them nothing of the second shows at its start, and without an easing it goes at a constant
pace. -/

namespace Tween.Channel
variable {V : Type} {c : Channel ℝ V} {blend : Blend ℝ V} {time : ℝ}

/-- What shows between the last keyframe that has been reached and the first that has not. -/
noncomputable def amid (blend : Blend ℝ V) (rest : V) (before after : Option (Keyframe ℝ V)) (time : ℝ) : V :=
  match before, after with
  | some before, some after => between blend before after time
  | some last, none => last.value
  | none, some first => first.value
  | none, none => rest

theorem sampleWith_amid (ordered : Ordered c.keyframes) (blend : Blend ℝ V) (time : ℝ) :
    c.sampleWith blend time = amid blend c.rest (reached? c.keyframes time) (ahead? c.keyframes time) time := by
  rw [sampleWith_course ordered blend (fun _ _ => le_refl _) (le_refl _), course]
  cases reached? c.keyframes time <;> cases ahead? c.keyframes time <;> rfl

section Between
variable {before after : Keyframe ℝ V} (apart : before.time < after.time)
include apart

theorem between_apart : between blend before after time = blend before.value after.value
    (after.ease.apply ((time - before.time) / (after.time - before.time))) :=
  if_neg fun same => apart.ne' (eq_of_beq same)

theorem between_linear (linear : after.ease = .linear) : between blend before after time =
    blend before.value after.value ((time - before.time) / (after.time - before.time)) := by
  rw [between_apart apart, linear]
  rfl

/-- A way that has only begun is still at its start. -/
theorem between_start (departs : blend.DepartsFrom before.value) :
    between blend before after before.time = before.value := by
  rw [between_apart apart, sub_self, zero_div, Easing.apply_zero, departs]

end Between

theorem sampleWith_upper {front back : List (Keyframe ℝ V)} {upper : Keyframe ℝ V}
    (shape : c.keyframes = front ++ upper :: back) (reached : ∀ k ∈ front, k.time ≤ upper.time)
    (ahead : ∀ k ∈ back, upper.time < k.time) (departs : blend.DepartsFrom upper.value) :
    c.sampleWith blend upper.time = upper.value := by
  have passed : ∀ k ∈ front ++ [upper], k.time ≤ upper.time :=
    List.forall_mem_append.mpr ⟨reached, List.forall_mem_singleton.mpr le_rfl⟩
  have later : ∀ k ∈ back, ¬k.time ≤ upper.time := fun k member => not_le.mpr (ahead k member)
  rw [sampleWith_split (shape.trans (List.append_cons front upper back)) passed later, List.getLast?_concat]
  cases back with
  | nil => rfl
  | cons after back => exact between_start (ahead after List.mem_cons_self) departs

end Tween.Channel
