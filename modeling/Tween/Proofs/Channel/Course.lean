import Tween.Channel.Course
import Tween.Proofs.ScalarOrder

/-! The curve of an ordered channel, read from its first keyframe on. Only the two keyframes around
a time decide, so whatever lies in front of a keyframe that has been reached can be left out. -/

namespace Tween.Channel
open Scalar OrderLaws
variable {α V : Type} [Scalar α] {link : Keyframe α V → Keyframe α V → α → V} {rest : V}
  {previous next : Keyframe α V} {behind : List (Keyframe α V)} {time : α}

theorem reached?_eq_none {keyframes : List (Keyframe α V)} :
    reached? keyframes time = none ↔ ∀ k ∈ keyframes, ¬k.time ≤ time := by
  simp [reached?]

theorem reached?_cons (previous : Keyframe α V) (behind : List (Keyframe α V)) (time : α) :
    reached? (previous :: behind) time =
      (reached? behind time).or (if previous.time ≤ time then some previous else none) := by
  rw [reached?, List.reverse_cons, List.find?_append]
  by_cases reached : previous.time ≤ time <;> simp [reached?, reached]

theorem reached?_append (front back : List (Keyframe α V)) (time : α) :
    reached? (front ++ back) time = (reached? back time).or (reached? front time) := by
  rw [reached?, List.reverse_append, List.find?_append]
  rfl

theorem ahead?_append (front back : List (Keyframe α V)) (time : α) :
    ahead? (front ++ back) time = (ahead? front time).or (ahead? back time) := List.find?_append

/-- The last keyframe holds on. -/
theorem course_last (reached : previous.time ≤ time) (notAhead : ¬time < previous.time) :
    course link rest [previous] time = previous.value := by
  simp [course, reached?, ahead?, reached, notAhead]

variable [OrderLaws α]

private theorem none_reached (ordered : Ordered (previous :: behind)) (ahead : ¬previous.time ≤ time) :
    reached? (previous :: behind) time = none := by
  refine reached?_eq_none.mpr (List.forall_mem_cons.mpr ⟨ahead, fun k member reached => ?_⟩)
  exact ahead (le_trans ((List.pairwise_cons.mp ordered).1 k member) reached)

/-- In front of all keyframes the first one shows. -/
theorem course_before (ordered : Ordered (previous :: behind)) (ahead : time < previous.time) :
    course link rest (previous :: behind) time = previous.value := by
  have first : ahead? (previous :: behind) time = some previous := List.find?_cons_of_pos (decide_eq_true ahead)
  rw [course, none_reached ordered (not_le_of_lt ahead), first]

theorem course_onward (ordered : Ordered (previous :: next :: behind)) (reached : next.time ≤ time) :
    course link rest (previous :: next :: behind) time = course link rest (next :: behind) time := by
  have passed : ¬time < previous.time := fun less =>
    not_le_of_lt less (le_trans ((List.pairwise_cons.mp ordered).1 next List.mem_cons_self) reached)
  have before : reached? (previous :: next :: behind) time = reached? (next :: behind) time := by
    rw [reached?_cons, reached?_cons next, if_pos reached]
    cases reached? behind time <;> rfl
  have after : ahead? (previous :: next :: behind) time = ahead? (next :: behind) time :=
    List.find?_cons_of_neg (by simpa using passed)
  rw [course, course, before, after]

/-- Between two neighbours it is the way from one to the other. -/
theorem course_between (ordered : Ordered (previous :: next :: behind)) (reached : previous.time ≤ time)
    (ahead : time < next.time) :
    course link rest (previous :: next :: behind) time = link previous next time := by
  have before : reached? (previous :: next :: behind) time = some previous := by
    rw [reached?_cons, none_reached (List.pairwise_cons.mp ordered).2 (not_le_of_lt ahead), if_pos reached]
    rfl
  have after : ahead? (previous :: next :: behind) time = some next := by
    rw [ahead?, List.find?_cons_of_neg (by simpa using fun less => not_le_of_lt less reached)]
    exact List.find?_cons_of_pos (decide_eq_true ahead)
  rw [course, before, after]

end Tween.Channel
