import Tween.Proofs.Channel.RunEnds

/-! Simplification only leaves keyframes out, and never the first or the last one. Whatever the
distance measures, order in time and the span of time are untouched. -/

namespace Tween.Channel
variable {α V : Type} [Scalar α]

/-- The keyframes behind the first one of adjoining stretches. -/
def covered (stretches : List (Stretch α V)) : List (Keyframe α V) :=
  stretches.flatMap fun s => s.interior ++ [s.last]

theorem covered_split {tolerance : α} {deviation : Deviation α V} {s : Stretch α V} {p : Peak α V}
    (found : s.split? tolerance deviation = some p) (remaining : List (Stretch α V)) :
    covered (⟨s.first, p.before, p.top⟩ :: ⟨p.top, p.after, s.last⟩ :: remaining) = covered (s :: remaining) := by
  simp [covered, Stretch.split?_interior found]

section Steps
variable {tolerance : α} {deviation : Deviation α V} {s : Stretch α V} {p : Peak α V} (remaining : List (Stretch α V))

theorem keptBehind_none (found : s.split? tolerance deviation = none) :
    keptBehind tolerance deviation (s :: remaining) = s.last :: keptBehind tolerance deviation remaining := by
  rw [keptBehind]
  split
  next => rfl
  next p other => rw [found] at other; cases other

theorem keptBehind_some (found : s.split? tolerance deviation = some p) :
    keptBehind tolerance deviation (s :: remaining) =
      keptBehind tolerance deviation (⟨s.first, p.before, p.top⟩ :: ⟨p.top, p.after, s.last⟩ :: remaining) := by
  rw [keptBehind]
  split
  next other => rw [found] at other; cases other
  next q same =>
    obtain rfl : p = q := Option.some.inj (found.symm.trans same)
    rfl

end Steps

private theorem keptBehind_sublist (tolerance : α) (deviation : Deviation α V) (stretches : List (Stretch α V)) :
    (keptBehind tolerance deviation stretches).Sublist (covered stretches) := by
  induction stretches using keptBehind.induct tolerance deviation with
  | case1 => rw [keptBehind]; exact List.nil_sublist _
  | case2 s remaining found ih =>
    have shape : covered (s :: remaining) = s.interior ++ s.last :: covered remaining := by simp [covered]
    rw [keptBehind_none remaining found, shape]
    exact (ih.cons_cons s.last).trans (List.sublist_append_right _ _)
  | case3 s remaining p found ih =>
    rw [keptBehind_some remaining found]
    rwa [covered_split found] at ih

private theorem keptBehind_last (tolerance : α) (deviation : Deviation α V) (stretches : List (Stretch α V)) :
    (keptBehind tolerance deviation stretches).getLast? = stretches.getLast?.map (·.last) := by
  induction stretches using keptBehind.induct tolerance deviation with
  | case1 => rw [keptBehind]; rfl
  | case2 s remaining found ih =>
    rw [keptBehind_none remaining found, List.getLast?_cons, ih]
    cases remaining <;> simp [List.getLast?_cons]
  | case3 s remaining p found ih =>
    rw [keptBehind_some remaining found, ih]
    cases remaining <;> rfl

variable [BEq V]

/-- What is left of a list of keyframes whose ends have to stay. -/
structure Trimmed (kept keyframes : List (Keyframe α V)) : Prop where
  sublist : kept.Sublist keyframes
  head : kept.head? = keyframes.head?
  last : kept.getLast? = keyframes.getLast?

omit [Scalar α] [BEq V] in
theorem Trimmed.ne_nil {kept keyframes : List (Keyframe α V)} (trimmed : Trimmed kept keyframes)
    (present : keyframes ≠ []) : kept ≠ [] := by
  rintro rfl
  exact present (List.head?_eq_none_iff.mp trimmed.head.symm)

theorem simplify_trimmed (c : Channel α V) (tolerance : α) (deviation : Deviation α V) :
    Trimmed (c.simplify tolerance deviation).keyframes c.keyframes := by
  unfold simplify
  split
  next first second third rest shape =>
    rw [shape]
    dsimp only
    split
    next =>
      refine ⟨(runEnds_sublist _ _).cons_cons first, rfl, ?_⟩
      rw [List.getLast?_cons, runEnds_last, ← List.getLast?_cons]
    next =>
      have whole : covered [(⟨first, (second :: third :: rest).dropLast,
          (second :: third :: rest).getLast (List.cons_ne_nil _ _)⟩ : Stretch α V)] = second :: third :: rest := by
        simpa [covered] using List.dropLast_concat_getLast (List.cons_ne_nil second (third :: rest))
      refine ⟨?_, rfl, ?_⟩
      · exact (whole ▸ keptBehind_sublist tolerance deviation _).cons_cons first
      · rw [List.getLast?_cons, keptBehind_last, List.getLast?_cons, List.getLast?_eq_some_getLast (List.cons_ne_nil _ _)]
        rfl
  next => exact ⟨List.Sublist.refl _, rfl, rfl⟩

end Tween.Channel
