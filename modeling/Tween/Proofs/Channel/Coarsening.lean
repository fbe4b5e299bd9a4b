import Tween.Proofs.Channel.Simplification
import Tween.Proofs.ScalarOrder

/-! Two tolerances compared. Which keyframe of a stretch stands out does not depend on the
tolerance, only whether it stands out enough, so a coarser tolerance keeps nothing that a finer
one leaves out. -/

namespace Tween.Channel
open Scalar OrderLaws
variable {α V : Type} [Scalar α] {fine coarse tolerance : α} {deviation : Deviation α V}

theorem Stretch.kept_none {s : Stretch α V} (found : s.split? tolerance deviation = none) :
    s.kept tolerance deviation = [] := by
  rw [kept]
  split
  next => rfl
  next p other => rw [found] at other; cases other

theorem Stretch.kept_some {s : Stretch α V} {p : Peak α V} (found : s.split? tolerance deviation = some p) :
    s.kept tolerance deviation = kept tolerance deviation ⟨s.first, p.before, p.top⟩
      ++ p.top :: kept tolerance deviation ⟨p.top, p.after, s.last⟩ := by
  rw [kept]
  split
  next other => rw [found] at other; cases other
  next q same =>
    obtain rfl : p = q := Option.some.inj (found.symm.trans same)
    rfl

/-- The stack of stretches keeps what the recursion keeps of each, and where each ends. -/
theorem keptBehind_kept (tolerance : α) (deviation : Deviation α V) (stretches : List (Stretch α V)) :
    keptBehind tolerance deviation stretches =
      stretches.flatMap fun s => s.kept tolerance deviation ++ [s.last] := by
  induction stretches using keptBehind.induct tolerance deviation with
  | case1 => rw [keptBehind]; rfl
  | case2 s remaining found ih =>
    rw [keptBehind_none remaining found, ih, List.flatMap_cons, Stretch.kept_none found]
    rfl
  | case3 s remaining p found ih =>
    rw [keptBehind_some remaining found, ih, List.flatMap_cons, List.flatMap_cons, List.flatMap_cons, Stretch.kept_some found]
    simp only [List.append_assoc, List.cons_append, List.nil_append]

variable [OrderLaws α]

private theorem split_finer (ordered : fine ≤ coarse) {s : Stretch α V} {p : Peak α V}
    (found : s.split? coarse deviation = some p) : s.split? fine deviation = some p := by
  obtain ⟨peak, above⟩ := Option.filter_eq_some_iff.mp found
  refine Option.filter_eq_some_iff.mpr ⟨peak, ?_⟩
  exact decide_eq_true (lt_of_le_of_lt ordered (of_decide_eq_true above))

theorem kept_coarser (ordered : fine ≤ coarse) (s : Stretch α V) :
    (s.kept coarse deviation).Sublist (s.kept fine deviation) := by
  induction s using Stretch.kept.induct coarse deviation with
  | case1 s found =>
    rw [Stretch.kept_none found]
    exact List.nil_sublist _
  | case2 s p found before after =>
    rw [Stretch.kept_some found, Stretch.kept_some (split_finer ordered found)]
    exact before.append (after.cons_cons p.top)

/-- What is kept under a coarser tolerance is kept under a finer one, with the same ends. -/
theorem simplify_coarser [BEq V] (c : Channel α V) (positive : 0.0 < fine) (ordered : fine ≤ coarse)
    (deviation : Deviation α V) :
    Trimmed (c.simplify coarse deviation).keyframes (c.simplify fine deviation).keyframes := by
  have ends := simplify_trimmed c fine deviation
  have ends' := simplify_trimmed c coarse deviation
  refine ⟨?_, ends'.head.trans ends.head.symm, ends'.last.trans ends.last.symm⟩
  unfold simplify
  split
  next first second third rest shape =>
    dsimp only
    rw [if_neg (not_le_of_lt positive), if_neg (not_le_of_lt (lt_of_lt_of_le positive ordered)), keptBehind_kept,
      keptBehind_kept]
    simp only [List.flatMap_cons, List.flatMap_nil, List.append_nil]
    exact ((kept_coarser ordered _).append (List.Sublist.refl _)).cons_cons first
  next => exact List.Sublist.refl _

end Tween.Channel
