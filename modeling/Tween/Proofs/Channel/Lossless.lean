import Tween.Proofs.Channel.Course
import Tween.Proofs.Channel.HoldSteps
import Tween.Proofs.Channel.RunEnds
import Tween.Proofs.Channel.Sampling
import Tween.Proofs.Channel.Simplification

/-! What goes from the inside of runs of equal values is missed by nobody. Between the ends of a run
the curve rests at its value, however the ways are eased, and the transitions there are flat, so they
have no pair and end the same step. -/

namespace Tween.Channel
open Scalar OrderLaws
variable {α V : Type} [Scalar α] [BEq V] {previous last : Keyframe α V} {behind : List (Keyframe α V)} {time : α}

section Curve
variable [OrderLaws α] [EquivBEq V] {link : Keyframe α V → Keyframe α V → α → V} {rest : V}
  (flat : ∀ a b time, (a.value == b.value) = true → (link a b time == a.value) = true)
include flat

omit [Scalar α] [OrderLaws α] in
private theorem link_flat {a a' b b' : Keyframe α V} (same : (a.value == a'.value) = true)
    (way : (a.value == b.value) = true) (way' : (a'.value == b'.value) = true) :
    (link a b time == link a' b' time) = true :=
  BEq.trans (flat a b time way) (BEq.trans same (BEq.symm (flat a' b' time way')))

private theorem course_dropped {k next : Keyframe α V} {more : List (Keyframe α V)}
    (same : (last.value == previous.value) = true) (earlier : last.time ≤ previous.time)
    (ordered : Ordered (previous :: k :: next :: more)) (thin : Ordered (last :: runEnds k (next :: more)))
    (still : (previous.value == k.value) = true)
    (level : ∀ after ∈ (next :: more).head?, (k.value == after.value) = true)
    (reached : previous.time ≤ time) (ahead : time < k.time) :
    (course link rest (last :: runEnds k (next :: more)) time == course link rest (previous :: k :: next :: more) time) =
      true := by
  have later := (List.pairwise_cons.mp (List.pairwise_cons.mp ordered).2).1
  obtain ⟨kept, others, shape⟩ := List.exists_cons_of_ne_nil (mt runEnds_eq_nil_iff.mp (List.cons_ne_nil next more))
  have member : kept ∈ next :: more := (runEnds_sublist k (next :: more)).subset (shape ▸ List.mem_cons_self)
  have repeats : (k.value == kept.value) = true := runEnds_flat level kept (by rw [shape]; rfl)
  rw [shape] at thin ⊢
  rw [course_between ordered reached ahead, course_between thin (le_trans earlier reached)
    (lt_of_lt_of_le ahead (later kept member))]
  exact link_flat flat same (BEq.trans same (BEq.trans still repeats)) still

/-- The keyframe that was kept last shows until the next one that is kept. -/
theorem course_runEnds (same : (last.value == previous.value) = true) (earlier : last.time ≤ previous.time)
    (ordered : Ordered (previous :: behind))
    (rests : last = previous ∨ ∀ next ∈ behind.head?, (previous.value == next.value) = true)
    (reached : previous.time ≤ time) :
    (course link rest (last :: runEnds previous behind) time == course link rest (previous :: behind) time) = true := by
  -- On the keyframes ahead. `last` was kept last: it is `previous`, or what followed it so far repeats its value.
  induction behind generalizing last previous with
  | nil =>
    have passed := le_trans earlier reached
    rw [runEnds, course_last passed fun less => not_le_of_lt less passed,
      course_last reached fun less => not_le_of_lt less reached]
    exact same
  | cons k behind ih =>
    obtain ⟨first, later⟩ := List.pairwise_cons.mp ordered
    have onward := first k List.mem_cons_self
    have thin : Ordered (last :: runEnds previous (k :: behind)) := by
      have fewer := runEnds_sublist previous (k :: behind)
      refine List.pairwise_cons.mpr ⟨fun kept member => le_trans earlier (first kept (fewer.subset member)), ?_⟩
      exact later.sublist fewer
    rw [runEnds_cons] at thin ⊢
    by_cases found : inside previous k behind = true
    · rw [if_pos found] at thin ⊢
      have level := inside_next found
      obtain ⟨still, next, more, rfl, _⟩ := inside_iff.mp found
      by_cases passed : k.time ≤ time
      · rw [course_onward ordered passed]
        exact ih (BEq.trans same still) (le_trans earlier onward) later (Or.inr level) passed
      · have ahead := lt_of_not_le (le_defined reached).2 (le_defined onward).2 passed
        exact course_dropped flat same earlier ordered thin still level reached ahead
    · rw [if_neg found] at thin ⊢
      by_cases passed : k.time ≤ time
      · rw [course_onward ordered passed, course_onward thin passed]
        exact ih (BEq.refl k.value) (le_defined onward).2 later (Or.inl rfl) passed
      · have ahead := lt_of_not_le (le_defined reached).2 (le_defined onward).2 passed
        rw [course_between ordered reached ahead, course_between thin (le_trans earlier reached) ahead]
        rcases rests with rfl | level
        · exact BEq.refl _
        · exact link_flat flat same (BEq.trans same (level k rfl)) (level k rfl)

end Curve

section Transitions
variable {edit : V → V} {step : Option (Keyframe α V)}

private theorem transitions_ended {behind : List (Keyframe α V)}
    (flat : ∀ next ∈ behind.head?, (previous.value == next.value) = true) :
    transitions false step previous behind =
      step.toList.map (⟨·, previous⟩) ++ transitions false none previous behind := by
  cases behind with
  | nil => simp [transitions]
  | cons next behind => rw [transitions_flat (flat next rfl), transitions_flat (flat next rfl)]; rfl

private theorem transitions_resumed {previous next : Keyframe α V} {fewer behind : List (Keyframe α V)}
    (resume : ∀ step, transitions false step next fewer = transitions false step next behind)
    (step : Option (Keyframe α V)) :
    transitions false step previous (next :: fewer) = transitions false step previous (next :: behind) := by
  rcases transition_cases previous next with ⟨differ, instant⟩ | flat | ⟨differ, apart⟩
  · rw [transitions_step differ instant, transitions_step differ instant, resume]
  · rw [transitions_flat flat, transitions_flat flat, resume]
  · rw [transitions_moved differ apart, transitions_moved differ apart, resume]

/-- What is inside a run neither starts nor ends a transition. -/
theorem transitions_runEnds [EquivBEq V] (respects : ∀ v w, (v == w) = true → (edit v == edit w) = true)
    (rests : last = previous ∨ step = none ∧ (last.value == previous.value) = true ∧
      ∀ next ∈ behind.head?, (previous.value == next.value) = true) :
    transitions false step (last.withValue (edit last.value)) (edited edit (runEnds previous behind)) =
      transitions false step (previous.withValue (edit previous.value)) (edited edit behind) := by
  -- A step can only be open at a keyframe that stays, which is then `last` itself.
  induction behind generalizing step last previous with
  | nil =>
    rcases rests with rfl | ⟨rfl, _⟩ <;> rfl
  | cons k behind ih =>
    rw [runEnds_cons]
    by_cases found : inside previous k behind = true
    · rw [if_pos found]
      have level := inside_next found
      obtain ⟨still, next, more, rfl, _⟩ := inside_iff.mp found
      have flat : ((previous.withValue (edit previous.value)).value == (k.withValue (edit k.value)).value) = true :=
        respects _ _ still
      have onward : edited edit (k :: next :: more) = k.withValue (edit k.value) :: edited edit (next :: more) := rfl
      rw [onward, transitions_flat flat]
      rcases rests with rfl | ⟨rfl, same, _⟩
      · rw [transitions_ended, ih (Or.inr ⟨rfl, still, level⟩)]
        intro kept head
        obtain ⟨stored, first, rfl⟩ := Option.map_eq_some_iff.mp (List.head?_map.symm.trans head)
        exact respects _ _ (BEq.trans still (runEnds_flat level stored first))
      · exact ih (Or.inr ⟨rfl, BEq.trans same still, level⟩)
    · rw [if_neg found]
      have onward (kept : List (Keyframe α V)) :
          edited edit (k :: kept) = k.withValue (edit k.value) :: edited edit kept := rfl
      have resume (step : Option (Keyframe α V)) := @ih k k step (Or.inl rfl)
      rw [onward, onward]
      rcases rests with rfl | ⟨rfl, same, level⟩
      · exact transitions_resumed resume step
      · rw [transitions_flat (by exact respects _ _ (BEq.trans same (level k rfl))),
          transitions_flat (by exact respects _ _ (level k rfl)), resume]
        rfl

end Transitions

section Simplify
variable [OrderLaws α] [EquivBEq V] {c : Channel α V} {tolerance : α} {blend : Blend α V}
  (lossless : tolerance ≤ 0.0) (deviation : Deviation α V)

omit [OrderLaws α] in
private theorem between_flat (mixes : ∀ v w progress, (v == w) = true → (blend v w progress == v) = true)
    (before after : Keyframe α V) (time : α) (same : (before.value == after.value) = true) :
    (between blend before after time == before.value) = true := by
  unfold between
  split
  · exact BEq.symm same
  · exact mixes _ _ _ same

include lossless

theorem sampleWith_simplify (ordered : Ordered c.keyframes)
    (mixes : ∀ v w progress, (v == w) = true → (blend v w progress == v) = true) (time : α) :
    ((c.simplify tolerance deviation).sampleWith blend time == c.sampleWith blend time) = true := by
  match shape : c.keyframes with
  | [] | [_] =>
    rw [simplify_short (by simp [shape])]
    exact BEq.refl _
  | first :: second :: rest =>
    rw [shape] at ordered
    obtain ⟨later, _⟩ := List.pairwise_cons.mp ordered
    have stamped : ∀ k ∈ first :: second :: rest, k.time ≤ k.time :=
      List.forall_mem_cons.mpr
        ⟨(le_defined (later second List.mem_cons_self)).1, fun k member => (le_defined (later k member)).2⟩
    have fewer : (first :: runEnds first (second :: rest)).Sublist (first :: second :: rest) :=
      (runEnds_sublist first (second :: rest)).cons_cons first
    have thin : Ordered (first :: runEnds first (second :: rest)) := ordered.sublist fewer
    rw [simplify_eq c tolerance deviation, simplify_lossless lossless deviation shape]
    by_cases defined : time ≤ time
    · rw [sampleWith_course thin blend (fun k kept => stamped k (fewer.subset kept)) defined,
        sampleWith_course (c := c) (by rwa [shape]) blend (by rwa [shape]) defined, shape]
      by_cases reached : first.time ≤ time
      · exact course_runEnds (between_flat mixes) (BEq.refl _) (stamped first List.mem_cons_self) ordered (Or.inl rfl)
          reached
      · have early : time < first.time := lt_of_not_le defined (stamped first List.mem_cons_self) reached
        rw [course_before thin early, course_before ordered early]
        exact BEq.refl _
    · rw [sampleWith_undefined blend defined, sampleWith_undefined blend defined]
      simp [startValue, first?, shape]

omit [OrderLaws α] in
theorem pairs_simplify {playback : Playback α V} (once : playback.loopable = false)
    (respects : ∀ v w, (v == w) = true → (playback.edit v == playback.edit w) = true) :
    (c.simplify tolerance deviation).pairs playback = c.pairs playback := by
  cases shape : c.keyframes with
  | nil => rw [simplify_short (by simp [shape])]
  | cons first behind =>
    have thin := simplify_lossless lossless deviation shape
    have same : transitions false none _ (edited playback.edit (runEnds first behind)) = _ :=
      transitions_runEnds respects (Or.inl (rfl : first = first))
    have ending : (edited playback.edit (first :: runEnds first behind)).getLast? =
        (edited playback.edit (first :: behind)).getLast? := by
      rw [edited, List.getLast?_map, ← thin, (simplify_trimmed c tolerance deviation).last, shape, edited,
        List.getLast?_map]
    simp only [edited, List.map_cons, List.getLast?_eq_some_getLast (List.cons_ne_nil _ _), Option.some.injEq]
      at same ending
    simp only [pairs, shape, thin, List.map_cons, once, same, ending]

end Simplify

end Tween.Channel
