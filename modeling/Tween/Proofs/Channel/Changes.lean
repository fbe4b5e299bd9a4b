import Tween.Proofs.Channel.PairOrder

/-! When every pair is a change. Transitions between equal values have no pair, but a step that
goes away and comes back at one instant has one. It takes three keyframes of that instant. -/

namespace Tween.Channel
open Scalar OrderLaws
variable {α V : Type} [Scalar α]

/-- Never three keyframes at one instant. -/
def Brief : List (Keyframe α V) → Prop
  | first :: second :: third :: rest => first.time < third.time ∧ Brief (second :: third :: rest)
  | _ => True

section Brief
variable {first k last : Keyframe α V} {keyframes : List (Keyframe α V)}

theorem Brief.tail (brief : Brief (first :: keyframes)) : Brief keyframes := by
  match keyframes, brief with
  | [], _ => trivial
  | [_], _ => trivial
  | _ :: _ :: _, brief => exact brief.2

theorem Brief.map {W : Type} {f : Keyframe α V → Keyframe α W} (times : ∀ k, (f k).time = k.time)
    (brief : Brief keyframes) : Brief (keyframes.map f) := by
  induction keyframes with
  | nil => trivial
  | cons first keyframes ih =>
    match keyframes, brief, ih with
    | [], _, _ => trivial
    | [_], _, _ => trivial
    | second :: third :: rest, brief, ih =>
      have later : (f first).time < (f third).time := by
        rw [times, times]
        exact brief.1
      exact ⟨later, ih brief.2⟩

variable [OrderLaws α]

theorem Brief.enclosed (strict : (first :: k :: keyframes).Pairwise (·.time < ·.time))
    (later : ∀ k' ∈ (first :: k :: keyframes).getLast?, k'.time ≤ last.time) :
    Brief (first :: k :: keyframes) ∧ Brief (first :: k :: (keyframes ++ [last])) := by
  induction keyframes generalizing first k with
  | nil =>
    have less : first.time < k.time := (List.pairwise_cons.mp strict).1 k List.mem_cons_self
    exact ⟨trivial, lt_of_lt_of_le less (later k rfl), trivial⟩
  | cons next keyframes ih =>
    have less : first.time < next.time :=
      (List.pairwise_cons.mp strict).1 next (List.mem_cons_of_mem _ List.mem_cons_self)
    obtain ⟨bare, closed⟩ := ih (List.pairwise_cons.mp strict).2 later
    exact ⟨⟨less, bare⟩, less, closed⟩

theorem Brief.cons {entry : Keyframe α V} (brief : Brief (first :: k :: keyframes)) (earlier : entry.time ≤ first.time)
    (less : first.time < k.time) : Brief (entry :: first :: k :: keyframes) :=
  ⟨lt_of_le_of_lt earlier less, brief⟩

/-- A step that is open has begun at its instant, with another value than the one reached. -/
def Opened [BEq V] (step : Option (Keyframe α V)) (previous : Keyframe α V) : Prop :=
  ∀ s ∈ step, (s.time == previous.time) = true ∧ (s.value == previous.value) = false

omit [OrderLaws α] in
private theorem Opened.closed [BEq V] {step : Option (Keyframe α V)} {previous : Keyframe α V}
    (opened : Opened step previous) :
    ∀ p ∈ step.toList.map (Pair.mk · previous), (p.start.value == p.stop.value) = false := by
  intro p member
  obtain ⟨s, found, rfl⟩ := List.mem_map.mp member
  exact (opened s (Option.mem_toList.mp found)).2

/-- No keyframe follows in the instant of a step that is open. -/
theorem transitions_change [BEq V] {step : Option (Keyframe α V)} {previous : Keyframe α V}
    {behind : List (Keyframe α V)} (brief : Brief (step.toList ++ previous :: behind))
    (opened : Opened step previous) : ∀ p ∈ transitions false step previous behind, (p.start.value == p.stop.value) = false := by
  induction behind generalizing step previous with
  | nil => exact opened.closed
  | cons next behind ih =>
    have onward : Brief (previous :: next :: behind) := by
      cases step with
      | none => exact brief
      | some s => exact brief.tail
    have resumed : ∀ p ∈ transitions false none next behind, (p.start.value == p.stop.value) = false :=
      @ih none next onward.tail (fun _ found => nomatch found)
    rcases transition_cases previous next with ⟨differ, instant⟩ | flat | ⟨differ, apart⟩
    · rw [transitions_step differ instant]
      cases step with
      | none =>
        apply ih (by exact onward)
        rintro _ ⟨⟩
        exact ⟨instant, differ⟩
      | some s =>
        have back := le_trans (ge_of_beq instant) (ge_of_beq (opened s rfl).1)
        exact absurd back (not_le_of_lt brief.1)
    · rw [transitions_flat flat]
      exact List.forall_mem_append.mpr ⟨opened.closed, resumed⟩
    · have settled : Opened (step.filter fun s => !s.hold) previous := fun s found =>
        opened s (Option.filter_eq_some_iff.mp found).1
      rw [transitions_moved differ apart]
      exact List.forall_mem_append.mpr ⟨settled.closed, List.forall_mem_cons.mpr ⟨differ, resumed⟩⟩

end Brief
end Tween.Channel
