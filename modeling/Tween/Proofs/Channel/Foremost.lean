import Tween.Channel.Stretch
import Tween.Proofs.ScalarOrder

/-! Where a stretch is split, said without the search for it: at a keyframe that is farther than the
tolerance, farther than all in front of it and no nearer than any behind it. Distances may be
negative or undefined; such keyframes never stand out. -/

namespace Tween.Channel
open Scalar OrderLaws
variable {α V : Type} [Scalar α] {height : Keyframe α V → α} {top : Keyframe α V} {before after : List (Keyframe α V)}

/-- The first of the highest, where an undefined height is below all others. -/
structure Foremost (height : Keyframe α V → α) (before : List (Keyframe α V)) (top : Keyframe α V)
    (after : List (Keyframe α V)) : Prop where
  earlier : ∀ k ∈ before, ¬height top ≤ height k
  later : ∀ k ∈ after, ¬height top < height k

theorem Foremost.sublist {fewer less : List (Keyframe α V)} (foremost : Foremost height before top after)
    (front : fewer.Sublist before) (back : less.Sublist after) : Foremost height fewer top less :=
  ⟨fun k member => foremost.earlier k (front.subset member), fun k member => foremost.later k (back.subset member)⟩

theorem peak?_eq_none_iff {interior : List (Keyframe α V)} :
    peak? height interior = none ↔ ∀ k ∈ interior, ¬0.0 < height k := by
  induction interior with
  | nil => simp [peak?]
  | cons k rest ih =>
    rw [List.forall_mem_cons, ← ih, peak?]
    split
    next later found => split <;> simp [found]
    next none => split <;> simp [*]

variable [OrderLaws α]

/-- What is exceeded by one of the heights is exceeded by the highest. -/
theorem Foremost.exceeds {limit : α} {k : Keyframe α V} (foremost : Foremost height before top after)
    (defined : height top ≤ height top) (member : k ∈ before ++ top :: after) (above : limit < height k) :
    limit < height top := by
  have present := (le_defined (le_of_lt above)).2
  rcases List.mem_append.mp member with early | late
  · exact lt_of_lt_of_le above (le_of_lt (lt_of_not_le present defined (foremost.earlier k early)))
  · rcases List.mem_cons.mp late with rfl | late
    · exact above
    · exact lt_of_lt_of_le above (le_of_not_lt defined present (foremost.later k late))

private theorem peak?_foremost {interior : List (Keyframe α V)} {h : α}
    (found : peak? height interior = some ⟨before, top, after, h⟩) :
    interior = before ++ top :: after ∧ h = height top ∧ 0.0 < height top ∧ Foremost height before top after := by
  induction interior generalizing before top after h with
  | nil => cases found
  | cons k rest ih =>
    rw [peak?] at found
    split at found
    next later present =>
      obtain ⟨split, own, positive, foremost⟩ := ih present
      rw [own] at found
      split at found
      next first =>
        obtain ⟨rfl, rfl, rfl, rfl⟩ := Peak.mk.inj (Option.some.inj found)
        refine ⟨rfl, rfl, first.1, List.forall_mem_nil _, fun other member above => first.2 ?_⟩
        exact foremost.exceeds (le_defined (le_of_lt positive)).2 (split ▸ member) above
      next first =>
        obtain ⟨rfl, rfl, rfl, rfl⟩ := Peak.mk.inj (Option.some.inj found)
        refine ⟨by rw [split]; rfl, rfl, positive, ?_, foremost.later⟩
        refine List.forall_mem_cons.mpr ⟨fun reaches => first ?_, foremost.earlier⟩
        exact ⟨lt_of_lt_of_le positive reaches, fun less => not_le_of_lt less reaches⟩
    next none =>
      split at found
      next positive =>
        obtain ⟨rfl, rfl, rfl, rfl⟩ := Peak.mk.inj (Option.some.inj found)
        refine ⟨rfl, rfl, positive, List.forall_mem_nil _, fun other member above => ?_⟩
        exact peak?_eq_none_iff.mp none other member (lt_of_lt_of_le positive (le_of_lt above))
      next => cases found

private theorem Foremost.found (foremost : Foremost height before top after) (positive : 0.0 < height top) :
    peak? height (before ++ top :: after) = some ⟨before, top, after, height top⟩ := by
  induction before with
  | nil =>
    rw [List.nil_append, peak?]
    cases found : peak? height after with
    | none => exact if_pos positive
    | some later =>
      obtain ⟨inside, own, _, _⟩ := peak?_foremost found
      refine if_pos ⟨positive, ?_⟩
      rw [own]
      exact foremost.later later.top (inside ▸ List.mem_append_right _ List.mem_cons_self)
  | cons first before ih =>
    obtain ⟨highest, onward⟩ := List.forall_mem_cons.mp foremost.earlier
    rw [List.cons_append, peak?, ih ⟨onward, foremost.later⟩]
    refine if_neg fun exceeds => exceeds.2 ?_
    exact lt_of_not_le (le_defined (le_of_lt exceeds.1)).2 (le_defined (le_of_lt positive)).2 highest

/-- The search ends at the foremost keyframe, if that is above zero. -/
theorem peak?_eq_some_iff {interior : List (Keyframe α V)} {h : α} :
    peak? height interior = some ⟨before, top, after, h⟩ ↔
      interior = before ++ top :: after ∧ h = height top ∧ 0.0 < height top ∧ Foremost height before top after := by
  constructor
  · exact peak?_foremost
  · rintro ⟨rfl, rfl, positive, foremost⟩
    exact foremost.found positive

section Split
variable {tolerance : α} (positive : 0.0 < tolerance) {deviation : Deviation α V} {s : Stretch α V}
include positive

theorem Stretch.split?_eq_some_iff {h : α} :
    s.split? tolerance deviation = some ⟨before, top, after, h⟩ ↔
      s.interior = before ++ top :: after ∧ h = deviation s.first top s.last ∧
        tolerance < deviation s.first top s.last ∧ Foremost (deviation s.first · s.last) before top after := by
  rw [split?, Option.filter_eq_some_iff, peak?_eq_some_iff, decide_eq_true_iff]
  constructor
  · rintro ⟨⟨interior, rfl, _, foremost⟩, far⟩
    exact ⟨interior, rfl, far, foremost⟩
  · rintro ⟨interior, rfl, far, foremost⟩
    exact ⟨⟨interior, rfl, lt_of_lt_of_le positive (le_of_lt far), foremost⟩, far⟩

theorem Stretch.split?_eq_none_iff :
    s.split? tolerance deviation = none ↔ ∀ k ∈ s.interior, ¬tolerance < deviation s.first k s.last := by
  constructor
  · intro whole k member far
    cases found : peak? (deviation s.first · s.last) s.interior with
    | none => exact peak?_eq_none_iff.mp found k member (lt_of_lt_of_le positive (le_of_lt far))
    | some p =>
      obtain ⟨interior, own, above, foremost⟩ := peak?_eq_some_iff.mp found
      have highest := foremost.exceeds (le_defined (le_of_lt above)).2 (interior ▸ member) far
      have split : s.split? tolerance deviation = some p := by
        rw [split?, found, Option.filter_some, own, decide_eq_true highest, if_pos rfl]
      cases whole.symm.trans split
  · intro close
    cases found : s.split? tolerance deviation with
    | none => rfl
    | some p =>
      obtain ⟨interior, _, far, _⟩ := (split?_eq_some_iff positive).mp found
      exact absurd far (close p.top (interior ▸ List.mem_append_right _ List.mem_cons_self))

end Split

end Tween.Channel
