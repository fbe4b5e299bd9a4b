import Tween.Proofs.Binary64.Units
import Tween.Proofs.Channel.Coarsening
import Tween.Proofs.Channel.Foremost
import Tween.Proofs.Channel.RunEnds

/-! Simplifying twice. What a finer tolerance leaves of a stretch still holds its foremost keyframe,
with the same ends around it, so a coarser tolerance splits the rest where it splits the whole and
nothing of the finer pass remains to be seen. -/

namespace Tween.Channel
open Scalar OrderLaws
variable {α V : Type} [Scalar α] {fine coarse tolerance : α} {deviation : Deviation α V}

theorem Stretch.kept_sublist (tolerance : α) (deviation : Deviation α V) (s : Stretch α V) :
    (s.kept tolerance deviation).Sublist s.interior := by
  induction s using Stretch.kept.induct tolerance deviation with
  | case1 s found =>
    rw [kept_none found]
    exact List.nil_sublist _
  | case2 s p found before after =>
    rw [kept_some found, split?_interior found]
    exact before.append (after.cons_cons p.top)

theorem Stretch.kept_empty (first last : Keyframe α V) : Stretch.kept tolerance deviation ⟨first, [], last⟩ = [] :=
  kept_none rfl

omit [Scalar α] in
theorem exists_ends {keyframes : List (Keyframe α V)} (many : 2 ≤ keyframes.length) :
    ∃ first interior last, keyframes = first :: (interior ++ [last]) := by
  match keyframes, many with
  | first :: second :: rest, _ =>
    have behind := List.dropLast_concat_getLast (List.cons_ne_nil second rest)
    exact ⟨first, _, _, congrArg (first :: ·) behind.symm⟩

variable [OrderLaws α]

/-- The coarser tolerance finds in the rest of a stretch what it finds in the whole. -/
theorem Stretch.kept_kept (positive : 0.0 < fine) (ordered : fine ≤ coarse) (s : Stretch α V) :
    Stretch.kept coarse deviation ⟨s.first, s.kept fine deviation, s.last⟩ = s.kept coarse deviation := by
  have above : 0.0 < coarse := lt_of_lt_of_le positive ordered
  induction s using Stretch.kept.induct fine deviation with
  | case1 s found =>
    have close := (split?_eq_none_iff positive).mp found
    have whole : s.split? coarse deviation = none :=
      (split?_eq_none_iff above).mpr fun k member far => close k member (lt_of_le_of_lt ordered far)
    rw [kept_none found, kept_none whole, kept_empty]
  | case2 s p found front back =>
    obtain ⟨interior, own, far, foremost⟩ := (split?_eq_some_iff positive).mp found
    have defined := (le_defined (le_of_lt far)).2
    have fewer := kept_sublist fine deviation ⟨s.first, p.before, p.top⟩
    have less := kept_sublist fine deviation ⟨p.top, p.after, s.last⟩
    rw [kept_some found]
    by_cases farther : coarse < deviation s.first p.top s.last
    · have whole : s.split? coarse deviation = some p :=
        (split?_eq_some_iff above).mpr ⟨interior, own, farther, foremost⟩
      have thin : Stretch.split? coarse deviation ⟨s.first, kept fine deviation ⟨s.first, p.before, p.top⟩
          ++ p.top :: kept fine deviation ⟨p.top, p.after, s.last⟩, s.last⟩ =
          some ⟨_, p.top, _, deviation s.first p.top s.last⟩ :=
        (split?_eq_some_iff above).mpr ⟨rfl, rfl, farther, foremost.sublist fewer less⟩
      rw [kept_some whole, kept_some thin]
      exact (congrArg (· ++ p.top :: _) front).trans (congrArg (_ ++ p.top :: ·) back)
    · -- Not even the foremost keyframe of the stretch is far enough, so neither is any of those that are left.
      have close {before after : List (Keyframe α V)} (foremost : Foremost (deviation s.first · s.last) before p.top after) :
          ∀ k ∈ before ++ p.top :: after, ¬coarse < deviation s.first k s.last :=
        fun k member far => farther (foremost.exceeds defined member far)
      have whole : s.split? coarse deviation = none := (split?_eq_none_iff above).mpr (interior ▸ close foremost)
      rw [kept_none whole, kept_none ((split?_eq_none_iff above).mpr (close (foremost.sublist fewer less)))]

section Simplify
variable [BEq V] {c : Channel α V}

theorem simplify_kept (positive : 0.0 < tolerance) {first last : Keyframe α V} {interior : List (Keyframe α V)}
    (shape : c.keyframes = first :: (interior ++ [last])) :
    (c.simplify tolerance deviation).keyframes =
      first :: (Stretch.kept tolerance deviation ⟨first, interior, last⟩ ++ [last]) := by
  unfold simplify
  split
  next start second third rest found =>
    obtain ⟨rfl, behind⟩ := List.cons.inj (found.symm.trans shape)
    simp only [behind, List.dropLast_concat, List.getLast_concat]
    rw [if_neg (not_le_of_lt positive), keptBehind_kept, List.flatMap_cons, List.flatMap_nil, List.append_nil]
  next short =>
    cases interior with
    | nil => rw [shape, Stretch.kept_empty]
    | cons second interior =>
      obtain ⟨third, rest, more⟩ :=
        List.exists_cons_of_ne_nil (List.append_ne_nil_of_right_ne_nil interior (List.cons_ne_nil last []))
      exact absurd (shape.trans (by rw [List.cons_append, more])) (short _ _ _ _)

theorem simplify_twice (positive : 0.0 < fine) (ordered : fine ≤ coarse) (c : Channel α V) :
    (c.simplify fine deviation).simplify coarse deviation = c.simplify coarse deviation := by
  have above : 0.0 < coarse := lt_of_lt_of_le positive ordered
  by_cases short : c.keyframes.length < 3
  · rw [simplify_short short fine]
  · obtain ⟨first, interior, last, shape⟩ := exists_ends (show 2 ≤ c.keyframes.length by omega)
    rw [simplify_eq (c.simplify fine deviation), simplify_eq c coarse, simplify_kept above (simplify_kept positive shape),
      simplify_kept above shape, Stretch.kept_kept positive ordered ⟨first, interior, last⟩, simplify_eq c fine]

end Simplify

/-- A coarser simplification absorbs a finer one in front of it, whatever the distance measures and
even where it is undefined. Hence simplifying again changes nothing, and a coarser tolerance keeps
no keyframe that a finer one leaves out. -/
theorem simplify_absorbs [BEq V] (c : Channel α V) (deviation : Deviation α V) :
    (∀ fine coarse : α, 0.0 < fine → fine ≤ coarse →
      (c.simplify fine deviation).simplify coarse deviation = c.simplify coarse deviation ∧
        (c.simplify coarse deviation).keyframes.Sublist (c.simplify fine deviation).keyframes) ∧
      ∀ tolerance : α, 0.0 < tolerance ∨ (∀ v w : V, (v == w) = (w == v)) ∧ tolerance ≤ 0.0 →
        (c.simplify tolerance deviation).simplify tolerance deviation = c.simplify tolerance deviation := by
  refine ⟨fun fine coarse positive ordered => ?_, fun tolerance range => ?_⟩
  · exact ⟨simplify_twice positive ordered c, (simplify_coarser c positive ordered deviation).sublist⟩
  · rcases range with positive | ⟨symmetric, lossless⟩
    · exact simplify_twice positive (le_defined (le_of_lt positive)).2 c
    · exact simplify_lossless_twice symmetric lossless deviation c

def hill : Channel Float Float where
  keyframes := [(0.0, 0.0), (1.0, 2.0), (2.0, 2.5), (3.0, 6.0), (4.0, 1.0), (5.0, 0.0), (6.0, 0.0), (7.0, 0.0)].map
    fun (time, value) => { time, value }
  blend := none
  rest := 0.0

/-- How much higher the value is than the first one. There is no such distance for the value zero. -/
def rise : Deviation Float Float := fun first k _ => (k.value - first.value) * (k.value / k.value)

theorem simplify_absorbs_hill :
    (0.0 : Float) < 1.0 ∧ (1.0 : Float) ≤ 2.0 ∧
      (hill.simplify 1.0 rise).simplify 2.0 rise = hill.simplify 2.0 rise ∧
      (hill.simplify 2.0 rise).keyframes.Sublist (hill.simplify 1.0 rise).keyframes ∧
      (∀ v w : Float, (v == w) = (w == v)) ∧ (0.0 : Float) ≤ 0.0 ∧
      (hill.simplify 0.0 rise).simplify 0.0 rise = hill.simplify 0.0 rise := by
  have positive : (0.0 : Float) < 1.0 := by decide
  have ordered : (1.0 : Float) ≤ 2.0 := by decide
  have symmetric : ∀ v w : Float, (v == w) = (w == v) := fun _ _ => BEq.comm
  have lossless : (0.0 : Float) ≤ 0.0 := by decide
  obtain ⟨absorbed, idempotent⟩ := simplify_absorbs hill rise
  obtain ⟨same, fewer⟩ := absorbed 1.0 2.0 positive ordered
  exact ⟨positive, ordered, same, fewer, symmetric, lossless, idempotent 0.0 (Or.inr ⟨symmetric, lossless⟩)⟩

example : (hill.simplify 0.0 rise).keyframes.length = 7 ∧ (hill.simplify 1.0 rise).keyframes.length = 5 ∧
    (hill.simplify 2.0 rise).keyframes.length = 4 := by decide +kernel

end Tween.Channel
