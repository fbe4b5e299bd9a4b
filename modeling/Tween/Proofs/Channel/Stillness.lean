import Tween.Proofs.Channel.HoldSteps

/-! Channels that never change. Without transitions a channel has at most the one pair that states
its value, and none at all only if every value is the one that shows anyway. -/

namespace Tween.Channel
variable {α V : Type} [Scalar α] [BEq V]

/-- Every value repeats the first one, and no transition is asked for. -/
def Still (force : Bool) (first : Keyframe α V) (behind : List (Keyframe α V)) : Prop :=
  (force = true → behind = []) ∧ ∀ k ∈ behind, (first.value == k.value) = true

/-- A keyframe is a step away from the one before it, or it has a pair, or it repeats a value
without being asked for. -/
private theorem transitions_cases (force : Bool) (step : Option (Keyframe α V)) (previous next : Keyframe α V)
    (behind : List (Keyframe α V)) :
    ((previous.value == next.value) = false ∧
        transitions force step previous (next :: behind) = transitions force (some (step.getD previous)) next behind) ∨
      (∃ front, transitions force step previous (next :: behind) =
        front ++ ⟨previous, next⟩ :: transitions false none next behind) ∧
        ((previous.value == next.value) = false ∨ force = true) ∨
      (force = false ∧ (previous.value == next.value) = true ∧ transitions force step previous (next :: behind) =
        step.toList.map (⟨·, previous⟩) ++ transitions false none next behind) := by
  rcases forced_cases force previous next with ⟨differ, instant⟩ | ⟨stated, apart⟩ | ⟨flat, rfl⟩
  · exact Or.inl ⟨differ, transitions_step differ instant⟩
  · refine Or.inr (Or.inl ⟨⟨_, transitions_stated stated apart⟩, ?_⟩)
    simpa using stated
  · exact Or.inr (Or.inr ⟨rfl, flat, transitions_flat flat⟩)

private theorem transitions_opened (force : Bool) (s previous : Keyframe α V) (behind : List (Keyframe α V)) :
    transitions force (some s) previous behind ≠ [] := by
  induction behind generalizing force previous with
  | nil => exact List.cons_ne_nil _ _
  | cons next behind ih =>
    rcases transitions_cases force (some s) previous next behind with ⟨_, steps⟩ | ⟨⟨front, moves⟩, _⟩ | ⟨_, _, flat⟩
    · rw [steps]
      exact ih force next
    · rw [moves]
      simp
    · rw [flat]
      exact List.cons_ne_nil _ _

theorem transitions_eq_nil_iff [PartialEquivBEq V] {force : Bool} {first : Keyframe α V} {behind : List (Keyframe α V)} :
    transitions force none first behind = [] ↔ Still force first behind := by
  induction behind generalizing force first with
  | nil => simp [transitions, Still]
  | cons next behind ih =>
    rcases transitions_cases force none first next behind with
      ⟨differ, steps⟩ | ⟨⟨front, moves⟩, stated⟩ | ⟨rfl, flat, waits⟩
    · rw [steps]
      refine iff_of_false (transitions_opened force _ next behind) fun still => ?_
      exact Bool.false_ne_true (differ.symm.trans (still.2 next List.mem_cons_self))
    · rw [moves]
      refine iff_of_false (by simp) fun still => ?_
      rcases stated with differ | forced
      · exact Bool.false_ne_true (differ.symm.trans (still.2 next List.mem_cons_self))
      · exact List.cons_ne_nil _ _ (still.1 forced)
    · rw [waits, Option.toList_none, List.map_nil, List.nil_append, ih]
      constructor
      · intro still
        refine ⟨fun forced => absurd forced Bool.false_ne_true, fun k member => ?_⟩
        rcases List.mem_cons.mp member with rfl | later
        · exact flat
        · exact PartialEquivBEq.trans flat (still.2 k later)
      · intro still
        refine ⟨fun forced => absurd forced Bool.false_ne_true, fun k member => ?_⟩
        exact PartialEquivBEq.trans (PartialEquivBEq.symm flat) (still.2 k (List.mem_cons_of_mem _ member))

omit [BEq V] in
theorem leadIn_eq_nil_iff {playback : Playback α V} {pairs : List (Pair α V)} :
    leadIn playback pairs = [] ↔ pairs = [] := by
  unfold leadIn
  split
  · split <;> simp
  · rfl

omit [BEq V] in
theorem leadOut_eq_nil_iff {playback : Playback α V} {pairs : List (Pair α V)} :
    leadOut playback pairs = [] ↔ pairs = [] := by
  unfold leadOut
  split
  next found _ =>
    have present : pairs ≠ [] := by
      rintro rfl
      cases found
    split <;> simp [present]
  · rfl

variable [PartialEquivBEq V] {c : Channel α V} {playback : Playback α V} {first : Keyframe α V}
  {behind : List (Keyframe α V)}

theorem pairs_still (shape : edited playback.edit c.keyframes = first :: behind)
    (still : Still playback.loopable first behind) :
    c.pairs playback =
      leadOut playback (constant playback first ((first :: behind).getLast (List.cons_ne_nil _ _))) := by
  unfold edited at shape
  unfold pairs
  simp only [shape, transitions_eq_nil_iff.mpr still]
  rfl

theorem pairs_moving (shape : edited playback.edit c.keyframes = first :: behind)
    (moving : ¬Still playback.loopable first behind) :
    c.pairs playback = leadOut playback (leadIn playback (transitions playback.loopable none first behind)) := by
  unfold edited at shape
  unfold pairs
  have some : (leadIn playback (transitions playback.loopable none first behind)).isEmpty = false := by
    rw [List.isEmpty_eq_false_iff]
    intro none
    exact moving (transitions_eq_nil_iff.mp (leadIn_eq_nil_iff.mp none))
  simp only [shape, some]
  rfl

/-- A channel has no pair exactly if all that it has to show is there anyway. A loop states a
transition of its own as soon as there is one. -/
theorem pairs_eq_nil_iff :
    c.pairs playback = [] ↔
      (∀ k ∈ edited playback.edit c.keyframes, (k.value == playback.rest) = true) ∧
        (playback.loopable = true → c.keyframes.length ≤ 1) := by
  have count : c.keyframes.length = (edited playback.edit c.keyframes).length := (List.length_map _).symm
  rw [count]
  cases shape : edited playback.edit c.keyframes with
  | nil =>
    have empty : c.pairs playback = [] := by
      unfold edited at shape
      simp only [pairs, shape]
    simp [empty]
  | cons first behind =>
    have alone : (first :: behind).length ≤ 1 ↔ behind = [] := by simp
    rw [List.forall_mem_cons, alone]
    by_cases still : Still playback.loopable first behind
    · rw [pairs_still shape still, leadOut_eq_nil_iff]
      have resting : constant playback first ((first :: behind).getLast (List.cons_ne_nil _ _)) = [] ↔
          (first.value == playback.rest) = true := by
        simp [constant, Keyframe.atTime, bne]
      rw [resting]
      refine ⟨fun shown => ⟨⟨shown, fun k member => ?_⟩, still.1⟩, fun shown => shown.1.1⟩
      exact PartialEquivBEq.trans (PartialEquivBEq.symm (still.2 k member)) shown
    · rw [pairs_moving shape still, leadOut_eq_nil_iff, leadIn_eq_nil_iff, transitions_eq_nil_iff]
      refine iff_of_false still fun shown => still ⟨shown.2, fun k member => ?_⟩
      exact PartialEquivBEq.trans shown.1.1 (PartialEquivBEq.symm (shown.1.2 k member))

end Tween.Channel
