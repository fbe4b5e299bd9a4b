import Tween.Channel.Course
import Tween.Channel.Pairs
import Tween.Proofs.ScalarOrder

/-! The pairs of an ordered channel follow each other: none begins before the one in front of it
has ended. Steps are the delicate part, because the keyframe where a step began is kept while
later ones of the same instant are read. -/

namespace Tween.Channel
open Scalar OrderLaws
variable {α V : Type} [Scalar α]

/-- One pair behind the other from `time` on, and none that goes back. -/
def Successive (time : α) : List (Pair α V) → Prop
  | [] => True
  | p :: pairs => time ≤ p.start.time ∧ p.start.time ≤ p.stop.time ∧ Successive p.stop.time pairs

section Transitions
variable [BEq V] {force : Bool} {step : Option (Keyframe α V)} {previous next : Keyframe α V}
  {behind : List (Keyframe α V)}

theorem transitions_step (differ : (previous.value == next.value) = false)
    (instant : (previous.time == next.time) = true) :
    transitions force step previous (next :: behind) = transitions force (some (step.getD previous)) next behind := by
  simp [transitions, differ, instant]

theorem transitions_flat (flat : (previous.value == next.value) = true) :
    transitions false step previous (next :: behind) =
      step.toList.map (⟨·, previous⟩) ++ transitions false none next behind := by
  cases step <;> simp [transitions, flat, Option.filter]

/-- What has a pair of its own replaces the open step of a hold marker. -/
theorem transitions_stated (stated : (!(previous.value == next.value) || force) = true)
    (apart : (previous.value == next.value) = true ∨ (previous.time == next.time) = false) :
    transitions force step previous (next :: behind) =
      (step.filter fun s => !s.hold).toList.map (⟨·, previous⟩) ++
        ⟨previous, next⟩ :: transitions false none next behind := by
  rcases apart with flat | apart
  · have forced : force = true := by simpa [flat] using stated
    simp [transitions, flat, forced]
  · simp only [transitions, apart, stated, Bool.and_false, Bool.false_eq_true, if_false, if_true, Bool.and_true,
      Bool.not_true, List.append_assoc, List.cons_append, List.nil_append]

theorem transitions_moved (differ : (previous.value == next.value) = false)
    (apart : (previous.time == next.time) = false) :
    transitions false step previous (next :: behind) =
      (step.filter fun s => !s.hold).toList.map (⟨·, previous⟩) ++
        ⟨previous, next⟩ :: transitions false none next behind :=
  transitions_stated (by rw [differ]; rfl) (Or.inr apart)

/-- A keyframe is a step away from the one before it, repeats its value, or is moved to. -/
theorem transition_cases (previous next : Keyframe α V) :
    ((previous.value == next.value) = false ∧ (previous.time == next.time) = true) ∨
      (previous.value == next.value) = true ∨
      ((previous.value == next.value) = false ∧ (previous.time == next.time) = false) := by
  cases previous.value == next.value <;> cases previous.time == next.time <;> simp

/-- While a transition is asked for, one that repeats the value has a pair as well. -/
theorem forced_cases (force : Bool) (previous next : Keyframe α V) :
    ((previous.value == next.value) = false ∧ (previous.time == next.time) = true) ∨
      ((!(previous.value == next.value) || force) = true ∧
        ((previous.value == next.value) = true ∨ (previous.time == next.time) = false)) ∨
      ((previous.value == next.value) = true ∧ force = false) := by
  cases previous.value == next.value <;> cases previous.time == next.time <;> cases force <;> simp

end Transitions

theorem Successive.append {time : α} {pairs : List (Pair α V)} {p : Pair α V} (successive : Successive time pairs)
    (behind : ∀ last ∈ pairs.getLast?, last.stop.time ≤ p.start.time ∧ p.start.time ≤ p.stop.time)
    (present : pairs ≠ []) : Successive time (pairs ++ [p]) := by
  induction pairs generalizing time with
  | nil => exact absurd rfl present
  | cons first pairs ih =>
    obtain ⟨begins, ends, later⟩ := successive
    refine ⟨begins, ends, ?_⟩
    cases pairs with
    | nil => exact ⟨(behind first rfl).1, (behind first rfl).2, trivial⟩
    | cons second pairs => exact ih later behind (List.cons_ne_nil _ _)

variable [OrderLaws α]

theorem Successive.weaken {earlier time : α} {pairs : List (Pair α V)} (successive : Successive time pairs)
    (ordered : earlier ≤ time) : Successive earlier pairs := by
  cases pairs with
  | nil => trivial
  | cons p pairs => exact ⟨le_trans ordered successive.1, successive.2⟩

theorem Successive.bounds {time : α} {pairs : List (Pair α V)} (successive : Successive time pairs) {p : Pair α V}
    (member : p ∈ pairs) : time ≤ p.start.time ∧ p.start.time ≤ p.stop.time := by
  induction pairs generalizing time with
  | nil => cases member
  | cons first pairs ih =>
    obtain ⟨begins, ends, later⟩ := successive
    cases member with
    | head => exact ⟨begins, ends⟩
    | tail _ member => exact ih (later.weaken (le_trans begins ends)) member

theorem Successive.pairwise {time : α} {pairs : List (Pair α V)} (successive : Successive time pairs) :
    pairs.Pairwise (·.stop.time ≤ ·.start.time) := by
  induction pairs generalizing time with
  | nil => exact List.Pairwise.nil
  | cons first pairs ih =>
    obtain ⟨_, _, later⟩ := successive
    exact List.Pairwise.cons (fun p member => (later.bounds member).1) (ih later)

private theorem closed_successive {kept : Option (Keyframe α V)} {previous : Keyframe α V} {pairs : List (Pair α V)}
    (opened : ∀ s ∈ kept, (s.time == previous.time) = true) (successive : Successive previous.time pairs) :
    Successive previous.time (kept.toList.map (⟨·, previous⟩) ++ pairs) := by
  cases kept with
  | none => exact successive
  | some s => exact ⟨ge_of_beq (opened s rfl), le_of_beq (opened s rfl), successive⟩

/-- A step that goes on still began at the same instant. -/
theorem opened_onward {step : Option (Keyframe α V)} {previous next : Keyframe α V}
    (opened : ∀ s ∈ step, (s.time == previous.time) = true) (instant : (previous.time == next.time) = true) :
    ∀ s ∈ some (step.getD previous), (s.time == next.time) = true := by
  rintro _ ⟨⟩
  cases step with
  | none => exact instant
  | some s => exact PartialEquivBEq.trans (opened s rfl) instant

/-- A step that is open began at the instant of `previous`. -/
theorem transitions_successive [BEq V] {force : Bool} {step : Option (Keyframe α V)} {previous : Keyframe α V}
    {behind : List (Keyframe α V)} (ordered : Ordered (previous :: behind))
    (opened : ∀ s ∈ step, (s.time == previous.time) = true) :
    Successive previous.time (transitions force step previous behind) := by
  induction behind generalizing force step previous with
  | nil =>
    have closed : Successive previous.time (step.toList.map (⟨·, previous⟩) ++ []) := closed_successive opened trivial
    simpa [transitions] using closed
  | cons next behind ih =>
    have later : previous.time ≤ next.time := (List.pairwise_cons.mp ordered).1 next List.mem_cons_self
    have ordered := (List.pairwise_cons.mp ordered).2
    have resume : Successive next.time (transitions false none next behind) := ih ordered nofun
    rcases forced_cases force previous next with ⟨differ, instant⟩ | ⟨stated, apart⟩ | ⟨flat, rfl⟩
    · rw [transitions_step differ instant]
      exact (ih ordered (opened_onward opened instant)).weaken later
    · rw [transitions_stated stated apart]
      refine closed_successive (fun s found => opened s ?_) ⟨(le_defined later).1, later, resume⟩
      exact (Option.filter_eq_some_iff.mp found).1
    · rw [transitions_flat flat]
      exact closed_successive opened (resume.weaken later)

omit [OrderLaws α] in
theorem transitions_members [BEq V] {force : Bool} {step : Option (Keyframe α V)} {previous : Keyframe α V}
    {behind : List (Keyframe α V)} {p : Pair α V} (member : p ∈ transitions force step previous behind) :
    p.start ∈ step.toList ++ previous :: behind ∧ p.stop ∈ previous :: behind := by
  induction behind generalizing force step previous with
  | nil =>
    obtain ⟨s, found, rfl⟩ := List.mem_map.mp member
    exact ⟨List.mem_append_left _ found, List.mem_singleton_self _⟩
  | cons next behind ih =>
    rw [transitions] at member
    split at member
    · obtain ⟨starts, stops⟩ := ih member
      refine ⟨?_, List.mem_cons_of_mem _ stops⟩
      cases step with
      | none => exact starts
      | some s =>
        rcases List.mem_append.mp starts with opened | later
        · exact List.mem_append_left _ opened
        · exact List.mem_append_right _ (List.mem_cons_of_mem _ later)
    · rcases List.mem_append.mp member with stated | later
      · rcases List.mem_append.mp stated with closed | moved
        · obtain ⟨s, found, rfl⟩ := List.mem_map.mp closed
          have opened : s ∈ step := (Option.filter_eq_some_iff.mp (Option.mem_toList.mp found)).1
          exact ⟨List.mem_append_left _ (Option.mem_toList.mpr opened), List.mem_cons_self⟩
        · split at moved
          · obtain rfl := List.mem_singleton.mp moved
            exact ⟨List.mem_append_right _ List.mem_cons_self, List.mem_cons_of_mem _ List.mem_cons_self⟩
          · cases moved
      · obtain ⟨starts, stops⟩ := ih later
        exact ⟨List.mem_append_right _ (List.mem_cons_of_mem _ starts), List.mem_cons_of_mem _ stops⟩

/-- Where the second pair has begun, the first one has ended. -/
def Follows (first second : Pair α V) : Prop :=
  ∀ time, second.start.time ≤ time → first.start.time ≤ time ∧ first.stop.time ≤ time

theorem Successive.follows {time : α} {pairs : List (Pair α V)} (successive : Successive time pairs) :
    pairs.Pairwise Follows := by
  refine successive.pairwise.imp_of_mem fun first second ended time begun => ?_
  have stopped := le_trans ended begun
  exact ⟨le_trans (successive.bounds first).2 stopped, stopped⟩

theorem Successive.leadIn {time : α} {pairs : List (Pair α V)} (successive : Successive time pairs)
    (playback : Playback α V) : ∃ time, Successive time (leadIn playback pairs) := by
  unfold Channel.leadIn
  split
  next first rest startTime window =>
    split
    next early =>
      obtain ⟨_, ends, later⟩ := successive
      have defined := le_defined (le_of_lt early)
      refine ⟨startTime, defined.1, ?_⟩
      cases playback.loopable with
      | false => exact ⟨defined.1, le_of_lt early, ends, later⟩
      | true => exact ⟨le_of_lt early, defined.2, ends, later⟩
    next => exact ⟨_, successive⟩
  next => exact ⟨_, successive⟩

theorem Successive.leadOut {time : α} {pairs : List (Pair α V)} (successive : Successive time pairs)
    (playback : Playback α V) : Successive time (leadOut playback pairs) := by
  unfold Channel.leadOut
  split
  next last endTime found window =>
    split
    next late =>
      refine successive.append (fun final same => ?_) (by rintro rfl; cases found)
      obtain rfl := Option.some.inj (found.symm.trans same)
      exact ⟨(le_defined (le_of_lt late)).1, le_of_lt late⟩
    next => exact successive
  next => exact successive

theorem leadOut_constant [BEq V] (playback : Playback α V) (first last : Keyframe α V) :
    leadOut playback (constant playback first last) = constant playback first last := by
  rw [constant]
  split
  · cases window : playback.endTime with
    | none => rw [leadOut, window]; rfl
    | some endTime =>
      rw [leadOut, window]
      simp [Keyframe.atTime, OrderLaws.lt_irrefl]
  · rfl

omit [OrderLaws α] in
private theorem constant_single [BEq V] (playback : Playback α V) (first last : Keyframe α V) :
    (constant playback first last).Pairwise Follows := by
  rw [constant]
  split
  · exact List.pairwise_singleton _ _
  · exact List.Pairwise.nil

/-- A window does not reach pairs whose times are undefined. -/
private theorem unreached (playback : Playback α V) {pairs : List (Pair α V)}
    (undefined : ∀ p ∈ pairs, ¬p.start.time ≤ p.start.time ∧ ¬p.stop.time ≤ p.stop.time) :
    leadOut playback (leadIn playback pairs) = pairs := by
  have before : leadIn playback pairs = pairs := by
    unfold leadIn
    split
    next first rest startTime window =>
      exact if_neg fun early => (undefined first List.mem_cons_self).1 (le_defined (le_of_lt early)).2
    next => rfl
  rw [before, leadOut]
  split
  next last endTime found window =>
    exact if_neg fun late => (undefined last (List.mem_of_mem_getLast? found)).2 (le_defined (le_of_lt late)).1
  next => rfl

/-- The pairs of an ordered channel follow each other, whatever the window, and so do those of a
channel whose times are all undefined. -/
theorem pairs_follow [BEq V] {c : Channel α V} (playback : Playback α V)
    (times : Ordered c.keyframes ∨ ∀ k ∈ c.keyframes, ¬k.time ≤ k.time) : (c.pairs playback).Pairwise Follows := by
  have played : Ordered (c.keyframes.map fun k => k.withValue (playback.edit k.value)) ∨
      ∀ k ∈ c.keyframes.map fun k => k.withValue (playback.edit k.value), ¬k.time ≤ k.time := by
    refine times.imp List.pairwise_map.mpr fun undefined k member => ?_
    obtain ⟨k, found, rfl⟩ := List.mem_map.mp member
    exact undefined k found
  unfold pairs
  split
  next => exact List.Pairwise.nil
  next first behind shape =>
    rw [shape] at played
    dsimp only
    split
    next => rw [leadOut_constant]; exact constant_single _ _ _
    next =>
      rcases played with ordered | undefined
      · have moving : Successive first.time (transitions playback.loopable none first behind) :=
          transitions_successive ordered nofun
        obtain ⟨time, successive⟩ := moving.leadIn playback
        exact (successive.leadOut playback).follows
      · have members {p : Pair α V} (member : p ∈ transitions playback.loopable none first behind) :=
          transitions_members member
        rw [unreached playback fun p member => ⟨undefined _ (members member).1, undefined _ (members member).2⟩]
        refine List.pairwise_of_forall_mem_list fun p _ q member time begun => ?_
        exact absurd (le_defined begun).1 (undefined _ (members member).1)

end Tween.Channel
