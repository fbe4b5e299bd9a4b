import Tween.Proofs.Channel.Course
import Tween.Proofs.Channel.Passing
import Tween.Proofs.Channel.Stillness
import Tween.Proofs.Exact.Field

/-! The pairs of a channel trace its curve. What a player shows at a time is handed on from pair to
pair: each one that has begun replaces the value that was shown before it. Along the keyframes this
value is that of the curve, and the pairs that reach out to a window do not change it. -/

namespace Tween.Channel
open Scalar OrderLaws
variable {α V : Type} [Scalar α]

/-- What shows once the pairs that have begun had their turn. -/
def shown (blend : Blend α V) (waiting : V) (pairs : List (Pair α V)) (time : α) : V :=
  (current? pairs time).elim waiting (·.during blend time)

section Shown
variable {blend : Blend α V} {waiting : V} {pairs : List (Pair α V)} {p : Pair α V} {time : α}

theorem shown_append (front back : List (Pair α V)) :
    shown blend waiting (front ++ back) time = shown blend (shown blend waiting front time) back time := by
  rw [shown, current?_append]
  cases found : current? back time <;> simp [shown, found]

theorem shown_waiting (none : current? pairs time = none) : shown blend waiting pairs time = waiting := by
  rw [shown, none]
  rfl

theorem shown_begun (begun : p.start.time ≤ time) : shown blend waiting [p] time = p.during blend time := by
  have current : current? [p] time = some p := by simp [current?, begun]
  rw [shown, current]
  rfl

theorem shown_unbegun (ahead : ¬p.start.time ≤ time) : shown blend waiting [p] time = waiting :=
  shown_waiting (current?_eq_none.mpr (by simpa using ahead))

variable [BEq V] [EquivBEq V]

theorem replay_shown (waiting rest : V) (present : pairs ≠ [])
    (front : ∀ p ∈ pairs.head?, (waiting == p.start.value) = true) :
    (replay blend rest pairs time == shown blend waiting pairs time) = true := by
  cases found : current? pairs time with
  | some p =>
    rw [replay_current blend rest found, shown, found]
    exact BEq.refl _
  | none =>
    obtain ⟨first, behind, rfl⟩ := List.exists_cons_of_ne_nil present
    rw [replay_waiting blend rest found, shown_waiting found]
    exact BEq.symm (front first rfl)

theorem shown_congr {waiting other : V} (same : (waiting == other) = true) (pairs : List (Pair α V)) :
    (shown blend waiting pairs time == shown blend other pairs time) = true := by
  unfold shown
  cases current? pairs time with
  | some p => exact BEq.refl (p.during blend time)
  | none => exact same

end Shown

section Ends
variable {playback : Playback α V} {pairs : List (Pair α V)}

theorem leadIn_front (values : V → Prop) (front : ∀ p ∈ pairs.head?, values p.start.value) :
    ∀ p ∈ (leadIn playback pairs).head?, values p.start.value := by
  unfold leadIn
  split
  next first rest _ _ =>
    split
    · rintro _ ⟨⟩
      exact front first rfl
    · exact front
  next => exact front

end Ends

section Mixing
variable [BEq V] [EquivBEq V] {blend : Blend α V} {waiting : V} {pairs : List (Pair α V)} {time : α}
  (mixes : ∀ a b progress, (a == b) = true → (blend a b progress == a) = true)
include mixes

theorem shown_still {p : Pair α V} (start : (waiting == p.start.value) = true)
    (flat : (p.start.value == p.stop.value) = true) : (shown blend waiting [p] time == waiting) = true := by
  by_cases begun : p.start.time ≤ time
  · rw [shown_begun begun, Pair.during]
    split
    · exact BEq.trans (mixes _ _ _ flat) (BEq.symm start)
    · exact BEq.symm (BEq.trans start flat)
  · rw [shown_unbegun begun]
    exact BEq.refl waiting

theorem shown_leadIn {playback : Playback α V} (front : ∀ p ∈ pairs.head?, (waiting == p.start.value) = true) :
    (shown blend waiting (leadIn playback pairs) time == shown blend waiting pairs time) = true := by
  unfold leadIn
  split
  next first rest startTime _ =>
    split
    next =>
      rw [← List.singleton_append, shown_append]
      apply shown_congr
      apply shown_still mixes
      · exact front first rfl
      · cases playback.loopable <;> exact BEq.refl first.start.value
    next => exact BEq.refl _
  next => exact BEq.refl _

theorem shown_leadOut [OrderLaws α] {playback : Playback α V}
    (forward : ∀ p ∈ pairs, p.start.time ≤ p.stop.time) :
    (shown blend waiting (leadOut playback pairs) time == shown blend waiting pairs time) = true := by
  unfold leadOut
  split
  next last endTime found _ =>
    split
    next =>
      rw [shown_append]
      by_cases ended : last.stop.time ≤ time
      · -- The last pair is over, so its end value shows, which the one behind it states again.
        have begun : last.start.time ≤ time := le_trans (forward last (List.mem_of_mem_getLast? found)) ended
        have parts : pairs = pairs.dropLast ++ [last] := (List.dropLast_append_getLast? last found).symm
        have value : shown blend waiting pairs time = last.stop.value := by
          rw [parts, shown_append, shown_begun begun, during_past _ ended]
        rw [value]
        exact shown_still mixes (BEq.refl last.stop.value) (BEq.refl last.stop.value)
      · rw [shown_unbegun (by exact ended)]
        exact BEq.refl _
    next => exact BEq.refl _
  next => exact BEq.refl _

theorem replay_constant {playback : Playback α V} (first last : Keyframe α V) :
    (replay blend playback.rest (constant playback first last) time == first.value) = true := by
  rw [constant]
  dsimp only
  split
  next =>
    apply BEq.trans
    · apply replay_shown first.value playback.rest (List.cons_ne_nil _ _)
      rintro _ ⟨⟩
      exact BEq.refl first.value
    · apply shown_still mixes
      · exact BEq.refl first.value
      · split <;> exact BEq.refl first.value
  next resting =>
    have resting : (first.value == playback.rest) = true := by simpa [Keyframe.atTime, bne] using resting
    exact BEq.symm resting

end Mixing

section Transitions
variable [BEq V] {force : Bool} {step : Option (Keyframe α V)} {previous next : Keyframe α V}
  {behind : List (Keyframe α V)}

/-- Without hold markers an open step is closed before anything else is stated. -/
theorem transitions_closing (free : ∀ s ∈ step, s.hold = false)
    (apart : ¬((previous.value == next.value) = false ∧ (previous.time == next.time) = true)) :
    transitions force step previous (next :: behind) =
      step.toList.map (⟨·, previous⟩) ++
        ((if !(previous.value == next.value) || force then [⟨previous, next⟩] else []) ++
          transitions false none next behind) := by
  rcases forced_cases force previous next with stepping | ⟨stated, distinct⟩ | ⟨flat, rfl⟩
  · exact absurd stepping apart
  · have kept : (step.filter fun s => !s.hold) = step := by
      cases step with
      | none => rfl
      | some s => rw [Option.filter, free s rfl]; rfl
    rw [transitions_stated stated distinct, kept, if_pos stated]
    rfl
  · rw [transitions_flat flat, if_neg (by simp [flat])]
    rfl

variable [EquivBEq V] {blend : Blend α V} {waiting : V} {time : α}

private theorem closed_shown [OrderLaws α] (begun : previous.time ≤ time)
    (opened : ∀ s ∈ step, (s.time == previous.time) = true)
    (shows : step = none → (waiting == previous.value) = true) :
    (shown blend waiting (step.toList.map (⟨·, previous⟩)) time == previous.value) = true := by
  cases step with
  | none => exact shows rfl
  | some s =>
    rw [Option.toList_some, List.map_singleton, shown_begun (le_trans (le_of_beq (opened s rfl)) begun),
      during_past _ (by exact begun)]
    exact BEq.refl previous.value

variable [OrderLaws α] (mixes : ∀ a b progress, (a == b) = true → (blend a b progress == a) = true)
include mixes

/-- Up to the next keyframe a transition shows the way there, and then that keyframe's value. -/
private theorem moved_shown (ordered : Ordered (previous :: next :: behind)) (begun : previous.time ≤ time)
    (shows : (waiting == previous.value) = true) (force : Bool) (rest : V) :
    let moved := if !(previous.value == next.value) || force then [⟨previous, next⟩] else []
    (next.time ≤ time → (shown blend waiting moved time == next.value) = true) ∧
      (time < next.time →
        (shown blend waiting moved time == course (steady blend) rest (previous :: next :: behind) time) = true) := by
  intro moved
  cases stated : !(previous.value == next.value) || force with
  | true =>
    have pair : moved = [⟨previous, next⟩] := if_pos stated
    rw [pair, shown_begun (by exact begun)]
    refine ⟨fun reached => ?_, fun ahead => ?_⟩
    · rw [during_past _ (by exact reached)]
      exact BEq.refl next.value
    · rw [course_between ordered begun ahead, Pair.during, if_pos ahead]
      exact BEq.refl _
  | false =>
    have nothing : moved = [] := if_neg (by simp [stated])
    have flat : (previous.value == next.value) = true := by simpa using (Bool.or_eq_false_iff.mp stated).1
    rw [nothing, shown_waiting rfl]
    refine ⟨fun _ => BEq.trans shows flat, fun ahead => ?_⟩
    rw [course_between ordered begun ahead]
    exact BEq.trans shows (BEq.symm (mixes _ _ _ flat))

/-- From `previous` on the transitions follow the curve. What waits there is the value of `previous`,
unless a step is open, whose pair will state it. -/
theorem transitions_shown (rest : V) (ordered : Ordered (previous :: behind)) (defined : time ≤ time)
    (begun : previous.time ≤ time) (free : ∀ k ∈ step.toList ++ previous :: behind, k.hold = false)
    (opened : ∀ s ∈ step, (s.time == previous.time) = true)
    (shows : step = none → (waiting == previous.value) = true) :
    (shown blend waiting (transitions force step previous behind) time ==
      course (steady blend) rest (previous :: behind) time) = true := by
  -- Behind an open step what waits says nothing, because the pair of the step has begun.
  induction behind generalizing force step previous waiting with
  | nil =>
    rw [transitions, course_last begun fun less => not_le_of_lt less begun]
    exact closed_shown begun opened shows
  | cons next behind ih =>
    have later : Ordered (next :: behind) := (List.pairwise_cons.mp ordered).2
    by_cases stepping : (previous.value == next.value) = false ∧ (previous.time == next.time) = true
    · have reached : next.time ≤ time := le_trans (ge_of_beq stepping.2) begun
      rw [transitions_step stepping.1 stepping.2, course_onward ordered reached]
      exact ih later reached (fun k member => free k (opened_members member)) (opened_onward opened stepping.2)
        fun waits => absurd waits (Option.some_ne_none _)
    · have closed : ∀ s ∈ step, s.hold = false :=
        fun s found => free s (List.mem_append_left _ (Option.mem_toList.mpr found))
      rw [transitions_closing closed stepping, shown_append, shown_append]
      obtain ⟨arrived, onTheWay⟩ := moved_shown mixes ordered begun
        (closed_shown begun opened shows) force rest
      by_cases reached : next.time ≤ time
      · rw [course_onward ordered reached]
        refine ih later reached (fun k member => free k ?_) (fun s found => absurd found (Option.not_mem_none s))
          fun _ => arrived reached
        exact List.mem_append_right _ (List.mem_cons_of_mem _ member)
      · have nextDefined := (le_defined ((List.pairwise_cons.mp ordered).1 next List.mem_cons_self)).2
        rw [shown_waiting (transitions_waits later reached)]
        exact onTheWay (lt_of_not_le defined nextDefined reached)

/-- Before the first keyframe and between transitions alike, what shows is the value of the curve. -/
private theorem walk_shown (force : Bool) (rest : V) (ordered : Ordered (previous :: behind))
    (present : previous.time ≤ previous.time) (defined : time ≤ time) (free : ∀ k ∈ previous :: behind, k.hold = false) :
    (shown blend previous.value (transitions force none previous behind) time ==
      course (steady blend) rest (previous :: behind) time) = true := by
  by_cases begun : previous.time ≤ time
  · exact transitions_shown mixes rest ordered defined begun free nofun fun _ => BEq.refl previous.value
  · rw [course_before ordered (lt_of_not_le defined present begun), shown_waiting (transitions_waits ordered begun)]
    exact BEq.refl previous.value

end Transitions

/-- The pairs of a channel without hold markers show, at every time, the polyline through its edited
keyframes, in a loop or not and however far the window reaches. -/
theorem pairs_trace [BEq V] [EquivBEq V] [OrderLaws α] (blend : Blend α V)
    (mixes : ∀ a b progress, (a == b) = true → (blend a b progress == a) = true) (c : Channel α V)
    (playback : Playback α V) (present : c.keyframes ≠ []) (ordered : Ordered c.keyframes)
    (times : ∀ k ∈ c.keyframes, k.time ≤ k.time) (free : ∀ k ∈ c.keyframes, k.hold = false) (time : α)
    (defined : time ≤ time) :
    (replay blend playback.rest (c.pairs playback) time ==
      course (steady blend) playback.rest (edited playback.edit c.keyframes) time) = true := by
  have order := ordered.edited playback.edit
  have released : ∀ k ∈ edited playback.edit c.keyframes, k.hold = false := by
    intro k member
    obtain ⟨k, found, rfl⟩ := List.mem_map.mp member
    exact free k found
  have stamped : ∀ k ∈ edited playback.edit c.keyframes, k.time ≤ k.time := by
    intro k member
    obtain ⟨k, found, rfl⟩ := List.mem_map.mp member
    exact times k found
  cases shape : edited playback.edit c.keyframes with
  | nil => exact absurd (List.map_eq_nil_iff.mp shape) present
  | cons first behind =>
    rw [shape] at order released stamped
    have walked := walk_shown mixes playback.loopable playback.rest order
      (stamped first List.mem_cons_self) defined released
    by_cases still : Still playback.loopable first behind
    · rw [transitions_eq_nil_iff.mpr still, shown_waiting rfl] at walked
      rw [pairs_still shape still, leadOut_constant]
      exact BEq.trans (replay_constant mixes first _) walked
    · have moving : transitions playback.loopable none first behind ≠ [] := fun none =>
        still (transitions_eq_nil_iff.mp none)
      have front : ∀ p ∈ (transitions playback.loopable none first behind).head?,
          (first.value == p.start.value) = true :=
        transitions_front released fun k _ => BEq.refl k.value
      have successive : Successive first.time (transitions playback.loopable none first behind) :=
        transitions_successive order nofun
      obtain ⟨_, entered⟩ := successive.leadIn playback
      have stated : leadOut playback (leadIn playback (transitions playback.loopable none first behind)) ≠ [] :=
        fun none => moving (leadIn_eq_nil_iff.mp (leadOut_eq_nil_iff.mp none))
      rw [pairs_moving shape still]
      refine BEq.trans (replay_shown first.value playback.rest stated ?_) (BEq.trans ?_ walked)
      · rw [leadOut_head]
        exact leadIn_front (fun value => (first.value == value) = true) front
      · exact BEq.trans (shown_leadOut mixes fun p member => (entered.bounds member).2) (shown_leadIn mixes front)

noncomputable def wandering : Channel ℝ ℝ where
  keyframes := [(0, 1), (1, 2), (1, 5), (1, 3), (2, 3), (4, 0)].map fun ((time, value) : ℕ × ℕ) =>
    ⟨time, value, .linear, false⟩
  blend := none
  rest := 0

/-- Doubled, and in a loop that is longer than the curve. -/
theorem pairs_trace_wandering :
    let playback : Playback ℝ ℝ :=
      { rest := 0, edit := fun value => value + value, startTime := some (-1), endTime := some 6, loopable := true }
    (∀ a b progress : ℝ, (a == b) = true → (Blend.scalar a b progress == a) = true) ∧ wandering.keyframes ≠ [] ∧
      Ordered wandering.keyframes ∧ (∀ k ∈ wandering.keyframes, k.time ≤ k.time) ∧
      (∀ k ∈ wandering.keyframes, k.hold = false) ∧ (3 : ℝ) ≤ 3 ∧
      replay Blend.scalar 0 (wandering.pairs playback) 3 = 3 := by
  intro playback
  have mixes : ∀ a b progress : ℝ, (a == b) = true → (Blend.scalar a b progress == a) = true := by
    intro a b progress same
    obtain rfl := eq_of_beq same
    simp [Blend.scalar]
  have ordered : Ordered wandering.keyframes := by norm_num [Ordered, wandering]
  have free : ∀ k ∈ wandering.keyframes, k.hold = false := by simp [wandering]
  have traced := pairs_trace Blend.scalar mixes wandering playback (List.cons_ne_nil _ _) ordered (fun _ _ => le_rfl)
    free 3 le_rfl
  refine ⟨mixes, List.cons_ne_nil _ _, ordered, fun _ _ => le_rfl, free, le_rfl, ?_⟩
  rw [eq_of_beq traced]
  norm_num [course, reached?, ahead?, edited, wandering, playback, steady, Blend.scalar, Keyframe.withValue,
    List.find?_cons]

end Tween.Channel
