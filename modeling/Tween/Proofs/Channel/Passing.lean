import Tween.Proofs.Channel.HoldSteps
import Tween.Proofs.Channel.PairEnds
import Tween.Proofs.Channel.Simplification

/-! The values that a curve passes. At the time of a keyframe the pairs show its value, however
many keyframes share that time; and when the inside of a run of equal values is left out, what
remains still rests at that value there. -/

namespace Tween.Channel
open Scalar OrderLaws
variable {α V : Type} [Scalar α] [BEq V]

/-- The last keyframe that has been reached has the value, and either it is reached just now or
the next one has the value as well. -/
def Passes (keyframes : List (Keyframe α V)) (time : α) (value : V) : Prop :=
  ∃ front k back, keyframes = front ++ k :: back ∧ k.time ≤ time ∧ (∀ later ∈ back, ¬later.time ≤ time) ∧
    (k.value == value) = true ∧ (time = k.time ∨ ∀ next ∈ back.head?, (k.value == next.value) = true)

/-- At the start of a way nothing of it is done. -/
def Unmoved (keyframes : List (Keyframe α V)) : Prop :=
  ∀ a ∈ keyframes, ∀ b ∈ keyframes, a.time < b.time → ((a.time - a.time) / (b.time - a.time) == (0.0 : α)) = true

section Passes
variable {keyframes more : List (Keyframe α V)} {time : α} {value : V}

theorem Passes.behind (passes : Passes keyframes time value) (more : List (Keyframe α V)) :
    Passes (more ++ keyframes) time value := by
  obtain ⟨front, k, back, rfl, passed⟩ := passes
  exact ⟨more ++ front, k, back, (List.append_assoc _ _ _).symm, passed⟩

theorem Passes.before (passes : Passes keyframes time value) (later : ∀ k ∈ more, ¬k.time ≤ time)
    (last : ∀ k ∈ keyframes.getLast?, ¬k.time ≤ time) : Passes (keyframes ++ more) time value := by
  obtain ⟨front, k, back, rfl, reached, ahead, same, rests⟩ := passes
  refine ⟨front, k, back ++ more, by simp, reached, fun x member => ?_, same, rests.imp_right fun flat => ?_⟩
  · exact (List.mem_append.mp member).elim (ahead x) (later x)
  · cases back with
    | nil => exact absurd reached (last k (by simp))
    | cons next back => exact flat

theorem Passes.between {last : Keyframe α V} (passes : Passes keyframes time value)
    (ending : keyframes.getLast? = some last) (ahead : ¬last.time ≤ time) :
    ∃ first second rest, keyframes = first :: second :: rest := by
  obtain ⟨front, k, back, rfl, reached, _⟩ := passes
  rcases front with _ | ⟨first, _ | ⟨second, rest⟩⟩
  · rcases back with _ | ⟨next, rest⟩
    · exact absurd (Option.some.inj ending ▸ reached) ahead
    · exact ⟨k, next, rest, rfl⟩
  · exact ⟨first, k, back, rfl⟩
  · exact ⟨first, second, rest ++ k :: back, rfl⟩

theorem Passes.edited {edit : V → V} (passes : Passes keyframes time value)
    (respects : ∀ k ∈ keyframes, ∀ w, (k.value == w) = true → (edit k.value == edit w) = true) :
    Passes (edited edit keyframes) time (edit value) := by
  obtain ⟨front, k, back, rfl, reached, ahead, same, rests⟩ := passes
  have member : k ∈ front ++ k :: back := List.mem_append_right _ List.mem_cons_self
  refine ⟨Channel.edited edit front, k.withValue (edit k.value), Channel.edited edit back, by simp [Channel.edited],
    reached, ?_, respects k member value same, rests.imp_right ?_⟩
  · intro later found
    obtain ⟨x, behind, rfl⟩ := List.mem_map.mp found
    exact ahead x behind
  · intro flat next found
    rw [Channel.edited, List.head?_map] at found
    obtain ⟨x, head, rfl⟩ := Option.map_eq_some_iff.mp found
    exact respects k member x.value (flat x head)

end Passes

section Simplify
variable [PartialEquivBEq V] [OrderLaws α]

/-- `kept` is the last keyframe that stays up to `previous`. -/
private theorem runEnds_passes {kept previous : Keyframe α V} {behind : List (Keyframe α V)}
    (same : (kept.value == previous.value) = true) (reached : kept.time ≤ previous.time)
    (strict : (previous :: behind).Pairwise (·.time < ·.time))
    (defined : ∀ k ∈ previous :: behind, (k.value == k.value) = true)
    (rests : kept = previous ∨ ∀ next ∈ behind.head?, (previous.value == next.value) = true) :
    ∀ k ∈ previous :: behind, Passes (kept :: runEnds previous behind) k.time k.value := by
  induction behind generalizing kept previous with
  | nil =>
    intro k member
    obtain rfl := List.mem_singleton.mp member
    exact ⟨[], kept, [], rfl, reached, nofun, same, Or.inr nofun⟩
  | cons x behind ih =>
    have here : Passes (kept :: runEnds previous (x :: behind)) previous.time previous.value := by
      refine ⟨[], kept, _, rfl, reached, fun later member => ?_, same, ?_⟩
      · exact not_le_of_lt ((List.pairwise_cons.mp strict).1 later ((runEnds_sublist _ _).subset member))
      · exact rests.imp (congrArg (·.time) ·.symm) fun flat next found =>
          PartialEquivBEq.trans same (runEnds_flat flat next found)
    intro k member
    rcases List.mem_cons.mp member with rfl | later
    · exact here
    · have onward := (List.pairwise_cons.mp strict).2
      have ahead : previous.time < x.time := (List.pairwise_cons.mp strict).1 x List.mem_cons_self
      have values : ∀ k ∈ x :: behind, (k.value == k.value) = true :=
        fun k member => defined k (List.mem_cons_of_mem _ member)
      rw [runEnds_cons]
      split
      next found =>
        have still := (inside_iff.mp found).1
        exact ih (PartialEquivBEq.trans same still) (le_trans reached (le_of_lt ahead)) onward values
          (Or.inr (inside_next found)) k later
      next =>
        have passed := ih (values x List.mem_cons_self) (le_defined (le_of_lt ahead)).2 onward values (Or.inl rfl) k later
        exact passed.behind [kept]

theorem simplify_passes {c : Channel α V} {tolerance : α} (lossless : tolerance ≤ 0.0) (deviation : Deviation α V)
    (strict : c.keyframes.Pairwise (·.time < ·.time)) (defined : ∀ k ∈ c.keyframes, (k.value == k.value) = true)
    (times : ∀ k ∈ c.keyframes, k.time ≤ k.time) {k : Keyframe α V} (member : k ∈ c.keyframes) :
    Passes (c.simplify tolerance deviation).keyframes k.time k.value := by
  obtain ⟨first, behind, shape⟩ := List.exists_cons_of_ne_nil (List.ne_nil_of_mem member)
  rw [simplify_lossless lossless deviation shape]
  rw [shape] at strict defined times member
  exact runEnds_passes (defined first List.mem_cons_self) (times first List.mem_cons_self) strict defined (Or.inl rfl) k
    member

end Simplify

section Transitions
variable {previous next k : Keyframe α V} {front back behind : List (Keyframe α V)} {time : α} {value : V}

theorem Passes.ne_nil {keyframes : List (Keyframe α V)} (passes : Passes keyframes time value) : keyframes ≠ [] := by
  obtain ⟨front, k, back, rfl, _⟩ := passes
  simp

theorem Passes.begun [OrderLaws α] (passes : Passes (next :: behind) time value) (ordered : Ordered (next :: behind)) :
    next.time ≤ time := by
  obtain ⟨front, k, back, split, reached, _⟩ := passes
  cases front with
  | nil => exact (List.cons.inj split).1 ▸ reached
  | cons other front =>
    obtain ⟨rfl, rfl⟩ := List.cons.inj split
    exact le_trans ((List.pairwise_cons.mp ordered).1 k (List.mem_append_right front List.mem_cons_self)) reached

/-- Where the next keyframe has been reached, what lies in front of it no longer matters. -/
theorem Passes.onward [OrderLaws α] (passes : Passes (previous :: next :: behind) time value)
    (ordered : Ordered (next :: behind)) :
    (next.time ≤ time ∧ Passes (next :: behind) time value) ∨
      (¬next.time ≤ time ∧ (previous.value == value) = true ∧
        (time = previous.time ∨ (previous.value == next.value) = true)) := by
  obtain ⟨front, k, back, split, reached, ahead, same, rests⟩ := passes
  cases front with
  | nil =>
    obtain ⟨rfl, rfl⟩ := List.cons.inj split
    exact Or.inr ⟨ahead next List.mem_cons_self, same, rests.imp_right fun flat => flat next rfl⟩
  | cons first front =>
    obtain ⟨rfl, rest⟩ := List.cons.inj split
    have passes : Passes (next :: behind) time value := ⟨front, k, back, rest, reached, ahead, same, rests⟩
    exact Or.inl ⟨passes.begun ordered, passes⟩

theorem Passes.single (passes : Passes [previous] time value) : (previous.value == value) = true := by
  obtain ⟨front, k, back, split, _, _, same, _⟩ := passes
  have member : k ∈ [previous] := split ▸ List.mem_append_right _ List.mem_cons_self
  exact List.mem_singleton.mp member ▸ same

variable [OrderLaws α]

theorem transitions_waits {force : Bool} (ordered : Ordered (next :: behind)) (ahead : ¬next.time ≤ time) :
    current? (transitions force none next behind) time = none := by
  have successive : Successive next.time (transitions force none next behind) := transitions_successive ordered nofun
  exact current?_eq_none.mpr fun p member begun => ahead (le_trans (successive.bounds member).1 begun)

omit [BEq V] in
theorem during_past (blend : Blend α V) {p : Pair α V} (past : p.stop.time ≤ time) :
    p.during blend time = p.stop.value := if_neg fun early => not_le_of_lt early past

omit [BEq V] [OrderLaws α] in
private theorem current?_last {pairs : List (Pair α V)} {p : Pair α V} (begun : p.start.time ≤ time) :
    current? (pairs ++ [p]) time = some p := current?_behind begun (List.forall_mem_nil _)

/-- The current pair shows the value; without one, something else is known. -/
def Shows (blend : Blend α V) (time : α) (value : V) (waiting : Prop) : Option (Pair α V) → Prop
  | some p => (p.during blend.anchored time == value) = true
  | none => waiting

omit [OrderLaws α] in
private theorem Shows.imp {blend : Blend α V} {waiting other : Prop} {current : Option (Pair α V)}
    (shows : Shows blend time value waiting current) (implies : waiting → other) :
    Shows blend time value other current := by
  cases current with
  | some p => exact shows
  | none => exact implies shows

omit [OrderLaws α] in
private theorem Shows.or {blend : Blend α V} {waiting other : Prop} {behind front : Option (Pair α V)}
    (shows : Shows blend time value waiting behind) (decides : waiting → Shows blend time value other front) :
    Shows blend time value other (behind.or front) := by
  cases behind with
  | some p => exact shows
  | none => exact decides shows

private theorem closed_shows (blend : Blend α V) {step : Option (Keyframe α V)} (begun : previous.time ≤ time)
    (opened : ∀ s ∈ step, (s.time == previous.time) = true) (same : (previous.value == value) = true) :
    Shows blend time value (step = none ∧ (previous.value == value) = true)
      (current? (step.toList.map (⟨·, previous⟩)) time) := by
  cases step with
  | none => exact ⟨rfl, same⟩
  | some s =>
    have current : current? ([] ++ [⟨s, previous⟩]) time = some ⟨s, previous⟩ :=
      current?_last (le_trans (le_of_beq (opened s rfl)) begun)
    rw [Option.toList_some, List.map_singleton, ← List.nil_append [_], current, Shows, during_past _ begun]
    exact same

private theorem moved_shows (blend : Blend α V) (ordered : Ordered (previous :: next :: behind))
    (unmoved : Unmoved (previous :: next :: behind)) (begun : previous.time ≤ previous.time)
    (ahead : ¬next.time ≤ previous.time) : Pair.during blend.anchored ⟨previous, next⟩ previous.time = previous.value := by
  have ordered := (List.pairwise_cons.mp ordered).1 next List.mem_cons_self
  have moved : previous.time < next.time := lt_of_not_le begun (le_defined ordered).2 ahead
  have still := unmoved previous List.mem_cons_self next (List.mem_cons_of_mem _ List.mem_cons_self) moved
  rw [Pair.during, if_pos moved, steady, Blend.anchored, still, Bool.or_true, if_pos rfl]

variable [PartialEquivBEq V]

/-- Of the pairs behind `previous` the current one shows what is passed; if none has begun, the
value has not changed since `previous`. -/
theorem transitions_show (blend : Blend α V) {step : Option (Keyframe α V)} (ordered : Ordered (previous :: behind))
    (opened : ∀ s ∈ step, (s.time == previous.time) = true) (unmoved : Unmoved (previous :: behind))
    (passes : Passes (previous :: behind) time value) (begun : previous.time ≤ time) :
    Shows blend time value (step = none ∧ (previous.value == value) = true)
      (current? (transitions false step previous behind) time) := by
  induction behind generalizing step previous with
  | nil => exact closed_shows blend begun opened passes.single
  | cons next behind ih =>
    have later : Ordered (next :: behind) := (List.pairwise_cons.mp ordered).2
    have ways : Unmoved (next :: behind) :=
      fun a first b second => unmoved a (List.mem_cons_of_mem _ first) b (List.mem_cons_of_mem _ second)
    have resumed (passes : Passes (next :: behind) time value) (reached : next.time ≤ time) :=
      @ih next none later nofun ways passes reached
    rcases transition_cases previous next with ⟨differ, instant⟩ | flat | ⟨differ, apart⟩
    · rw [transitions_step differ instant]
      rcases passes.onward later with ⟨reached, passes⟩ | ⟨ahead, _⟩
      · have shown := ih later (opened_onward opened instant) ways passes reached
        exact shown.imp fun waiting => absurd waiting.1 (Option.some_ne_none _)
      · exact absurd (le_trans (ge_of_beq instant) begun) ahead
    · rw [transitions_flat flat, current?_append]
      rcases passes.onward later with ⟨reached, passes⟩ | ⟨ahead, same, _⟩
      · refine (resumed passes reached).or fun waiting => ?_
        exact closed_shows blend begun opened (PartialEquivBEq.trans flat waiting.2)
      · rw [transitions_waits later ahead]
        exact closed_shows blend begun opened same
    · rw [transitions_moved differ apart, List.append_cons, current?_append, current?_last (by exact begun)]
      rcases passes.onward later with ⟨reached, passes⟩ | ⟨ahead, same, rests⟩
      · refine (resumed passes reached).or fun waiting => ?_
        rw [Shows, during_past _ reached]
        exact waiting.2
      · rw [transitions_waits later ahead, Option.none_or, Shows]
        rcases rests with rfl | equal
        · rw [moved_shows blend ordered unmoved begun ahead]
          exact same
        · exact absurd (differ.symm.trans equal) Bool.false_ne_true

omit [Scalar α] [BEq V] [OrderLaws α] [PartialEquivBEq V] in
theorem opened_members {step : Option (Keyframe α V)} (member : k ∈ (some (step.getD previous)).toList ++ next :: behind) :
    k ∈ step.toList ++ previous :: next :: behind := by
  cases step with
  | none => exact member
  | some s => exact ((List.sublist_cons_self previous _).cons_cons s).subset member

omit [OrderLaws α] in
/-- Without hold markers the first pair starts at the value where the walk started. -/
theorem transitions_front {force : Bool} {step : Option (Keyframe α V)}
    (free : ∀ k ∈ step.toList ++ previous :: behind, k.hold = false)
    (defined : ∀ k ∈ step.toList ++ previous :: behind, (k.value == k.value) = true) :
    ∀ p ∈ (transitions force step previous behind).head?, ((step.getD previous).value == p.start.value) = true := by
  induction behind generalizing step previous with
  | nil =>
    cases step with
    | none =>
      intro p found
      exact absurd found (Option.not_mem_none p)
    | some s =>
      rintro _ ⟨⟩
      exact defined s List.mem_cons_self
  | cons next behind ih =>
    rcases forced_cases force previous next with ⟨differ, instant⟩ | ⟨stated, apart⟩ | ⟨flat, rfl⟩
    · rw [transitions_step differ instant]
      exact ih (fun k member => free k (opened_members member)) fun k member => defined k (opened_members member)
    · rw [transitions_stated stated apart]
      cases step with
      | none =>
        rintro _ ⟨⟩
        exact defined previous List.mem_cons_self
      | some s =>
        rw [Option.filter, free s List.mem_cons_self]
        rintro _ ⟨⟩
        exact defined s List.mem_cons_self
    · rw [transitions_flat flat]
      cases step with
      | none =>
        have first := @ih next none (fun k member => free k (List.mem_cons_of_mem _ member))
          fun k member => defined k (List.mem_cons_of_mem _ member)
        intro p found
        exact PartialEquivBEq.trans flat (first p found)
      | some s =>
        rintro _ ⟨⟩
        exact defined s List.mem_cons_self

end Transitions

section Edited
variable {edit : V → V} {keyframes : List (Keyframe α V)}

omit [BEq V] in
theorem Ordered.edited (ordered : Ordered keyframes) (edit : V → V) : Ordered (edited edit keyframes) :=
  List.pairwise_map.mpr ordered

omit [BEq V] in
theorem Unmoved.edited (unmoved : Unmoved keyframes) (edit : V → V) : Unmoved (edited edit keyframes) := by
  intro a first b second
  obtain ⟨before, start, rfl⟩ := List.mem_map.mp first
  obtain ⟨after, stop, rfl⟩ := List.mem_map.mp second
  exact unmoved before start after stop

theorem pairs_edited {c : Channel α V} {rest : V} {p : Pair α V} (member : p ∈ c.pairs { rest, edit }) :
    (∃ v, p.start.value = edit v) ∧ ∃ v, p.stop.value = edit v := by
  have both : BothWithin (fun _ => True) (fun value => ∃ v, value = edit v) (c.pairs { rest, edit }) :=
    pairs_within (fun k _ => ⟨trivial, k.value, rfl⟩) nofun nofun
  exact ⟨(both p member).1.2, (both p member).2.2⟩

variable [OrderLaws α] {time : α} {value : V}

/-- A channel that never leaves one value shows it, by its rest value or by a pair of its own. -/
private theorem constant_shows [PartialEquivBEq V] (blend : Blend α V) (rest : V) {first last : Keyframe α V}
    (begun : first.time ≤ time) (same : (first.value == value) = true) :
    (replay blend.anchored rest (constant { rest, edit } first last) time == value) = true := by
  rw [constant]
  split
  · have current : current? ([] ++ [⟨first, first⟩]) time = some ⟨first, first⟩ := current?_last begun
    have held : replay blend.anchored rest [⟨first, first⟩] time = first.value :=
      (replay_current _ _ current).trans (during_past _ begun)
    exact (congrArg (· == value) held).trans same
  next resting =>
    have resting : (first.value == rest) = true := by simpa [Keyframe.atTime, bne] using resting
    exact PartialEquivBEq.trans (PartialEquivBEq.symm resting) same

/-- The pairs of a channel without hold markers show what its curve passes, once it is edited. -/
theorem pairs_show [PartialEquivBEq V] (blend : Blend α V) (rest : V) {c : Channel α V} (ordered : Ordered c.keyframes)
    (free : ∀ k ∈ c.keyframes, k.hold = false) (defined : ∀ k ∈ c.keyframes, (edit k.value == edit k.value) = true)
    (unmoved : Unmoved c.keyframes) (passes : Passes (edited edit c.keyframes) time value) :
    (replay blend.anchored rest (c.pairs { rest, edit }) time == value) = true := by
  have order := ordered.edited edit
  have ways := unmoved.edited edit
  have released : ∀ k ∈ edited edit c.keyframes, k.hold = false := by
    intro k member
    obtain ⟨k, found, rfl⟩ := List.mem_map.mp member
    exact free k found
  have values : ∀ k ∈ edited edit c.keyframes, (k.value == k.value) = true := by
    intro k member
    obtain ⟨k, found, rfl⟩ := List.mem_map.mp member
    exact defined k found
  cases shape : edited edit c.keyframes with
  | nil => exact absurd shape passes.ne_nil
  | cons first behind =>
    rw [shape] at order ways released values passes
    have begun := passes.begun order
    have none_open : ∀ s ∈ (none : Option (Keyframe α V)), (s.time == first.time) = true := nofun
    have shown := transitions_show blend order none_open ways passes begun
    rw [pairs_unbounded shape]
    split
    next still =>
      rw [List.isEmpty_iff.mp still] at shown
      exact constant_shows blend rest begun shown.2
    next moving =>
      revert shown
      cases current : current? (transitions false none first behind) time with
      | some p =>
        rw [replay_current _ _ current]
        exact id
      | none =>
        intro waiting
        rw [replay_waiting _ _ current]
        have front := @transitions_front _ _ _ _ first behind _ false none released values
        cases head : (transitions false none first behind).head? with
        | none => exact absurd (List.isEmpty_iff.mpr (List.head?_eq_none_iff.mp head)) moving
        | some p => exact PartialEquivBEq.trans (PartialEquivBEq.symm (front p head)) waiting.2

end Edited

end Tween.Channel
