import Tween.Proofs.Channel.Passing
import Tween.Proofs.Emission.Written

/-! The spans in which a flag is set. Before the last keyframe a time lies in one of them exactly if
the flag is set by the keyframe that has been reached last. -/

namespace Tween.Emission
open Scalar OrderLaws Channel
variable {α : Type} [Scalar α]

def covered (spans : List (α × α)) (time : α) : Bool := spans.any fun (start, stop) => start ≤ time && time < stop

theorem covered_cons (start stop : α) (spans : List (α × α)) (time : α) :
    covered ((start, stop) :: spans) time = ((decide (start ≤ time) && decide (time < stop)) || covered spans time) := rfl

section Steps
variable {start latest : α} {k : Keyframe α Bool} {keyframes : List (Keyframe α Bool)}

omit [Scalar α] in
theorem flagSpansFrom_none : flagSpansFrom none latest (k :: keyframes) =
    flagSpansFrom (if k.value then some k.time else none) k.time keyframes := by
  obtain ⟨time, value, ease, hold⟩ := k
  cases value <;> rfl

omit [Scalar α] in
theorem flagSpansFrom_some : flagSpansFrom (some start) latest (k :: keyframes) =
    if k.value then flagSpansFrom (some start) k.time keyframes
    else (start, k.time) :: flagSpansFrom none k.time keyframes := by
  obtain ⟨time, value, ease, hold⟩ := k
  cases value <;> rfl

private theorem flagSpansFrom_ahead {time : α} {opened : Option α} (ahead : ∀ k ∈ keyframes, ¬k.time ≤ time)
    (waiting : ∀ start ∈ opened, ¬start ≤ time) : covered (flagSpansFrom opened latest keyframes) time = false := by
  induction keyframes generalizing opened latest with
  | nil =>
    cases opened with
    | none => rfl
    | some start =>
      have late := waiting start rfl
      simp [flagSpansFrom, covered, late]
  | cons k keyframes ih =>
    have behind : ∀ k ∈ keyframes, ¬k.time ≤ time := fun k member => ahead k (List.mem_cons_of_mem _ member)
    cases opened with
    | none =>
      rw [flagSpansFrom_none]
      refine ih behind fun start found => ?_
      split at found
      · exact Option.some.inj found ▸ ahead k List.mem_cons_self
      · cases found
    | some start =>
      rw [flagSpansFrom_some]
      split
      · exact ih behind waiting
      · rw [covered_cons, decide_eq_false (waiting start rfl), ih behind (by simp)]
        rfl

private theorem flagSpansFrom_open {time : α} (begun : start ≤ time) (ahead : ∀ k ∈ keyframes, time < k.time)
    (last : keyframes = [] → time < latest) : covered (flagSpansFrom (some start) latest keyframes) time = true := by
  induction keyframes generalizing latest with
  | nil =>
    have inside := last rfl
    simp [flagSpansFrom, covered, begun, inside]
  | cons k keyframes ih =>
    have here := ahead k List.mem_cons_self
    rw [flagSpansFrom_some]
    split
    · exact ih (fun k member => ahead k (List.mem_cons_of_mem _ member)) fun _ => here
    · rw [covered_cons, decide_eq_true begun, decide_eq_true here]
      rfl

end Steps

variable [OrderLaws α] {time : α} {k : Keyframe α Bool} {front back : List (Keyframe α Bool)}

private theorem flagSpansFrom_covered {opened : Option α} {latest : α} (ordered : Ordered (front ++ k :: back))
    (begun : ∀ start ∈ opened, start ≤ time) (reached : k.time ≤ time) (ahead : ∀ later ∈ back, ¬later.time ≤ time)
    (present : back ≠ []) : covered (flagSpansFrom opened latest (front ++ k :: back)) time = k.value := by
  -- Spans that close in front of `k` are over. One that is open there goes on exactly if `k` sets the flag.
  induction front generalizing opened latest with
  | nil =>
    have behind : ∀ later ∈ back, time < later.time := by
      intro later member
      have defined := (le_defined ((List.pairwise_cons.mp ordered).1 later member)).2
      exact lt_of_not_le (le_defined reached).2 defined (ahead later member)
    have past : ¬time < k.time := fun early => not_le_of_lt early reached
    cases opened with
    | none =>
      rw [List.nil_append, flagSpansFrom_none]
      cases k.value with
      | true => exact flagSpansFrom_open reached behind fun none => absurd none present
      | false => exact flagSpansFrom_ahead ahead nofun
    | some start =>
      rw [List.nil_append, flagSpansFrom_some]
      cases k.value with
      | true => exact flagSpansFrom_open (begun start rfl) behind fun none => absurd none present
      | false =>
        rw [if_neg Bool.false_ne_true, covered_cons, decide_eq_false past, Bool.and_false, Bool.false_or]
        exact flagSpansFrom_ahead ahead nofun
  | cons x front ih =>
    obtain ⟨first, ordered⟩ := List.pairwise_cons.mp ordered
    have passed : x.time ≤ time := le_trans (first k (List.mem_append_right _ List.mem_cons_self)) reached
    have past : ¬time < x.time := fun early => not_le_of_lt early passed
    cases opened with
    | none =>
      rw [List.cons_append, flagSpansFrom_none]
      refine ih ordered fun start found => ?_
      split at found
      · exact Option.some.inj found ▸ passed
      · cases found
    | some start =>
      rw [List.cons_append, flagSpansFrom_some]
      split
      · exact ih ordered begun
      · rw [covered_cons, decide_eq_false past, Bool.and_false, Bool.false_or]
        exact ih ordered nofun

/-- Before the last keyframe a flag is set as the one that has been reached last says. -/
theorem flagSpans_reached (ordered : Ordered (front ++ k :: back)) (reached : k.time ≤ time)
    (ahead : ∀ later ∈ back, ¬later.time ≤ time) (present : back ≠ []) :
    covered (flagSpans (front ++ k :: back)) time = k.value := by
  have spans : flagSpans (front ++ k :: back) =
      flagSpansFrom none ((front ++ k :: back).head (by simp)).time (front ++ k :: back) := by
    cases front <;> rfl
  have fresh : ∀ start ∈ (none : Option α), start ≤ time := nofun
  rw [spans, flagSpansFrom_covered ordered fresh reached ahead present]

/-- A flag is set where its curve says so. -/
theorem flagSpans_covered {keyframes : List (Keyframe α Bool)} {value : Bool} (ordered : Ordered keyframes)
    (passes : Passes keyframes time value) (last : ∀ k ∈ keyframes.getLast?, ¬k.time ≤ time) :
    covered (flagSpans keyframes) time = value := by
  obtain ⟨front, k, back, rfl, reached, ahead, same, _⟩ := passes
  have present : back ≠ [] := by
    rintro rfl
    exact last k (by simp) reached
  exact (flagSpans_reached ordered reached ahead present).trans (eq_of_beq same)

private theorem flagSpansFrom_forward {opened : Option α} {latest : α} {keyframes : List (Keyframe α Bool)}
    (ordered : Ordered keyframes) (defined : ∀ k ∈ keyframes, k.time ≤ k.time) (begun : ∀ start ∈ opened, start ≤ latest)
    (reached : ∀ k ∈ keyframes, latest ≤ k.time) :
    ∀ span ∈ flagSpansFrom opened latest keyframes, span.1 ≤ span.2 := by
  induction keyframes generalizing opened latest with
  | nil =>
    intro span member
    obtain ⟨start, found, rfl⟩ := List.mem_map.mp member
    exact begun start (Option.mem_toList.mp found)
  | cons k keyframes ih =>
    obtain ⟨later, ordered⟩ := List.pairwise_cons.mp ordered
    have next {opened : Option α} (begun : ∀ start ∈ opened, start ≤ k.time) :
        ∀ span ∈ flagSpansFrom opened k.time keyframes, span.1 ≤ span.2 :=
      ih ordered (fun other member => defined other (List.mem_cons_of_mem _ member)) begun later
    cases opened with
    | none =>
      rw [flagSpansFrom_none]
      refine next fun start found => ?_
      split at found
      · exact Option.some.inj found ▸ defined k List.mem_cons_self
      · cases found
    | some start =>
      have here := le_trans (begun start rfl) (reached k List.mem_cons_self)
      rw [flagSpansFrom_some]
      split
      · exact next fun _ found => Option.some.inj found ▸ here
      · exact List.forall_mem_cons.mpr ⟨here, next nofun⟩

/-- No span of a flag ends before it starts. -/
theorem flagSpans_forward {keyframes : List (Keyframe α Bool)} (ordered : Ordered keyframes)
    (defined : ∀ k ∈ keyframes, k.time ≤ k.time) : ∀ span ∈ flagSpans keyframes, span.1 ≤ span.2 := by
  cases keyframes with
  | nil => exact List.forall_mem_nil _
  | cons k keyframes =>
    refine flagSpansFrom_forward ordered defined nofun fun other member => ?_
    rcases List.mem_cons.mp member with rfl | later
    · exact defined _ List.mem_cons_self
    · exact (List.pairwise_cons.mp ordered).1 other later

section Times
variable {holds : α → Prop}

omit [Scalar α] [OrderLaws α] in
private theorem flagSpansFrom_times {opened : Option α} {latest : α} {keyframes : List (Keyframe α Bool)}
    (begun : ∀ start ∈ opened, holds start) (reached : holds latest) (times : ∀ k ∈ keyframes, holds k.time) :
    ∀ span ∈ flagSpansFrom opened latest keyframes, holds span.1 ∧ holds span.2 := by
  have later {k : Keyframe α Bool} {rest : List (Keyframe α Bool)} (times : ∀ other ∈ k :: rest, holds other.time) :
      holds k.time ∧ ∀ other ∈ rest, holds other.time := List.forall_mem_cons.mp times
  fun_induction flagSpansFrom opened latest keyframes with
  | case1 opened latest =>
    intro span member
    obtain ⟨start, found, rfl⟩ := List.mem_map.mp member
    exact ⟨begun start (Option.mem_toList.mp found), reached⟩
  | case2 latest k rest set ih =>
    exact ih (fun start found => Option.some.inj found ▸ (later times).1) (later times).1 (later times).2
  | case3 latest k rest start unset ih =>
    exact List.forall_mem_cons.mpr ⟨⟨begun start rfl, (later times).1⟩, ih nofun (later times).1 (later times).2⟩
  | case4 opened latest k rest _ _ ih => exact ih begun (later times).1 (later times).2

omit [Scalar α] [OrderLaws α] in
/-- The spans of a flag begin and end at keyframes. -/
theorem flagSpans_times {keyframes : List (Keyframe α Bool)} (times : ∀ k ∈ keyframes, holds k.time) :
    ∀ span ∈ flagSpans keyframes, holds span.1 ∧ holds span.2 := by
  cases keyframes with
  | nil => exact List.forall_mem_nil _
  | cons k keyframes => exact flagSpansFrom_times nofun (times k List.mem_cons_self) times

end Times

omit [OrderLaws α] in
private theorem flagSpansFrom_apart {opened : Option α} {latest : α} {keyframes : List (Keyframe α Bool)}
    (ordered : Ordered keyframes) (defined : ∀ k ∈ keyframes, k.time ≤ k.time) :
    (flagSpansFrom opened latest keyframes).Pairwise (·.2 ≤ ·.1) := by
  induction keyframes generalizing opened latest with
  | nil => cases opened <;> simp [flagSpansFrom]
  | cons k keyframes ih =>
    obtain ⟨here, behind⟩ := List.forall_mem_cons.mp defined
    obtain ⟨later, ordered⟩ := List.pairwise_cons.mp ordered
    cases opened with
    | none =>
      rw [flagSpansFrom_none]
      exact ih ordered behind
    | some start =>
      rw [flagSpansFrom_some]
      split
      · exact ih ordered behind
      · -- What opens from here on opens at this keyframe or at a later one.
        have onward := @flagSpansFrom_times α (k.time ≤ ·) none k.time keyframes nofun here later
        exact List.pairwise_cons.mpr ⟨fun span member => (onward span member).1, ih ordered behind⟩

omit [OrderLaws α] in
/-- No span of a flag starts before the one in front of it has ended. -/
theorem flagSpans_apart {keyframes : List (Keyframe α Bool)} (ordered : Ordered keyframes)
    (defined : ∀ k ∈ keyframes, k.time ≤ k.time) : (flagSpans keyframes).Pairwise (·.2 ≤ ·.1) := by
  cases keyframes with
  | nil => exact List.Pairwise.nil
  | cons k keyframes => exact flagSpansFrom_apart ordered defined

section Closing
variable {start : α} {run : List (Keyframe α Bool)}

omit [Scalar α] [OrderLaws α] in
private theorem flagSpansFrom_run (set : ∀ k ∈ run, k.value = true) {last : Keyframe α Bool}
    (ending : (k :: run).getLast? = some last) : flagSpansFrom (some start) k.time run = [(start, last.time)] := by
  induction run generalizing k with
  | nil =>
    obtain rfl := Option.some.inj ending
    rfl
  | cons next run ih =>
    obtain ⟨here, behind⟩ := List.forall_mem_cons.mp set
    rw [flagSpansFrom_some, if_pos here]
    exact ih behind (by rwa [List.getLast?_cons_cons] at ending)

omit [Scalar α] [OrderLaws α] in
/-- A flag that is set to the end, from where it was set on, has its last span there. -/
private theorem flagSpansFrom_closing (latest : α) {opened : Option α} (unset : ∀ k ∈ front.getLast?, k.value = false)
    (fresh : front = [] → opened = none) (set : ∀ other ∈ k :: run, other.value = true) {last : Keyframe α Bool}
    (ending : (k :: run).getLast? = some last) :
    (flagSpansFrom opened latest (front ++ k :: run)).getLast? = some (k.time, last.time) := by
  obtain ⟨here, behind⟩ := List.forall_mem_cons.mp set
  induction front generalizing opened latest with
  | nil =>
    obtain rfl := fresh rfl
    rw [List.nil_append, flagSpansFrom_none, if_pos here, flagSpansFrom_run behind ending]
    rfl
  | cons x front ih =>
    have alone : front = [] → x.value = false := by
      rintro rfl
      exact unset x rfl
    have onward : ∀ k ∈ front.getLast?, k.value = false := by
      intro k found
      cases front with
      | nil => cases found
      | cons y front => exact unset k (by rwa [List.getLast?_cons_cons])
    cases opened with
    | none =>
      rw [List.cons_append, flagSpansFrom_none]
      exact ih x.time onward fun empty => if_neg (by simp [alone empty])
    | some start =>
      rw [List.cons_append, flagSpansFrom_some]
      split
      next kept => exact ih x.time onward fun empty => absurd kept (by simp [alone empty])
      next => rw [List.getLast?_cons, ih x.time onward fun _ => rfl]; rfl

omit [Scalar α] [OrderLaws α] in
private theorem trailing_run {keyframes : List (Keyframe α Bool)} {last : Keyframe α Bool}
    (ending : keyframes.getLast? = some last) (set : last.value = true) :
    ∃ front k run, keyframes = front ++ k :: run ∧ (∀ other ∈ front.getLast?, other.value = false) ∧
      ∀ other ∈ k :: run, other.value = true := by
  induction keyframes with
  | nil => cases ending
  | cons x rest ih =>
    cases rest with
    | nil =>
      obtain rfl := Option.some.inj ending
      exact ⟨[], x, [], rfl, nofun, List.forall_mem_singleton.mpr set⟩
    | cons y rest =>
      obtain ⟨front, k, run, shape, unset, all⟩ := ih (by rwa [List.getLast?_cons_cons] at ending)
      rw [shape]
      cases front with
      | cons z front => exact ⟨x :: z :: front, k, run, rfl, by rwa [List.getLast?_cons_cons], all⟩
      | nil =>
        cases here : x.value with
        | true => exact ⟨[], x, k :: run, rfl, nofun, List.forall_mem_cons.mpr ⟨here, all⟩⟩
        | false => exact ⟨[x], k, run, rfl, fun other found => Option.some.inj found ▸ here, all⟩

omit [Scalar α] [OrderLaws α] in
/-- A flag that is set by the last keyframe is set up to there, from where it was set on. -/
theorem flagSpans_closing {keyframes : List (Keyframe α Bool)} {last : Keyframe α Bool}
    (ending : keyframes.getLast? = some last) (set : last.value = true) :
    ∃ front k run, keyframes = front ++ k :: run ∧ (∀ other ∈ front.getLast?, other.value = false) ∧
      (∀ other ∈ k :: run, other.value = true) ∧ (flagSpans keyframes).getLast? = some (k.time, last.time) := by
  obtain ⟨front, k, run, rfl, unset, all⟩ := trailing_run ending set
  have final : (k :: run).getLast? = some last := by simpa using ending
  refine ⟨front, k, run, rfl, unset, all, ?_⟩
  cases front with
  | nil => exact flagSpansFrom_closing k.time unset (fun _ => rfl) all final
  | cons x front => exact flagSpansFrom_closing x.time unset nofun all final

end Closing

section Shown
variable {V : Type} {flag : Change α}

/-- Whether one of the commands sets the flag at the time. -/
private def shown (commands : List (Command α)) (flag : Change α) (time : α) : Bool :=
  commands.any fun command => command.change == flag && command.startTime ≤ time && time < command.endTime

omit [OrderLaws α] in
private theorem shown_append (front back : List (Command α)) :
    shown (front ++ back) flag time = (shown front flag time || shown back flag time) := List.any_append

omit [OrderLaws α] in
private theorem shown_map {change : V → V → Change α} (other : ∀ a b, (change a b == flag) = false)
    (pairs : List (Pair α V)) : shown (pairs.map (command change)) flag time = false := by
  rw [shown, List.any_map, List.any_eq_false]
  intro pair _
  simp [command, other]

omit [OrderLaws α] in
private theorem shown_flags (channel : Channel α Bool) (change : Change α) :
    shown (flags channel change) flag time = ((change == flag) && covered (flagSpans channel.keyframes) time) := by
  rw [shown, flags, List.any_map, covered]
  cases same : change == flag with
  | true => simp [Function.comp_def, same]
  | false => simp [Function.comp_def, same]

omit [OrderLaws α] in
/-- A flag is shown where the spans of its channel are. -/
theorem runWith_shows (redundant : Option α → Option α → Pair α α → Bool) (e : Emission α) {script : Script α}
    (fresh : script.commands = []) (flagged : flag = .flipH ∨ flag = .flipV ∨ flag = .additive) (time : α) :
    (e.runWith redundant script).shows flag time =
      ((((.flipH : Change α) == flag) && covered (flagSpans e.tracks.flipH.keyframes) time)
        || (((.flipV : Change α) == flag) && covered (flagSpans e.tracks.flipV.keyframes) time)
        || (((.additive : Change α) == flag) && covered (flagSpans e.tracks.additive.keyframes) time)) := by
  have moved : shown (e.moves script.initialPosition) flag time = false := by
    unfold moves
    dsimp only
    split
    · exact shown_map (by rcases flagged with rfl | rfl | rfl <;> exact fun _ _ => rfl) _
    · split <;> exact shown_map (by rcases flagged with rfl | rfl | rfl <;> exact fun _ _ => rfl) _
  have scaled : shown e.scales flag time = false := by
    unfold scales
    dsimp only
    split <;> exact shown_map (by rcases flagged with rfl | rfl | rfl <;> exact fun _ _ => rfl) _
  have turned : shown e.rotations flag time = false :=
    shown_map (by rcases flagged with rfl | rfl | rfl <;> exact fun _ _ => rfl) _
  have coloured : shown e.colors flag time = false :=
    shown_map (by rcases flagged with rfl | rfl | rfl <;> exact fun _ _ => rfl) _
  have faded (kept : List (Pair α α)) : shown (kept.map (command .fade)) flag time = false :=
    shown_map (by rcases flagged with rfl | rfl | rfl <;> exact fun _ _ => rfl) kept
  change shown (e.runWith redundant script).commands flag time = _
  rw [runWith_script, fresh]
  simp only [shown_append, moved, scaled, turned, coloured, faded, shown_flags]
  rfl

end Shown

end Tween.Emission
