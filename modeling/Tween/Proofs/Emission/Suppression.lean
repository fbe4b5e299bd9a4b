import Tween.Proofs.Capture.Times
import Tween.Proofs.Channel.PairOrder
import Tween.Proofs.Emission.Written

/-! Fades that emission leaves out. Each is judged by what the sink has when its turn comes, and
commands that come later can reach beyond that, so a fade that seemed to show nothing may have
been the one to decide. Its place is taken by its neighbours among the kept fades. -/

namespace Tween
variable {α V : Type} [Scalar α]

/-- The same number, or one that compares equal to it. -/
def Same (a b : α) : Prop := a = b ∨ (a == b) = true

namespace Same
open Scalar OrderLaws
variable [OrderLaws α] {a b c : α}

omit [OrderLaws α] in
theorem refl (a : α) : Same a a := Or.inl rfl

theorem symm (same : Same a b) : Same b a := same.imp Eq.symm PartialEquivBEq.symm

theorem trans (first : Same a b) (second : Same b c) : Same a c := by
  rcases first with rfl | first
  · exact second
  · rcases second with rfl | second
    · exact Or.inr first
    · exact Or.inr (PartialEquivBEq.trans first second)

theorem congr_right (same : Same b c) : Same a b ↔ Same a c :=
  ⟨fun left => left.trans same, fun right => right.trans same.symm⟩

end Same

namespace Emission
open Scalar OrderLaws Channel

/-- What shows in place of a fade that is left out: what the kept fades in front of it end with,
or else what those behind it start with. -/
def instead (front back : List (Pair α α)) : α :=
  match front.getLast?, back.head? with
  | some last, _ => last.stop.value
  | none, some first => first.start.value
  | none, none => 1.0

section Misses
variable {σ : Type} [Sink σ α]

/-- A fade is left out whose end value would show at some time from `start` to `stop`, or the
first one whose start value would show ahead of it, and another value shows instead. The latest of
`start` and the fade's own start is the time to look at. -/
def Misses (sink : σ) (fades : List (Pair α α)) (start stop : α) : Prop :=
  ∃ front fade back, fades = front ++ fade :: back ∧
    let reached := pushFades showsNothing sink front
    let shown := instead (keptFades showsNothing sink front) (keptFades showsNothing reached back)
    showsNothing (Sink.startTime reached) (Sink.endTime reached) fade = true ∧
      ((∃ time, (time = start ∨ time = fade.start.time) ∧ start ≤ time ∧ time < stop ∧ fade.start.time ≤ time ∧
          (∀ later ∈ back, ¬later.start.time ≤ time) ∧ ¬Same shown fade.stop.value) ∨
        (front = [] ∧ start < stop ∧ (∀ later ∈ fade :: back, ¬later.start.time ≤ start) ∧
          ¬Same shown fade.start.value))

end Misses

section Replay
variable [OrderLaws α] {blend : Blend α α} {fade : Pair α α} {front back : List (Pair α α)} {time : α}

private theorem replay_instead (blend : Blend α α)
    (ended : ∀ p ∈ front, p.start.time ≤ time ∧ p.stop.time ≤ time) (waiting : ∀ p ∈ back, ¬p.start.time ≤ time) :
    replay blend 1.0 (front ++ back) time = instead front back := by
  cases found : front.getLast? with
  | none =>
    obtain rfl := List.getLast?_eq_none_iff.mp found
    rw [List.nil_append, replay_waiting _ _ (current?_eq_none.mpr waiting), instead, found]
    cases back.head? <;> rfl
  | some last =>
    obtain ⟨begun, past⟩ := ended last (List.mem_of_mem_getLast? found)
    obtain ⟨earlier, rfl⟩ := List.getLast?_eq_some_iff.mp found
    have current : current? (earlier ++ [last] ++ back) time = some last := by
      rw [List.append_assoc]
      exact current?_behind begun waiting
    rw [replay_current _ _ current, Pair.during, if_neg fun early => not_le_of_lt early past, instead, found]

/-- A fade that is left out has nothing but its end value to show. -/
private theorem during_dropped (blend : Blend α α) {sinkStart sinkEnd : Option α}
    (dropped : showsNothing sinkStart sinkEnd fade = true) (begun : fade.start.time ≤ time) :
    Same (fade.during blend.anchored time) fade.stop.value := by
  rw [Pair.during]
  split
  next early =>
    have flat : (fade.start.value == fade.stop.value) = true := by
      rcases showsNothing_cases dropped with flat | ⟨_, _, still, _⟩
      · exact flat
      · exact absurd (le_trans (ge_of_beq still) begun) (not_le_of_lt early)
    rw [steady, Blend.anchored, flat, Bool.true_or, if_pos rfl]
    exact Or.inr flat
  next => exact Same.refl _

end Replay

variable [OrderLaws α] {σ : Type} [Sink σ α] {sink : σ} {fades : List (Pair α α)}

private theorem replay_begun_iff (blend : Blend α α) {front back : List (Pair α α)} {fade : Pair α α} {time : α}
    (follows : (front ++ fade :: back).Pairwise Follows)
    (dropped : showsNothing (Sink.startTime (pushFades showsNothing sink front))
      (Sink.endTime (pushFades showsNothing sink front)) fade = true)
    (begun : fade.start.time ≤ time) (last : ∀ later ∈ back, ¬later.start.time ≤ time) :
    Same (replay blend.anchored 1.0 (keptFades showsNothing sink (front ++ fade :: back)) time)
        (replay blend.anchored 1.0 (front ++ fade :: back) time) ↔
      Same (instead (keptFades showsNothing sink front)
        (keptFades showsNothing (pushFades showsNothing sink front) back)) fade.stop.value := by
  have kept : replay blend.anchored 1.0 (keptFades showsNothing sink (front ++ fade :: back)) time =
      instead (keptFades showsNothing sink front) (keptFades showsNothing (pushFades showsNothing sink front) back) := by
    rw [keptFades_append, keptFades, if_pos dropped]
    refine replay_instead _ (fun p member => ?_) fun p member => ?_
    · have earlier := (keptFades_sublist _ _ _).subset member
      exact (List.pairwise_append.mp follows).2.2 p earlier fade List.mem_cons_self time begun
    · exact last p ((keptFades_sublist _ _ _).subset member)
  rw [kept, replay_current _ _ (current?_behind begun last)]
  exact (during_dropped blend dropped begun).congr_right

private theorem replay_ahead_iff (blend : Blend α α) {fade : Pair α α} {back : List (Pair α α)} {time : α}
    (dropped : showsNothing (Sink.startTime sink) (Sink.endTime sink) fade = true)
    (waiting : ∀ later ∈ fade :: back, ¬later.start.time ≤ time) :
    Same (replay blend.anchored 1.0 (keptFades showsNothing sink (fade :: back)) time)
        (replay blend.anchored 1.0 (fade :: back) time) ↔
      Same (instead [] (keptFades showsNothing sink back)) fade.start.value := by
  have kept : replay blend.anchored 1.0 (keptFades showsNothing sink (fade :: back)) time =
      instead [] (keptFades showsNothing sink back) := by
    rw [keptFades, if_pos dropped]
    refine @replay_instead _ _ _ [] _ _ _ (List.forall_mem_nil _) fun p member => ?_
    exact waiting p (List.mem_cons_of_mem _ ((keptFades_sublist _ _ _).subset member))
  rw [kept, replay_waiting _ _ (current?_eq_none.mpr waiting)]
  rfl

omit [OrderLaws α] in
private theorem replay_begun_kept (blend : Blend α α) {front back : List (Pair α α)} {fade : Pair α α} {time : α}
    (stays : showsNothing (Sink.startTime (pushFades showsNothing sink front))
      (Sink.endTime (pushFades showsNothing sink front)) fade = false)
    (begun : fade.start.time ≤ time) (last : ∀ later ∈ back, ¬later.start.time ≤ time) :
    replay blend.anchored 1.0 (keptFades showsNothing sink (front ++ fade :: back)) time =
      replay blend.anchored 1.0 (front ++ fade :: back) time := by
  rw [keptFades_append, keptFades, if_neg (Bool.not_eq_true _ ▸ stays), replay_current _ _ (current?_behind begun last)]
  refine replay_current _ _ (current?_behind begun fun later member => ?_)
  exact last later ((keptFades_sublist _ _ _).subset member)

omit [OrderLaws α] in
private theorem replay_ahead_kept (blend : Blend α α) {fade : Pair α α} {back : List (Pair α α)} {time : α}
    (stays : showsNothing (Sink.startTime sink) (Sink.endTime sink) fade = false)
    (waiting : ∀ later ∈ fade :: back, ¬later.start.time ≤ time) :
    replay blend.anchored 1.0 (keptFades showsNothing sink (fade :: back)) time =
      replay blend.anchored 1.0 (fade :: back) time := by
  have fewer := (keptFades_sublist showsNothing (Sink.push sink (command .fade fade)) back).cons_cons fade
  rw [keptFades, if_neg (Bool.not_eq_true _ ▸ stays),
    replay_waiting _ _ (current?_eq_none.mpr fun later member => waiting later (fewer.subset member)),
    replay_waiting _ _ (current?_eq_none.mpr waiting)]
  rfl

/-- A dropped fade that would show at some time would show at the first such time. -/
private theorem Misses.of_begun {front back : List (Pair α α)} {fade : Pair α α} {start stop time : α}
    (dropped : showsNothing (Sink.startTime (pushFades showsNothing sink front))
      (Sink.endTime (pushFades showsNothing sink front)) fade = true)
    (late : start ≤ time) (early : time < stop) (begun : fade.start.time ≤ time)
    (last : ∀ later ∈ back, ¬later.start.time ≤ time)
    (differ : ¬Same (instead (keptFades showsNothing sink front)
      (keptFades showsNothing (pushFades showsNothing sink front) back)) fade.stop.value) :
    Misses sink (front ++ fade :: back) start stop := by
  refine ⟨front, fade, back, rfl, dropped, Or.inl ?_⟩
  by_cases before : fade.start.time ≤ start
  · refine ⟨start, Or.inl rfl, (le_defined late).1, lt_of_le_of_lt late early, before, ?_, differ⟩
    intro later member earlier
    exact last later member (le_trans earlier late)
  · have after := (le_total (le_defined begun).1 (le_defined late).1).resolve_left before
    refine ⟨fade.start.time, Or.inr rfl, after, lt_of_le_of_lt begun early, (le_defined begun).1, ?_, differ⟩
    intro later member earlier
    exact last later member (le_trans earlier begun)

/-- Leaving out fades changes nothing from `start` to `stop` unless one is missed. -/
theorem replay_kept_iff (blend : Blend α α) (follows : fades.Pairwise Follows) (start stop : α) :
    (∀ time, start ≤ time → time < stop → Same (replay blend.anchored 1.0 (keptFades showsNothing sink fades) time)
        (replay blend.anchored 1.0 fades time)) ↔
      ¬Misses sink fades start stop := by
  constructor
  · rintro same ⟨front, fade, back, rfl, dropped,
      ⟨time, _, late, early, begun, last, differ⟩ | ⟨rfl, short, waiting, differ⟩⟩
    · exact differ ((replay_begun_iff blend follows dropped begun last).mp (same time late early))
    · have defined := (le_defined (le_of_lt short)).1
      exact differ ((replay_ahead_iff blend dropped waiting).mp (same start defined short))
  · intro found time late early
    by_contra differ
    apply found
    cases current : current? fades time with
    | some fade =>
      obtain ⟨front, back, rfl, begun, last⟩ := current?_eq_some current
      cases dropped : showsNothing (Sink.startTime (pushFades showsNothing sink front))
          (Sink.endTime (pushFades showsNothing sink front)) fade with
      | false => exact absurd (Or.inl (replay_begun_kept blend dropped begun last)) differ
      | true =>
        rw [replay_begun_iff blend follows dropped begun last] at differ
        exact .of_begun dropped late early begun last differ
    | none =>
      have waiting := current?_eq_none.mp current
      cases fades with
      | nil => exact absurd (Same.refl _) differ
      | cons fade back =>
        cases dropped : showsNothing (Sink.startTime sink) (Sink.endTime sink) fade with
        | false => exact absurd (Or.inl (replay_ahead_kept blend dropped waiting)) differ
        | true =>
          rw [replay_ahead_iff blend dropped waiting] at differ
          refine ⟨[], fade, back, rfl, dropped, Or.inr ⟨rfl, lt_of_le_of_lt late early, ?_, differ⟩⟩
          intro later member begun
          exact waiting later member (le_trans begun late)

end Emission

namespace Compiler
open Emission

theorem Filled.fades_follow {c : Compiler Float} (filled : c.Filled) (script : Script Float)
    (sizes : String → Option (Vec2 Float)) (options : PassOptions Float) :
    (c.emission script sizes options).fades.Pairwise Channel.Follows := by
  apply Channel.pairs_follow _
  cases shift : options.timeOffset.isNaN with
  | false => exact Or.inl (Capture.run_assembled _ _ (filled.timed shift) _).2.opacity
  | true =>
    -- Without a defined offset no keyframe has a defined time.
    have placed : (c.emission script sizes options).tracks.Each (Channel.At fun time => ¬time ≤ time) := by
      refine Capture.run_at _ fun s _ defined => ?_
      have undefined := Binary64.add_undefined s.time shift
      exact Bool.false_ne_true ((Binary64.le_iff.mp defined).1.symm.trans undefined)
    exact Or.inr placed.opacity

/-- A pass shows the opacity it would show with every fade, all the time that its commands last,
exactly if none of the fades that it leaves out is missed. -/
theorem suppression_shown_iff (c : Compiler Float) (filled : c.Filled) (script : Script Float)
    (fresh : script.commands = []) (sizes : String → Option (Vec2 Float)) (options : PassOptions Float)
    (blend : Blend Float Float) :
    let emission := c.emission script sizes options
    let suppressed : Script Float := (c.compile script sizes options).2.1
    let complete : Script Float := c.passWith script sizes options fun _ _ _ => false
    (∀ start ∈ suppressed.startTime, ∀ stop ∈ suppressed.endTime, ∀ time, start ≤ time → time < stop →
        Same (replay blend.anchored 1.0 (suppressed.pairs Change.opacities?) time)
          (replay blend.anchored 1.0 (complete.pairs Change.opacities?) time)) ↔
      ∀ start ∈ suppressed.startTime, ∀ stop ∈ suppressed.endTime,
        ¬Misses (emission.ahead script) emission.fades start stop := by
  intro emission suppressed complete
  have follows := filled.fades_follow script sizes options
  cases begun : (c.capture script sizes options.timeOffset).begun with
  | false =>
    have nothing : suppressed.startTime = none := by
      have same : suppressed = script := (compile_sink ..).trans (if_neg (by simp [begun]))
      rw [same, Script.startTime, fresh]
      rfl
    rw [nothing]
    exact iff_of_true nofun nofun
  | true =>
    have left : suppressed.pairs Change.opacities? =
        (keptFades showsNothing (emission.ahead script) emission.fades).map (Pair.plain id) := by
      have emitted : suppressed = emission.runWith showsNothing script := (compile_sink ..).trans (if_pos begun)
      rw [emitted, runWith_opacities _ _ fresh]
    have all : complete.pairs Change.opacities? = emission.fades.map (Pair.plain id) := by
      have emitted : complete = emission.runWith (fun _ _ _ => false) script := if_pos begun
      rw [emitted, runWith_opacities _ _ fresh, keptFades_all]
    have plain (pairs : List (Pair Float Float)) (time : Float) :
        replay blend.anchored 1.0 (pairs.map (Pair.plain id)) time = replay blend.anchored 1.0 pairs time :=
      replay_map _ _ (Pair.plain id) (fun _ => ⟨rfl, rfl⟩) (fun _ => ⟨rfl, rfl⟩) _ _
    refine forall₂_congr fun start _ => forall₂_congr fun stop _ => ?_
    simp only [left, all, plain]
    exact replay_kept_iff blend follows start stop

/-- Half faded after one second, gone at that instant, and back after five. -/
def halfGone : Compiler Float where
  config := { (.standard : Config Float) with tolerance := ⟨0.0, 0.0, 0.0, 0.0, 0.0⟩ }
  states := [(0.0, 1.0), (1.0, 0.5), (1.0, 0.0), (5.0, 1.0), (6.0, 1.0)].map fun (time, opacity) =>
    { State.neutral time with position := canvasCenter, opacity }

private theorem halfGone_evaluates :
    let suppressed : Script Float := (halfGone.compile blankScript (fun _ => none) .standard).2.1
    let complete : Script Float := halfGone.passWith blankScript (fun _ => none) .standard fun _ _ _ => false
    (suppressed.startTime = some 0.0 ∧ suppressed.endTime = some 6.0) ∧
      replay Blend.scalar.anchored 1.0 (suppressed.pairs Change.opacities?) 3.0 = 0.5 ∧
      replay Blend.scalar.anchored 1.0 (complete.pairs Change.opacities?) 3.0 = 0.0 := by
  decide +kernel

private theorem half_differs : ¬Same (0.5 : Float) 0.0 := by
  rintro (same | same)
  · exact absurd same (by decide)
  · exact absurd same (by decide)

theorem suppression_shown_iff_halfGone : halfGone.Filled ∧ blankScript.commands = [] ∧
    let emission := halfGone.emission blankScript (fun _ => none) .standard
    Misses (emission.ahead blankScript) emission.fades 0.0 6.0 := by
  have filled : halfGone.Filled := Filled.of_sorted _ (by decide +kernel) (by decide +kernel)
  refine ⟨filled, rfl, ?_⟩
  obtain ⟨⟨starts, stops⟩, shown, meant⟩ := halfGone_evaluates
  have missed := suppression_shown_iff halfGone filled blankScript rfl (fun _ => none) .standard Blend.scalar
  by_contra none
  have same := missed.mpr (by
    intro start first stop last
    obtain rfl := Option.some.inj (starts.symm.trans first)
    obtain rfl := Option.some.inj (stops.symm.trans last)
    exact none) 0.0 starts 6.0 stops 3.0 (by decide) (by decide)
  rw [shown, meant] at same
  exact half_differs same

/-- The drop at one second is left out because the fade before it ends there too. Between the two
spans the object is half seen. -/
theorem halfGone_shows :
    let suppressed : Script Float := (halfGone.compile blankScript (fun _ => none) .standard).2.1
    let complete : Script Float := halfGone.passWith blankScript (fun _ => none) .standard fun _ _ _ => false
    ∃ start ∈ suppressed.startTime, ∃ stop ∈ suppressed.endTime, ∃ time, start ≤ time ∧ time < stop ∧
      ¬Same (replay Blend.scalar.anchored 1.0 (suppressed.pairs Change.opacities?) time)
        (replay Blend.scalar.anchored 1.0 (complete.pairs Change.opacities?) time) := by
  obtain ⟨⟨starts, stops⟩, shown, meant⟩ := halfGone_evaluates
  refine ⟨0.0, starts, 6.0, stops, 3.0, by decide, by decide, ?_⟩
  rw [shown, meant]
  exact half_differs

end Compiler
end Tween
