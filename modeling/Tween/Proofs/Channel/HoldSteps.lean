import Mathlib.Data.List.Chain
import Tween.Proofs.Channel.Accumulation
import Tween.Proofs.Channel.PairOrder
import Tween.Proofs.Binary64.Units
import Tween.Proofs.Playing

/-! The step away from a hold marker is left out when the transition behind it has a pair of its
own. Behind another pair nothing is lost, because that transition begins at the same instant. In
front of all pairs it is different: the first pair shows its start value in advance, so what was
held before the step is replaced by where the step leads. -/

namespace Tween
variable {α V : Type}

def Keyframe.released (k : Keyframe α V) : Keyframe α V := { k with hold := false }

def Pair.released (p : Pair α V) : Pair α V := ⟨p.start.released, p.stop.released⟩

namespace Channel
open Scalar OrderLaws

def released (c : Channel α V) : Channel α V := { c with keyframes := c.keyframes.map Keyframe.released }

/-- The keyframes with the values that are played. -/
def edited (edit : V → V) (keyframes : List (Keyframe α V)) : List (Keyframe α V) :=
  keyframes.map fun k => k.withValue (edit k.value)

/-- Some pairs are left out, each in front of one that begins at the same instant. -/
inductive Thinned [BEq α] : List (Pair α V) → List (Pair α V) → Prop
  | nil : Thinned [] []
  | keep {thin full : List (Pair α V)} (p : Pair α V) (rest : Thinned thin full) : Thinned (p :: thin) (p :: full)
  | drop {thin full : List (Pair α V)} {left p : Pair α V} (instant : (left.start.time == p.start.time) = true)
      (rest : Thinned (p :: thin) (p :: full)) : Thinned (p :: thin) (left :: p :: full)

private theorem closed_released (kept : Option (Keyframe α V)) (previous : Keyframe α V) :
    (kept.toList.map (⟨·, previous⟩)).map Pair.released =
      (kept.map Keyframe.released).toList.map (⟨·, previous.released⟩) := by
  cases kept <;> rfl

theorem chain_extend {β : Type} {related : β → β → Prop} {previous next last : β} {front more rest : List β}
    (chain : (front ++ [last]).IsChain related) (first : related previous next)
    (split : next :: more = front ++ last :: rest) : (previous :: (front ++ [last])).IsChain related := by
  apply chain.cons
  intro head found
  cases front with
  | nil => exact Option.some.inj found ▸ (List.cons.inj split).1 ▸ first
  | cons second front => exact Option.some.inj found ▸ (List.cons.inj split).1 ▸ first

private theorem edited_released (edit : V → V) (keyframes : List (Keyframe α V)) :
    edited edit (keyframes.map Keyframe.released) = (edited edit keyframes).map Keyframe.released := by
  simp only [edited, List.map_map]
  rfl

private theorem constant_released [BEq V] (playback : Playback α V) (first last : Keyframe α V) :
    constant playback first.released last.released = (constant playback first last).map Pair.released := by
  simp only [constant, apply_ite (List.map Pair.released)]
  refine if_congr Iff.rfl ?_ rfl
  cases playback.startTime.isSome || playback.endTime.isSome <;> rfl

variable [Scalar α]

theorem replay_released (blend : Blend α V) (rest : V) (pairs : List (Pair α V)) (time : α) :
    replay blend rest (pairs.map Pair.released) time = replay blend rest pairs time :=
  replay_map blend rest Pair.released (fun _ => ⟨rfl, rfl⟩) (fun _ => ⟨rfl, rfl⟩) pairs time

theorem Thinned.refl (pairs : List (Pair α V)) : Thinned pairs pairs := by
  induction pairs with
  | nil => exact .nil
  | cons p pairs ih => exact .keep p ih

section Transitions
variable [BEq V]

def Flat (previous next : Keyframe α V) : Prop := (previous.value == next.value) = true

def Step (previous next : Keyframe α V) : Prop :=
  (previous.value == next.value) = false ∧ (previous.time == next.time) = true

end Transitions

theorem Thinned.isEmpty {thin full : List (Pair α V)} (thinned : Thinned thin full) : full.isEmpty = thin.isEmpty := by
  cases thinned <;> rfl

variable [OrderLaws α]

theorem Thinned.current {thin full : List (Pair α V)} (thinned : Thinned thin full) (time : α) :
    current? thin time = current? full time := by
  induction thinned with
  | nil => rfl
  | @keep thin full p rest ih =>
    rw [← List.singleton_append, current?_append, ih, ← current?_append, List.singleton_append]
  | @drop thin full left p instant rest ih =>
    rw [ih, ← List.singleton_append (l := p :: full), current?_append [left]]
    cases none : current? (p :: full) time with
    | some _ => rfl
    | none =>
      -- The pair that stays begins at the same instant, so the one that is left out has not begun either.
      have waiting := current?_eq_none.mp none p List.mem_cons_self
      have left : ¬left.start.time ≤ time := fun begun => waiting (le_trans (ge_of_beq instant) begun)
      rw [Option.none_or, current?_eq_none.mpr (by simpa using left)]

variable [BEq V]

omit [OrderLaws α] [BEq V] in
/-- In front of a move the step that it closes is left out if a hold marker began it. -/
private theorem Thinned.closing {step : Option (Keyframe α V)} {previous : Keyframe α V} {moved : Pair α V}
    {thin full : List (Pair α V)} (opened : ∀ s ∈ step, (s.time == previous.time) = true)
    (start : moved.start = previous.released) (resume : Thinned (moved :: thin) (moved :: full)) :
    Thinned (((step.filter (!·.hold)).map Keyframe.released).toList.map (Pair.mk · previous.released) ++ moved :: thin)
      (((step.map Keyframe.released).filter (!·.hold)).toList.map (Pair.mk · previous.released) ++ moved :: full) := by
  cases step with
  | none => exact resume
  | some s =>
    have closed : ((some s).map Keyframe.released).filter (!·.hold) = some s.released := rfl
    rw [closed]
    cases marker : s.hold with
    | false =>
      rw [Option.filter, marker]
      exact .keep _ resume
    | true =>
      rw [Option.filter, marker]
      exact .drop (by rw [start]; exact opened s rfl) resume

/-- Hold markers do no more than thin the pairs out. -/
theorem transitions_thinned (step : Option (Keyframe α V)) {previous : Keyframe α V} {behind : List (Keyframe α V)}
    (opened : ∀ s ∈ step, (s.time == previous.time) = true) :
    Thinned ((transitions false step previous behind).map Pair.released)
      (transitions false (step.map Keyframe.released) previous.released (behind.map Keyframe.released)) := by
  induction behind generalizing step previous with
  | nil =>
    simp only [transitions, List.map_nil, closed_released]
    exact Thinned.refl _
  | cons next behind ih =>
    rw [List.map_cons]
    rcases transition_cases previous next with ⟨differ, instant⟩ | flat | ⟨differ, apart⟩
    · rw [transitions_step differ instant, transitions_step (by exact differ) (by exact instant)]
      have same : some ((step.map Keyframe.released).getD previous.released) =
          (some (step.getD previous)).map Keyframe.released := by cases step <;> rfl
      rw [same]
      exact ih _ (opened_onward opened instant)
    · rw [transitions_flat flat, transitions_flat (by exact flat), List.map_append, closed_released]
      have resume : Thinned ((transitions false none next behind).map Pair.released)
        (transitions false none next.released (behind.map Keyframe.released)) :=
        ih none fun s found => absurd found (Option.not_mem_none s)
      cases step with
      | none => exact resume
      | some s => exact .keep _ resume
    · rw [transitions_moved differ apart, transitions_moved (by exact differ) (by exact apart), List.map_append,
        closed_released]
      have moved : Thinned (Pair.released ⟨previous, next⟩ :: (transitions false none next behind).map Pair.released)
        (⟨previous.released, next.released⟩ :: transitions false none next.released (behind.map Keyframe.released)) :=
        .keep _ (ih none fun s found => absurd found (Option.not_mem_none s))
      exact Thinned.closing opened rfl moved

private theorem transitions_current (previous : Keyframe α V) (behind : List (Keyframe α V)) (time : α) :
    current? (transitions false none previous.released (behind.map Keyframe.released)) time =
      (current? (transitions false none previous behind) time).map Pair.released := by
  rw [← current?_map Pair.released fun _ => rfl]
  exact ((transitions_thinned none nofun).current time).symm

private theorem transitions_isEmpty (previous : Keyframe α V) (behind : List (Keyframe α V)) :
    (transitions false none previous.released (behind.map Keyframe.released)).isEmpty =
      (transitions false none previous behind).isEmpty :=
  (transitions_thinned none nofun).isEmpty.trans List.isEmpty_map

/-- Nothing moves up to the hold marker, a step leads away from it, and a move follows at once. -/
structure LeadingMarker (keyframes : List (Keyframe α V)) where
  lead : List (Keyframe α V)
  marker : Keyframe α V
  chain : List (Keyframe α V)
  arrived : Keyframe α V
  next : Keyframe α V
  behind : List (Keyframe α V)
  split : keyframes = lead ++ marker :: (chain ++ arrived :: next :: behind)
  hold : marker.hold = true
  still : (lead ++ [marker]).IsChain Flat
  stepping : (marker :: (chain ++ [arrived])).IsChain Step
  moves : (arrived.value == next.value) = false
  apart : (arrived.time == next.time) = false

omit [OrderLaws α] in
theorem transitions_still {lead : List (Keyframe α V)} {marker previous : Keyframe α V} {rest behind : List (Keyframe α V)}
    (still : (lead ++ [marker]).IsChain Flat) (split : previous :: behind = lead ++ marker :: rest) :
    transitions false none previous behind = transitions false none marker rest := by
  induction lead generalizing previous behind with
  | nil =>
    cases split
    rfl
  | cons first lead ih =>
    obtain ⟨rfl, rfl⟩ := List.cons.inj split
    obtain ⟨next, more, found⟩ := List.exists_cons_of_ne_nil (show lead ++ marker :: rest ≠ [] by simp)
    have flat : Flat previous next := by
      cases lead with
      | nil => exact (List.cons.inj found).1 ▸ (List.isChain_cons_cons.mp still).1
      | cons second lead => exact (List.cons.inj found).1 ▸ (List.isChain_cons_cons.mp still).1
    change transitions false none previous (lead ++ marker :: rest) = _
    rw [found, transitions_flat flat]
    exact ih still.tail found.symm

omit [OrderLaws α] in
theorem transitions_stepping {step : Option (Keyframe α V)} {marker arrived : Keyframe α V}
    {chain rest : List (Keyframe α V)} (stepping : (marker :: (chain ++ [arrived])).IsChain Step) :
    transitions false step marker (chain ++ arrived :: rest) =
      transitions false (some (step.getD marker)) arrived rest := by
  induction chain generalizing step marker with
  | nil =>
    obtain ⟨differ, instant⟩ := (List.isChain_cons_cons.mp stepping).1
    exact transitions_step differ instant
  | cons next chain ih =>
    obtain ⟨⟨differ, instant⟩, later⟩ := List.isChain_cons_cons.mp stepping
    exact (transitions_step differ instant).trans (ih later)

omit [OrderLaws α] in
/-- An open step that a hold marker began is the only pair in front that can be left out. -/
private theorem opened_front (s previous : Keyframe α V) (behind : List (Keyframe α V)) :
    (transitions false (some s.released) previous.released (behind.map Keyframe.released)).head? =
        (transitions false (some s) previous behind).head?.map Pair.released ∨
      s.hold = true ∧ ∃ chain arrived next rest, previous :: behind = chain ++ arrived :: next :: rest ∧
        (chain ++ [arrived]).IsChain Step ∧ (arrived.value == next.value) = false ∧ (arrived.time == next.time) = false := by
  induction behind generalizing previous with
  | nil => exact Or.inl rfl
  | cons next behind ih =>
    rw [List.map_cons]
    rcases transition_cases previous next with ⟨differ, instant⟩ | flat | ⟨differ, apart⟩
    · rw [transitions_step differ instant, transitions_step (by exact differ) (by exact instant)]
      refine (ih next).imp_right fun ⟨marker, chain, arrived, last, rest, split, steps, moves⟩ =>
        ⟨marker, previous :: chain, arrived, last, rest, by rw [split]; rfl, ?_, moves⟩
      exact chain_extend steps ⟨differ, instant⟩ split
    · rw [transitions_flat flat, transitions_flat (by exact flat)]
      exact Or.inl rfl
    · cases marker : s.hold with
      | false =>
        rw [transitions_moved differ apart, transitions_moved (by exact differ) (by exact apart), Option.filter,
          Option.filter, marker]
        exact Or.inl rfl
      | true => exact Or.inr ⟨rfl, [], previous, next, behind, rfl, List.isChain_singleton _, differ, apart⟩

omit [OrderLaws α] in
/-- The pairs begin with the same one, unless there is a hold marker in front of all moves. -/
private theorem front_or_leading (previous : Keyframe α V) (behind : List (Keyframe α V)) :
    (transitions false none previous.released (behind.map Keyframe.released)).head? =
        (transitions false none previous behind).head?.map Pair.released ∨
      Nonempty (LeadingMarker (previous :: behind)) := by
  induction behind generalizing previous with
  | nil => exact Or.inl rfl
  | cons next behind ih =>
    rw [List.map_cons]
    rcases transition_cases previous next with ⟨differ, instant⟩ | flat | ⟨differ, apart⟩
    · rw [transitions_step differ instant, transitions_step (by exact differ) (by exact instant)]
      apply (opened_front previous next behind).imp_right
      rintro ⟨hold, chain, arrived, last, rest, split, steps, moves, apart⟩
      refine ⟨⟨[], previous, chain, arrived, last, rest, by rw [split]; rfl, hold, List.isChain_singleton _, ?_, moves, apart⟩⟩
      exact chain_extend steps ⟨differ, instant⟩ split
    · rw [transitions_flat flat, transitions_flat (by exact flat)]
      refine (ih next).imp_right fun ⟨found⟩ => ⟨{ found with lead := previous :: found.lead, split := ?_, still := ?_ }⟩
      · exact congrArg (previous :: ·) found.split
      · exact chain_extend found.still flat found.split
    · rw [transitions_moved differ apart, transitions_moved (by exact differ) (by exact apart)]
      exact Or.inl rfl

/-- The value that the marker holds shows before the step, and the step leads to another one. -/
def LosesHeld (keyframes : List (Keyframe α V)) : Prop :=
  ∃ found : LeadingMarker keyframes,
    (∃ first ∈ keyframes.head?, first.time < found.marker.time) ∧ found.marker.value ≠ found.arrived.value

namespace LeadingMarker
variable {previous : Keyframe α V} {behind : List (Keyframe α V)}

omit [OrderLaws α] in
theorem transitions_eq (found : LeadingMarker (previous :: behind)) :
    transitions false none previous behind =
      ⟨found.arrived, found.next⟩ :: transitions false none found.next found.behind := by
  rw [transitions_still found.still found.split, transitions_stepping found.stepping,
    transitions_moved found.moves found.apart]
  simp [Option.filter, found.hold]

omit [OrderLaws α] in
theorem transitions_released (found : LeadingMarker (previous :: behind)) :
    transitions false none previous.released (behind.map Keyframe.released) =
      ⟨found.marker.released, found.arrived.released⟩ :: ⟨found.arrived.released, found.next.released⟩ ::
        transitions false none found.next.released (found.behind.map Keyframe.released) := by
  have split := congrArg (List.map Keyframe.released) found.split
  simp only [List.map_cons, List.map_append] at split
  have still : ((found.lead ++ [found.marker]).map Keyframe.released).IsChain Flat :=
    (List.isChain_map _).mpr found.still
  have stepping : ((found.marker :: (found.chain ++ [found.arrived])).map Keyframe.released).IsChain Step :=
    (List.isChain_map _).mpr found.stepping
  rw [List.map_append, List.map_cons, List.map_nil] at still
  rw [List.map_cons, List.map_append, List.map_cons, List.map_nil] at stepping
  rw [transitions_still still split, transitions_stepping stepping,
    transitions_moved (by exact found.moves) (by exact found.apart)]
  rfl

/-- While nothing has begun, the value behind the step shows in place of the one that is held. -/
private theorem replays (found : LeadingMarker (previous :: behind)) (blend : Blend α V) (rest : V) {time : α}
    (waiting : current? (transitions false none previous behind) time = none) :
    replay blend rest (transitions false none previous behind) time = found.arrived.value ∧
      replay blend rest (transitions false none previous.released (behind.map Keyframe.released)) time =
        found.marker.value := by
  have released : current? (transitions false none previous.released (behind.map Keyframe.released)) time = none := by
    rw [transitions_current, waiting]
    rfl
  rw [replay_waiting blend rest waiting, replay_waiting blend rest released, found.transitions_eq,
    found.transitions_released]
  exact ⟨rfl, rfl⟩

end LeadingMarker

omit [OrderLaws α] in
/-- Without a window the pairs are the transitions, or the constant pair if there are none. -/
theorem pairs_unbounded {c : Channel α V} {rest : V} {edit : V → V} {first : Keyframe α V} {behind : List (Keyframe α V)}
    (shape : edited edit c.keyframes = first :: behind) :
    c.pairs { rest, edit } =
      if (transitions false none first behind).isEmpty
      then constant { rest, edit } first ((first :: behind).getLast (List.cons_ne_nil _ _))
      else transitions false none first behind := by
  have plain (pairs : List (Pair α V)) : leadOut { rest, edit } pairs = pairs := by
    unfold leadOut
    cases pairs.getLast? <;> rfl
  have bare (pairs : List (Pair α V)) : leadIn { rest, edit } pairs = pairs := by
    cases pairs <;> rfl
  unfold edited at shape
  unfold pairs
  simp only [shape, bare, plain]

section Harm
variable (blend : Blend α V) (rest : V) {previous : Keyframe α V} {behind : List (Keyframe α V)}
  (ordered : Ordered (previous :: behind))
include ordered

/-- At the first keyframe nothing has begun, so the two front pairs show their start values. -/
private theorem LosesHeld.differs (loses : LosesHeld (previous :: behind)) :
    previous.time ≤ previous.time ∧ replay blend rest (transitions false none previous behind) previous.time ≠
      replay blend rest (transitions false none previous.released (behind.map Keyframe.released)) previous.time := by
  obtain ⟨found, ⟨first, head, early⟩, differ⟩ := loses
  obtain rfl := Option.some.inj head
  have held : Ordered (found.marker :: (found.chain ++ found.arrived :: found.next :: found.behind)) :=
    (List.pairwise_append.mp (found.split ▸ ordered)).2.1
  have later : Successive found.marker.time (transitions false none previous behind) := by
    rw [transitions_still found.still found.split]
    exact transitions_successive held nofun
  have waiting : current? (transitions false none previous behind) previous.time = none :=
    current?_eq_none.mpr fun p member begun => not_le_of_lt early (le_trans (later.bounds member).1 begun)
  obtain ⟨shown, meant⟩ := found.replays blend rest waiting
  refine ⟨(le_defined (le_of_lt early)).1, ?_⟩
  rw [shown, meant]
  exact differ.symm

private theorem replay_thinned (kept : ¬LosesHeld (previous :: behind)) {time : α} (begun : previous.time ≤ time) :
    replay blend rest (transitions false none previous behind) time =
      replay blend rest (transitions false none previous.released (behind.map Keyframe.released)) time := by
  have released := transitions_current previous behind time
  cases waiting : current? (transitions false none previous behind) time with
  | some current =>
    rw [waiting, Option.map_some] at released
    rw [replay_current blend rest waiting, replay_current blend rest released]
    rfl
  | none =>
    rw [waiting, Option.map_none] at released
    rcases front_or_leading previous behind with head | ⟨⟨found⟩⟩
    · rw [replay_waiting blend rest waiting, replay_waiting blend rest released, head, Option.map_map]
      rfl
    · obtain ⟨shown, meant⟩ := found.replays blend rest waiting
      rw [shown, meant]
      by_contra differ
      have ahead : ¬found.marker.time ≤ time := by
        rw [found.transitions_released] at released
        exact current?_eq_none.mp released _ List.mem_cons_self
      have member : found.marker ∈ previous :: behind := by simp [found.split]
      refine kept ⟨found, ⟨previous, rfl, ?_⟩, Ne.symm differ⟩
      rcases List.mem_cons.mp member with same | member
      · have instant : found.marker.time = previous.time := congrArg (·.time) same
        exact absurd (instant ▸ begun) ahead
      · exact lt_iff.mpr ⟨(List.pairwise_cons.mp ordered).1 _ member, fun back => ahead (le_trans back begun)⟩

/-- Dropping the steps of hold markers is harmless at every time, or else a held value is lost. -/
private theorem replay_thinned_iff :
    (∀ time, previous.time ≤ time → replay blend rest (transitions false none previous behind) time =
        replay blend rest (transitions false none previous.released (behind.map Keyframe.released)) time) ↔
      ¬LosesHeld (previous :: behind) := by
  constructor
  · intro same loses
    obtain ⟨defined, differ⟩ := loses.differs blend rest ordered
    exact differ (same _ defined)
  · intro kept time begun
    exact replay_thinned blend rest ordered kept begun

end Harm

omit [OrderLaws α] in
private theorem LosesHeld.moves {previous : Keyframe α V} {behind : List (Keyframe α V)}
    (loses : LosesHeld (previous :: behind)) : transitions false none previous behind ≠ [] := by
  obtain ⟨found, _⟩ := loses
  simp [found.transitions_eq]

private theorem replay_pairs_iff (blend : Blend α V) (rest : V) (edit : V → V) {c : Channel α V}
    (ordered : Ordered c.keyframes) :
    (∀ first ∈ c.first?, ∀ time, first.time ≤ time →
        replay blend rest (c.pairs { rest, edit }) time = replay blend rest (c.released.pairs { rest, edit }) time) ↔
      ¬LosesHeld (edited edit c.keyframes) := by
  cases shape : c.keyframes with
  | nil =>
    have none : c.first? = none := by rw [first?, shape]; rfl
    apply iff_of_true (by simp [none])
    rintro ⟨found, _⟩
    simpa [edited] using found.split
  | cons first rest' =>
    have head : c.first? = some first := by rw [first?, shape]; rfl
    have played : edited edit c.keyframes = first.withValue (edit first.value) :: edited edit rest' := by rw [shape]; rfl
    have released : edited edit c.released.keyframes =
        (first.withValue (edit first.value)).released :: (edited edit rest').map Keyframe.released :=
      (edited_released edit c.keyframes).trans (congrArg (List.map Keyframe.released) played)
    have ordered : Ordered (first.withValue (edit first.value) :: edited edit rest') :=
      played ▸ List.pairwise_map.mpr ordered
    have last := List.getLast_map (f := Keyframe.released) (l := first.withValue (edit first.value) :: edited edit rest')
      (List.cons_ne_nil _ _)
    rw [← shape, played, pairs_unbounded played, pairs_unbounded released, transitions_isEmpty, head]
    split
    next still =>
      refine iff_of_true ?_ fun loses => loses.moves (List.isEmpty_iff.mp still)
      intro _ _ time _
      rw [show List.getLast (Keyframe.released _ :: _) _ = _ from last, constant_released, replay_released]
    next =>
      rw [← replay_thinned_iff blend rest ordered]
      simp only [Option.mem_some_iff, forall_eq']
      exact Iff.rfl

/-- The values that hold markers keep are shown as they would be if every step were stated, from
the first keyframe on, exactly if no marker stands in front of all moves. -/
theorem holds_shown_iff (blend : Blend Float V) (rest : V) (edit : V → V) (c : Channel Float V)
    (accumulated : Accumulated c) :
    (∀ first ∈ c.first?, ∀ time, first.time ≤ time →
        replay blend rest (c.pairs { rest, edit }) time = replay blend rest (c.released.pairs { rest, edit }) time) ↔
      ¬LosesHeld (edited edit c.keyframes) :=
  replay_pairs_iff blend rest edit accumulated.ordered

/-- One is held up to two, where a step to three begins a move. -/
def heldFirst : Channel Float Float :=
  { blend := none, rest := 0.0, keyframes := [⟨1.0, 1.0, .linear, false⟩, ⟨2.0, 1.0, .linear, true⟩,
    ⟨2.0, 3.0, .linear, false⟩, ⟨3.0, 2.0, .linear, false⟩] }

theorem holds_shown_iff_heldFirst : Accumulated heldFirst ∧
    ¬∀ first ∈ heldFirst.first?, ∀ time, first.time ≤ time →
      replay Blend.scalar 0.0 (heldFirst.pairs { rest := 0.0, edit := id }) time =
        replay Blend.scalar 0.0 (heldFirst.released.pairs { rest := 0.0, edit := id }) time := by
  have one : Accumulated (⟨[⟨1.0, 1.0, .linear, false⟩], none, 0.0⟩ : Channel Float Float) :=
    (Accumulated.start none 0.0).append 1.0 1.0 nofun
  have two := one.append_hold 2.0 (by rintro _ ⟨⟩; decide) rfl
  have three := two.append 2.0 3.0 (by rintro _ ⟨⟩; decide)
  have four : Accumulated heldFirst := three.append 3.0 2.0 (by rintro _ ⟨⟩; decide)
  refine ⟨four, fun same => (holds_shown_iff Blend.scalar 0.0 id heldFirst four).mp same ?_⟩
  refine ⟨⟨[⟨1.0, 1.0, .linear, false⟩], ⟨2.0, 1.0, .linear, true⟩, [], ⟨2.0, 3.0, .linear, false⟩,
    ⟨3.0, 2.0, .linear, false⟩, [], rfl, rfl, ?_, ?_, ?_, ?_⟩, ⟨_, rfl, ?_⟩, ?_⟩
  · exact List.isChain_cons_cons.mpr ⟨show ((1.0 : Float) == 1.0) = true by decide, List.isChain_singleton _⟩
  · exact List.isChain_cons_cons.mpr
      ⟨show ((1.0 : Float) == 3.0) = false ∧ ((2.0 : Float) == 2.0) = true by decide, List.isChain_singleton _⟩
  · decide
  · decide
  · decide
  · intro same
    exact absurd (congrArg (· == (1.0 : Float)) same) (by decide)

theorem heldFirst_shows : replay Blend.scalar 0.0 (heldFirst.pairs { rest := 0.0 }) 1.0 = 3.0 ∧
    replay Blend.scalar 0.0 (heldFirst.released.pairs { rest := 0.0 }) 1.0 = 1.0 := ⟨rfl, rfl⟩

end Channel
end Tween
