import Tween.Channel.Pairs
import Tween.Proofs.Channel.Coarsening
import Tween.Proofs.Exact.Field
import Tween.Proofs.LeadingCount

/-! Channels moved in time. Where a keyframe goes and which ones can be left out depends on times
only through their order and their differences, so all that is done to a channel can be done before
or after it is moved. -/

namespace Tween
open Scalar ExactSums
variable {α V : Type} [Scalar α] {shift : α}

/-- The same keyframe `shift` later. -/
def Keyframe.shifted (shift : α) (k : Keyframe α V) : Keyframe α V := k.atTime (k.time + shift)

@[simp] theorem Keyframe.shifted_time (k : Keyframe α V) : (k.shifted shift).time = k.time + shift := rfl

@[simp] theorem Keyframe.shifted_value (k : Keyframe α V) : (k.shifted shift).value = k.value := rfl

@[simp] theorem Keyframe.shifted_hold (k : Keyframe α V) : (k.shifted shift).hold = k.hold := rfl

def Pair.shifted (shift : α) (pair : Pair α V) : Pair α V := ⟨pair.start.shifted shift, pair.stop.shifted shift⟩

/-- Only the window moves; an edit does not see times. -/
def Playback.shifted (shift : α) (playback : Playback α V) : Playback α V :=
  { playback with startTime := playback.startTime.map (· + shift), endTime := playback.endTime.map (· + shift) }

namespace Channel

def shifted (shift : α) (c : Channel α V) : Channel α V := { c with keyframes := c.keyframes.map (·.shifted shift) }

@[simp] theorem shifted_keyframes (c : Channel α V) :
    (c.shifted shift).keyframes = c.keyframes.map (·.shifted shift) := rfl

theorem shifted_last? (c : Channel α V) : (c.shifted shift).last? = c.last?.map (·.shifted shift) := List.getLast?_map

theorem shifted_startTime (c : Channel α V) : (c.shifted shift).startTime = c.startTime.map (· + shift) := by
  simp [startTime, first?, List.head?_map, Function.comp_def]

theorem shifted_endTime (c : Channel α V) : (c.shifted shift).endTime = c.endTime.map (· + shift) := by
  simp [endTime, shifted_last?, Function.comp_def]

@[simp] theorem shifted_startValue (c : Channel α V) : (c.shifted shift).startValue = c.startValue := by
  simp [startValue, first?, List.head?_map, Function.comp_def, shifted]

@[simp] theorem shifted_endValue (c : Channel α V) : (c.shifted shift).endValue = c.endValue := by
  rw [endValue, shifted_last?, Option.map_map]
  rfl

section Storage
variable [ExactSums α] (c : Channel α V) (time : α)

private theorem slot_shifted (keyframes : List (Keyframe α V)) (before : Bool) :
    slot (keyframes.map (·.shifted shift)) (time + shift) before = slot keyframes time before := by
  simp only [slot, leadingCount_map, Keyframe.shifted_time, lt_shift_iff, le_shift_iff]

private theorem appends_shifted (keyframes : List (Keyframe α V)) (before : Bool) :
    appends (keyframes.map (·.shifted shift)) (time + shift) before = appends keyframes time before := by
  unfold appends
  rw [List.getLast?_map]
  cases keyframes.getLast? with
  | none => rfl
  | some last => simp only [Option.map_some, Keyframe.shifted_time, lt_shift_iff, beq_shift]

/-- A keyframe finds the same place, because all that is asked is which of two times is the later one. -/
theorem insert_shifted (k : Keyframe α V) (before : Bool) :
    (c.shifted shift).insert (k.shifted shift) before = (c.insert k before).shifted shift := by
  unfold insert
  simp only [shifted_keyframes, Keyframe.shifted_time, appends_shifted, slot_shifted]
  split
  next => simp [shifted]
  next => simp [shifted, List.map_insertIdx]

theorem hold?_shifted : (c.shifted shift).hold? (time + shift) = (c.hold? time).map (·.shifted shift) := by
  unfold hold?
  rw [shifted_last?]
  cases c.last? with
  | none => rfl
  | some last => exact congrArg some (insert_shifted c { time, value := last.value, hold := true } false)

theorem receive_shifted (source : Channel α V) :
    (c.shifted shift).receive (source.shifted shift) = (c.receive source).shifted shift := by
  unfold receive
  rw [shifted_keyframes]
  induction source.keyframes generalizing c with
  | nil => rfl
  | cons k rest ih =>
    rw [List.map_cons, List.foldl_cons, List.foldl_cons, insert_shifted]
    exact ih _

end Storage

/-! Simplification. -/

def Peak.shifted (shift : α) (p : Peak α V) : Peak α V :=
  ⟨p.before.map (·.shifted shift), p.top.shifted shift, p.after.map (·.shifted shift), p.height⟩

def Stretch.shifted (shift : α) (s : Stretch α V) : Stretch α V :=
  ⟨s.first.shifted shift, s.interior.map (·.shifted shift), s.last.shifted shift⟩

private theorem peak?_shifted {height height' : Keyframe α V → α} (same : ∀ k, height' (k.shifted shift) = height k)
    (interior : List (Keyframe α V)) :
    peak? height' (interior.map (·.shifted shift)) = (peak? height interior).map (·.shifted shift) := by
  induction interior with
  | nil => rfl
  | cons k after ih =>
    simp only [List.map_cons, peak?, ih, same]
    cases peak? height after with
    | none =>
      simp only [Option.map_none]
      split <;> rfl
    | some later =>
      simp only [Option.map_some, Peak.shifted]
      split <;> rfl

/-- A distance that does not change when all three keyframes move. -/
def Relative (shift : α) (deviation : Deviation α V) : Prop :=
  ∀ a m z, deviation (a.shifted shift) (m.shifted shift) (z.shifted shift) = deviation a m z

variable {deviation : Deviation α V} (relative : Relative shift deviation) (tolerance : α)
include relative

private theorem split?_shifted (s : Stretch α V) :
    (s.shifted shift).split? tolerance deviation = (s.split? tolerance deviation).map (·.shifted shift) := by
  have same : ∀ k : Keyframe α V, deviation (s.first.shifted shift) (k.shifted shift) (s.last.shifted shift) =
      deviation s.first k s.last := fun k => relative s.first k s.last
  unfold Stretch.split? Stretch.shifted
  rw [peak?_shifted same]
  cases peak? (fun k => deviation s.first k s.last) s.interior with
  | none => rfl
  | some p =>
    simp only [Option.map_some, Option.filter_some, Peak.shifted]
    split <;> rfl

private theorem kept_shifted (s : Stretch α V) :
    (s.shifted shift).kept tolerance deviation = (s.kept tolerance deviation).map (·.shifted shift) := by
  induction s using Stretch.kept.induct tolerance deviation with
  | case1 s found =>
    have whole : (s.shifted shift).split? tolerance deviation = none := by rw [split?_shifted relative, found]; rfl
    rw [Stretch.kept_none found, Stretch.kept_none whole, List.map_nil]
  | case2 s p found before after =>
    have halves : (s.shifted shift).split? tolerance deviation = some (p.shifted shift) := by
      rw [split?_shifted relative, found]
      rfl
    rw [Stretch.kept_some found, Stretch.kept_some halves, List.map_append, List.map_cons, ← before, ← after]
    rfl

omit relative in
private theorem runEnds_shifted [BEq V] (previous : Keyframe α V) (behind : List (Keyframe α V)) :
    runEnds (previous.shifted shift) (behind.map (·.shifted shift)) =
      (runEnds previous behind).map (·.shifted shift) := by
  induction behind generalizing previous with
  | nil => rfl
  | cons k behind ih =>
    cases behind with
    | nil => rfl
    | cons next rest =>
      have others := ih k
      simp only [List.map_cons] at others
      simp only [List.map_cons, runEnds, Keyframe.shifted_value, others]
      split <;> rfl

/-- The same keyframes are left out. With a tolerance that is up to the distance alone, and without
one no time is looked at. -/
theorem simplify_shifted [BEq V] (c : Channel α V) :
    (c.shifted shift).simplify tolerance deviation = (c.simplify tolerance deviation).shifted shift := by
  rcases shape : c.keyframes with _ | ⟨first, _ | ⟨second, _ | ⟨third, rest⟩⟩⟩
  case cons.cons.cons =>
    have ends : runEnds (first.shifted shift) ((second :: third :: rest).map (·.shifted shift)) =
        (runEnds first (second :: third :: rest)).map (·.shifted shift) := runEnds_shifted first _
    have kept := kept_shifted relative tolerance
      ⟨first, (second :: third :: rest).dropLast, (second :: third :: rest).getLast (List.cons_ne_nil _ _)⟩
    have last : ((second :: third :: rest).map (·.shifted shift)).getLast (List.cons_ne_nil _ _) =
        ((second :: third :: rest).getLast (List.cons_ne_nil _ _)).shifted shift := List.getLast_map _
    simp only [List.map_cons] at ends last
    simp only [Stretch.shifted, List.map_dropLast, ← last, List.map_cons] at kept
    simp only [simplify, shifted, shape, List.map_cons, keptBehind_kept, List.flatMap_cons, List.flatMap_nil,
      List.append_nil, ends, kept]
    split
    · rfl
    · rw [last, List.map_cons, List.map_append, List.map_singleton]
  all_goals simp [simplify, shifted, shape]

omit relative

/-! Pairs, in a window that moves with the channel. -/

section Pairs
variable [ExactSums α] [BEq V] (playback : Playback α V)

private theorem transitions_shifted (force : Bool) (step : Option (Keyframe α V)) (previous : Keyframe α V)
    (behind : List (Keyframe α V)) :
    transitions force (step.map (·.shifted shift)) (previous.shifted shift) (behind.map (·.shifted shift)) =
      (transitions force step previous behind).map (·.shifted shift) := by
  -- On the keyframes ahead. An open step began at a keyframe, so it has moved as well.
  induction behind generalizing force step previous with
  | nil => cases step <;> rfl
  | cons next rest ih =>
    have opened : some ((step.map (·.shifted shift)).getD (previous.shifted shift)) =
        (some (step.getD previous)).map (·.shifted shift) := by cases step <;> rfl
    have closed (stated : Bool) :
        ((step.map (·.shifted shift)).filter fun s => !(s.hold && stated)).toList.map
            (fun s => (⟨s, previous.shifted shift⟩ : Pair α V)) =
          ((step.filter fun s => !(s.hold && stated)).toList.map fun s => (⟨s, previous⟩ : Pair α V)).map
            (·.shifted shift) := by
      cases step with
      | none => rfl
      | some s =>
        rw [Option.map_some, Option.filter_some, Option.filter_some, Keyframe.shifted_hold]
        cases !(s.hold && stated) <;> rfl
    have moved (stated : Bool) :
        (if stated then [(⟨previous.shifted shift, next.shifted shift⟩ : Pair α V)] else []) =
          (if stated then [(⟨previous, next⟩ : Pair α V)] else []).map (·.shifted shift) := by cases stated <;> rfl
    have fresh (force : Bool) := ih force none next
    rw [Option.map_none] at fresh
    simp only [List.map_cons, transitions, Keyframe.shifted_value, Keyframe.shifted_time, beq_shift, opened, ih, closed,
      fresh]
    split
    next => rfl
    next =>
      rw [List.map_append, List.map_append]
      exact congrArg (_ ++ · ++ _) (moved _)

omit [BEq V] in
private theorem leadIn_shifted (pairs : List (Pair α V)) :
    leadIn (playback.shifted shift) (pairs.map (·.shifted shift)) = (leadIn playback pairs).map (·.shifted shift) := by
  unfold leadIn Playback.shifted
  cases pairs with
  | nil => rfl
  | cons first rest =>
    cases playback.startTime with
    | none => rfl
    | some startTime =>
      simp only [List.map_cons, Option.map_some, Pair.shifted, Keyframe.shifted_time, lt_shift_iff]
      split
      · split <;> rfl
      · rfl

omit [ExactSums α] in
private theorem constant_shifted (first last : Keyframe α V) :
    constant (playback.shifted shift) (first.shifted shift) (last.shifted shift) =
      (constant playback first last).map (·.shifted shift) := by
  obtain ⟨rest, edit, startTime, endTime, loopable⟩ := playback
  by_cases shown : (first.value != rest) = true <;> cases startTime <;> cases endTime <;>
    simp [constant, Playback.shifted, Pair.shifted, Keyframe.shifted, Keyframe.atTime, shown]

omit [BEq V] in
private theorem leadOut_shifted (pairs : List (Pair α V)) :
    leadOut (playback.shifted shift) (pairs.map (·.shifted shift)) = (leadOut playback pairs).map (·.shifted shift) := by
  unfold leadOut Playback.shifted
  rw [List.getLast?_map]
  cases pairs.getLast? with
  | none => rfl
  | some last =>
    cases playback.endTime with
    | none => rfl
    | some endTime =>
      simp only [Option.map_some, Pair.shifted, Keyframe.shifted_time, lt_shift_iff]
      split
      · rw [List.map_append]
        rfl
      · rfl

/-- The channel and the window have to move together: the first pair can begin and the last one can
end with the window. -/
theorem pairs_shifted (c : Channel α V) :
    (c.shifted shift).pairs (playback.shifted shift) = (c.pairs playback).map (·.shifted shift) := by
  have edited : (c.shifted shift).keyframes.map (fun k => k.withValue (playback.edit k.value)) =
      (c.keyframes.map fun k => k.withValue (playback.edit k.value)).map (·.shifted shift) := by
    rw [shifted_keyframes, List.map_map, List.map_map]
    rfl
  unfold pairs
  rw [Playback.shifted, edited, ← Playback.shifted]
  cases c.keyframes.map fun k => k.withValue (playback.edit k.value) with
  | nil => rfl
  | cons first rest =>
    have last : ((first :: rest).map (·.shifted shift)).getLast (List.cons_ne_nil _ _) =
        ((first :: rest).getLast (List.cons_ne_nil _ _)).shifted shift := List.getLast_map _
    have moving : transitions playback.loopable none (first.shifted shift) (rest.map (·.shifted shift)) =
        (transitions playback.loopable none first rest).map (·.shifted shift) := transitions_shifted _ none first rest
    have loopable : (playback.shifted shift).loopable = playback.loopable := rfl
    simp only [List.map_cons] at last ⊢
    rw [loopable, moving, leadIn_shifted, last, List.isEmpty_map, constant_shifted, ← leadOut_shifted]
    split <;> rfl

end Pairs

end Channel
end Tween
