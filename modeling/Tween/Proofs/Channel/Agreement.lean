import Mathlib.Data.List.Forall2
import Tween.Channel.Pairs

/-! One channel under two edits. Which pairs are played depends on the values only where they are
compared, so edits whose values compare alike lead to pairs that correspond one by one. -/

namespace Tween
variable {α V : Type} {related : V → V → Prop}

/-- The same keyframe up to its value. -/
structure Keyframe.Corresponds (related : V → V → Prop) (k k' : Keyframe α V) : Prop where
  time : k.time = k'.time
  ease : k.ease = k'.ease
  hold : k.hold = k'.hold
  value : related k.value k'.value

structure Pair.Corresponds (related : V → V → Prop) (p p' : Pair α V) : Prop where
  start : p.start.Corresponds related p'.start
  stop : p.stop.Corresponds related p'.stop

theorem Keyframe.Corresponds.atTime {k k' : Keyframe α V} (same : k.Corresponds related k') (time : α) :
    (k.atTime time).Corresponds related (k'.atTime time) := ⟨rfl, same.ease, same.hold, same.value⟩

namespace Channel

/-- Related values compare alike, with each other and with the one that shows anyway. -/
structure Comparable [BEq V] (related : V → V → Prop) (rest : V) : Prop where
  alike {a a' b b' : V} : related a b → related a' b' → (a == a') = (b == b')
  resting {a b : V} : related a b → (a == rest) = (b == rest)

protected theorem Comparable.rfl [BEq V] (rest : V) : Comparable Eq rest where
  alike here there := by rw [here, there]
  resting here := by rw [here]

private theorem rel_getLast? {xs ys : List V} (same : List.Forall₂ related xs ys) :
    Option.Rel related xs.getLast? ys.getLast? := by
  induction same with
  | nil => exact .none
  | @cons x y xs ys here behind ih =>
    cases behind with
    | nil => exact .some here
    | cons next behind => rwa [List.getLast?_cons_cons, List.getLast?_cons_cons]

section Window
variable {playback : Playback α V} {pairs pairs' : List (Pair α V)} (edit : V → V)

private theorem leadIn_corresponds [Scalar α] (same : List.Forall₂ (Pair.Corresponds related) pairs pairs') :
    List.Forall₂ (Pair.Corresponds related) (leadIn playback pairs) (leadIn { playback with edit } pairs') := by
  unfold leadIn
  cases same with
  | nil => exact .nil
  | @cons first first' rest rest' here behind =>
    cases playback.startTime with
    | none => exact .cons here behind
    | some startTime =>
      dsimp only
      rw [here.start.time]
      split
      · have initial := here.start.atTime startTime
        refine .cons ⟨initial, ?_⟩ (.cons here behind)
        split
        · exact here.start
        · exact initial
      · exact .cons here behind

private theorem leadOut_corresponds [Scalar α] (same : List.Forall₂ (Pair.Corresponds related) pairs pairs') :
    List.Forall₂ (Pair.Corresponds related) (leadOut playback pairs) (leadOut { playback with edit } pairs') := by
  unfold leadOut
  have ending := rel_getLast? same
  generalize pairs.getLast? = last, pairs'.getLast? = last' at ending
  cases ending with
  | none => exact same
  | @some last last' ending =>
    cases playback.endTime with
    | none => exact same
    | some endTime =>
      dsimp only
      rw [ending.stop.time]
      split
      · exact List.rel_append same (.cons ⟨ending.stop, ending.stop.atTime endTime⟩ .nil)
      · exact same

private theorem constant_corresponds [BEq V] (comparable : Comparable related playback.rest)
    {first first' last last' : Keyframe α V} (begun : first.Corresponds related first') (ended : last.Corresponds related last') :
    List.Forall₂ (Pair.Corresponds related) (constant playback first last)
      (constant { playback with edit } first' last') := by
  have held := begun.atTime (playback.startTime.getD first.time)
  unfold constant
  dsimp only
  rw [← begun.time, ← ended.time, bne, bne, comparable.resting held.value]
  split
  · refine .cons ⟨held, ?_⟩ .nil
    split
    · exact held.atTime _
    · exact held
  · exact .nil

end Window

variable [Scalar α] [BEq V]

private theorem transitions_corresponds {rest : V} (comparable : Comparable related rest) {force : Bool}
    {step step' : Option (Keyframe α V)} {previous previous' : Keyframe α V} {behind behind' : List (Keyframe α V)}
    (opened : Option.Rel (Keyframe.Corresponds related) step step') (begun : previous.Corresponds related previous')
    (later : List.Forall₂ (Keyframe.Corresponds related) behind behind') :
    List.Forall₂ (Pair.Corresponds related) (transitions force step previous behind)
      (transitions force step' previous' behind') := by
  induction later generalizing force step step' previous previous' with
  | nil =>
    cases opened with
    | none => exact .nil
    | some same => exact .cons ⟨same, begun⟩ .nil
  | @cons next next' behind behind' here later ih =>
    rw [transitions, transitions, comparable.alike begun.value here.value, begun.time, here.time]
    dsimp only
    split
    · refine ih (.some ?_) here
      cases opened with
      | none => exact begun
      | some same => exact same
    · generalize (!(previous'.value == next'.value) || force) = stated
      refine List.rel_append (List.rel_append ?_ ?_) (ih .none here)
      · cases opened with
        | none => exact .nil
        | @some s s' same =>
          rw [Option.filter_some, Option.filter_some, same.hold]
          split
          · exact .cons ⟨same, begun⟩ .nil
          · exact .nil
      · cases stated with
        | true => exact .cons ⟨begun, here⟩ .nil
        | false => exact .nil

/-- Edits whose values compare alike make pairs of the same keyframes. -/
theorem pairs_corresponds (c : Channel α V) (playback : Playback α V) (edit : V → V)
    (comparable : Comparable related playback.rest)
    (same : ∀ k ∈ c.keyframes, related (playback.edit k.value) (edit k.value)) :
    List.Forall₂ (Pair.Corresponds related) (c.pairs playback) (c.pairs { playback with edit }) := by
  unfold pairs
  have keyframes : List.Forall₂ (Keyframe.Corresponds related)
      (c.keyframes.map fun k => k.withValue (playback.edit k.value)) (c.keyframes.map fun k => k.withValue (edit k.value)) := by
    rw [List.forall₂_map_left_iff, List.forall₂_map_right_iff, List.forall₂_same]
    exact fun k member => ⟨rfl, rfl, rfl, same k member⟩
  generalize c.keyframes.map (fun k => k.withValue (playback.edit k.value)) = played,
    c.keyframes.map (fun k => k.withValue (edit k.value)) = played' at keyframes
  have ending := rel_getLast? keyframes
  cases keyframes with
  | nil => exact .nil
  | @cons first first' rest rest' here behind =>
    rw [List.getLast?_eq_some_getLast (List.cons_ne_nil first rest),
      List.getLast?_eq_some_getLast (List.cons_ne_nil first' rest'), Option.rel_some_some] at ending
    have stated := constant_corresponds edit comparable here ending
    have moving : List.Forall₂ (Pair.Corresponds related)
        (leadIn playback (transitions playback.loopable none first rest))
        (leadIn { playback with edit } (transitions playback.loopable none first' rest')) :=
      leadIn_corresponds edit (transitions_corresponds comparable .none here behind)
    refine leadOut_corresponds edit ?_
    dsimp only
    generalize leadIn playback (transitions playback.loopable none first rest) = moves,
      leadIn { playback with edit } (transitions playback.loopable none first' rest') = moves' at moving
    cases moving with
    | nil => exact stated
    | cons here later => exact .cons here later

end Channel
end Tween
