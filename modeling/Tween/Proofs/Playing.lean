import Tween.Proofs.ScalarOrder
import Tween.Replay

/-! Which pair a player shows. The last one that has begun is found from the back, so what stands
in front of a begun pair never matters. -/

namespace Tween
variable {α V : Type} [Scalar α]

/-- Where a way need not be measured, between equal values and before any progress, the first value
stands, however the way is rounded. -/
def Blend.anchored [BEq V] (blend : Blend α V) : Blend α V := fun a b t => if a == b || t == 0.0 then a else blend a b t

/-- The last pair that has begun. -/
def current? (pairs : List (Pair α V)) (time : α) : Option (Pair α V) := pairs.reverse.find? (·.start.time ≤ time)

theorem current?_append (front back : List (Pair α V)) (time : α) :
    current? (front ++ back) time = (current? back time).or (current? front time) := by
  rw [current?, List.reverse_append, List.find?_append]
  rfl

theorem current?_eq_none {pairs : List (Pair α V)} {time : α} :
    current? pairs time = none ↔ ∀ p ∈ pairs, ¬p.start.time ≤ time := by
  simp [current?]

theorem current?_eq_some {pairs : List (Pair α V)} {time : α} {p : Pair α V} (found : current? pairs time = some p) :
    ∃ front back, pairs = front ++ p :: back ∧ p.start.time ≤ time ∧ ∀ later ∈ back, ¬later.start.time ≤ time := by
  obtain ⟨begun, behind, front, split, none⟩ := List.find?_eq_some_iff_append.mp found
  refine ⟨front.reverse, behind.reverse, ?_, of_decide_eq_true begun, fun later member => ?_⟩
  · have reversed := congrArg List.reverse split
    simpa using reversed
  · simpa using none later (List.mem_reverse.mp member)

theorem current?_behind {front back : List (Pair α V)} {p : Pair α V} {time : α} (begun : p.start.time ≤ time)
    (none : ∀ later ∈ back, ¬later.start.time ≤ time) : current? (front ++ p :: back) time = some p := by
  have here : current? [p] time = some p := by simp [current?, begun]
  rw [List.append_cons, current?_append, current?_eq_none.mpr none, current?_append, here]
  rfl

theorem replay_current (blend : Blend α V) (rest : V) {pairs : List (Pair α V)} {time : α} {p : Pair α V}
    (found : current? pairs time = some p) : replay blend rest pairs time = p.during blend time := by
  rw [current?] at found
  rw [replay, found]

theorem replay_waiting (blend : Blend α V) (rest : V) {pairs : List (Pair α V)} {time : α}
    (none : current? pairs time = none) :
    replay blend rest pairs time = (pairs.head?.map (·.start.value)).getD rest := by
  rw [current?] at none
  rw [replay, none]
  cases pairs.head? <;> rfl

theorem current?_map (f : Pair α V → Pair α V) (start : ∀ p, (f p).start.time = p.start.time)
    (pairs : List (Pair α V)) (time : α) : current? (pairs.map f) time = (current? pairs time).map f := by
  rw [current?, ← List.map_reverse, List.find?_map, current?]
  congr 2
  funext p
  rw [Function.comp_apply, start]

/-- Only times and values of pairs are shown. -/
theorem replay_map (blend : Blend α V) (rest : V) (f : Pair α V → Pair α V)
    (start : ∀ p, (f p).start.time = p.start.time ∧ (f p).start.value = p.start.value)
    (stop : ∀ p, (f p).stop.time = p.stop.time ∧ (f p).stop.value = p.stop.value)
    (pairs : List (Pair α V)) (time : α) :
    replay blend rest (pairs.map f) time = replay blend rest pairs time := by
  have found := current?_map f (fun p => (start p).1) pairs time
  cases current : current? pairs time with
  | some p =>
    rw [current] at found
    rw [replay_current blend rest found, replay_current blend rest current, Pair.during, Pair.during, Channel.steady,
      Channel.steady, (start p).1, (start p).2, (stop p).1, (stop p).2]
  | none =>
    rw [current] at found
    rw [replay_waiting blend rest found, replay_waiting blend rest current, List.head?_map, Option.map_map]
    congr 2
    funext p
    exact (start p).2

end Tween
