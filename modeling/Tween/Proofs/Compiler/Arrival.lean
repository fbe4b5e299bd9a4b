import Tween.Proofs.Compiler.Buffer
import Tween.Proofs.Emission.Written

/-! In which order states arrive does not matter. The buffer is the stable sort of the finite ones,
so what a pass makes of it depends only on how states of one time follow each other. -/

namespace Tween.Compiler
open Scalar OrderLaws

section Offer
variable {α : Type} [Scalar α]

/-- Whether a state is taken. A refused one leaves the compiler as it was. -/
def offer (c : Compiler α) (state : State α) : Bool × Compiler α :=
  match c.add state with
  | .ok taken => (true, taken)
  | .error _ => (false, c)

def offerAll (c : Compiler α) : List (State α) → List Bool × Compiler α
  | [] => ([], c)
  | state :: states =>
    let (taken, c) := c.offer state
    let (answers, c) := c.offerAll states
    (taken :: answers, c)

end Offer

variable {c : Compiler Float}

private theorem offer_eq (sorted : Sorted (·.time) c.states) (state : State Float) :
    c.offer state =
      (decide state.Finite,
        if state.Finite then { c with states := placed (·.time ≤ state.time) state c.states } else c) := by
  unfold offer
  cases answer : c.add state with
  | ok taken =>
    obtain ⟨finite, rfl⟩ := add_ok answer sorted.ordered
    simp [finite]
  | error problem =>
    have refused : ¬state.Finite := by
      intro finite
      rw [Compiler.add, finite.checked] at answer
      cases answer
    simp [refused]

private theorem offerAll_eq (sorted : Sorted (·.time) c.states) (states : List (State Float)) :
    c.offerAll states =
      (states.map (decide ·.Finite),
        { c with
          states := (states.filter (decide ·.Finite)).foldl
            (fun stored state => placed (·.time ≤ state.time) state stored) c.states }) := by
  induction states generalizing c with
  | nil => rfl
  | cons state states ih =>
    rw [offerAll, offer_eq sorted]
    by_cases finite : state.Finite
    · have kept := ih (c := { c with states := placed (·.time ≤ state.time) state c.states })
        (placed_le_sorted sorted finite.defined)
      simp [finite, kept]
    · simp [finite, ih sorted]

/-- Exactly the finite states are taken, and the buffer is their stable sort by time. With the same
finite states and the same order among those of one time, a pass does the same. -/
theorem arrivals_sorted (config : Config Float) (states others : List (State Float)) :
    let fresh : Compiler Float := { config }
    (fresh.offerAll states).1 = states.map (decide ·.Finite) ∧
      (fresh.offerAll states).2 =
        { config, states := (states.filter (decide ·.Finite)).mergeSort fun s t => decide (s.time ≤ t.time) } ∧
      (SameTies (·.time) (states.filter (decide ·.Finite)) (others.filter (decide ·.Finite)) →
        ∀ (σ : Type) [Sink σ Float] (sink : σ) (sizes : String → Option (Vec2 Float)) (options : PassOptions Float),
          (fresh.offerAll states).2.compile sink sizes options =
            (fresh.offerAll others).2.compile sink sizes options) := by
  intro fresh
  have nothing : Sorted (·.time) fresh.states := ⟨nofun, List.Pairwise.nil⟩
  have defined (states : List (State Float)) : ∀ s ∈ states.filter (decide ·.Finite), s.time ≤ s.time :=
    fun s member => (of_decide_eq_true (List.mem_filter.mp member).2 : s.Finite).defined
  have buffered (states : List (State Float)) : (fresh.offerAll states).2 =
      { config, states := (states.filter (decide ·.Finite)).mergeSort fun s t => decide (s.time ≤ t.time) } := by
    rw [offerAll_eq nothing]
    exact congrArg (Compiler.mk config) (foldl_placed nothing (defined states))
  refine ⟨by rw [offerAll_eq nothing], buffered states, fun same σ _ sink sizes options => ?_⟩
  have equal := (mergeSort_sorted (defined states)).eq_mergeSort
    (fun tie => (mergeSort_sameTies (defined states) tie).trans (same tie)) (defined others)
  rw [buffered, buffered, equal]

theorem arrivals_sorted_shuffled :
    let early : State Float := { State.neutral 1.0 with opacity := 0.5 }
    let broken : State Float := { State.neutral 1.0 with rotation := 0.0 / 0.0 }
    let states : List (State Float) := [early, .neutral 2.0, broken, .neutral 1.0]
    let others : List (State Float) := [.neutral 2.0, early, .neutral 1.0]
    let fresh : Compiler Float := { config := .standard }
    SameTies (·.time) (states.filter (decide ·.Finite)) (others.filter (decide ·.Finite)) ∧
      (fresh.offerAll states).2.compile blankScript (fun _ => none) .standard =
        (fresh.offerAll others).2.compile blankScript (fun _ => none) .standard := by
  intro early broken states others fresh
  have finite : early.Finite ∧ (State.neutral 2.0 : State Float).Finite ∧ (State.neutral 1.0 : State Float).Finite := by
    decide +kernel
  have refused : ¬broken.Finite := by decide +kernel
  have same : SameTies (·.time) (states.filter (decide ·.Finite)) (others.filter (decide ·.Finite)) := by
    intro tie
    have kept : states.filter (decide ·.Finite) = [early, .neutral 2.0, .neutral 1.0] ∧
        others.filter (decide ·.Finite) = [.neutral 2.0, early, .neutral 1.0] := by
      simp [states, others, finite, refused]
    have times : early.time = 1.0 ∧ (State.neutral 1.0 : State Float).time = 1.0 ∧
        (State.neutral 2.0 : State Float).time = 2.0 := ⟨rfl, rfl, rfl⟩
    rw [kept.1, kept.2]
    cases two : (2.0 : Float) == tie with
    | false => simp [List.filter_cons, times, two]
    | true =>
      have one : ((1.0 : Float) == tie) = false := by
        by_contra same
        have equal := PartialEquivBEq.trans (Bool.eq_true_of_not_eq_false same) (PartialEquivBEq.symm two)
        exact absurd equal (by decide)
      simp [times, one, two]
  exact ⟨same, (arrivals_sorted .standard states others).2.2 same (Script Float) blankScript (fun _ => none) .standard⟩

end Tween.Compiler
