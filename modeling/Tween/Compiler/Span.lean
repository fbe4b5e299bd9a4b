import Tween.State

/-! The visible spans of an object's states, each with the invisible states around it. -/

namespace Tween

/-- A longest run of visible states: `first` and `rest`. -/
structure Span (α : Type) where
  before : Option (State α)
  first : State α
  rest : List (State α)
  after : Option (State α)

namespace Span
variable {α : Type}

/-- The spans of states in time order; `before` is the state that precedes them all. -/
def ofStates (visible : State α → Bool) (before : Option (State α)) : List (State α) → List (Span α)
  | [] => []
  | state :: states =>
    if visible state then
      let behind := states.dropWhile visible
      ⟨before, state, states.takeWhile visible, behind.head?⟩ :: ofStates visible none behind
    else ofStates visible (some state) states
termination_by states => states.length
decreasing_by
  · have := (states.dropWhile_sublist visible).length_le
    simp only [List.length_cons]
    omega
  · simp

def seen (span : Span α) : List (State α) := span.first :: span.rest

/-- The way into the first span starts at the state before it, the way out of any span ends at the
state after it. -/
def recorded (span : Span α) (leading : Bool) : List (State α) :=
  (if leading then span.before.toList else []) ++ span.seen ++ span.after.toList

end Span
end Tween
