import Tween.Channel.Stretch

/-! Simplification in place. Keyframes are named by their positions and never moved: every position
has a mark that says whether its keyframe is kept, and a stack holds the ranges between marked
positions that are left to do. -/

namespace Tween

/-- The range to do next comes first. -/
structure Sweep where
  keep : List Bool
  pending : List (Nat × Nat)

namespace Sweep
variable {α V : Type}

/-- Only the ends are marked, and all between them is left to do. -/
def start (count : Nat) : Sweep where
  keep := ((List.replicate count false).set 0 true).set (count - 1) true
  pending := [(0, count - 1)]

/-- The keyframes that are marked. Behind the last mark nothing goes. -/
def retained : List Bool → List (Keyframe α V) → List (Keyframe α V)
  | kept :: keep, k :: keyframes => if kept then k :: retained keep keyframes else retained keep keyframes
  | _, keyframes => keyframes

variable [Scalar α]

/-- Looks through positions for one with a greater distance than the best so far. Nothing is found
when a position has no distance. -/
def farthest? (distance? : Nat → Option α) (best : Nat × α) : List Nat → Option (Nat × α)
  | [] => some best
  | middle :: rest =>
    (distance? middle).bind fun distance =>
      farthest? distance? (if best.2 < distance then (middle, distance) else best) rest

/-- A position outside of the keyframes has no distance. -/
def distance? (deviation : Channel.Deviation α V) (keyframes : List (Keyframe α V)) (first last middle : Nat) : Option α :=
  keyframes[first]?.bind fun a => keyframes[middle]?.bind fun m => keyframes[last]?.map fun z => deviation a m z

/-- Takes the next range from the stack. If the farthest position in it is farther than the
tolerance, that one is marked and both halves are left to do. There is no next state when nothing
is left to do, or when a position is read or marked that does not exist. -/
def next? (tolerance : α) (deviation : Channel.Deviation α V) (keyframes : List (Keyframe α V)) (s : Sweep) : Option Sweep :=
  match s.pending with
  | [] => none
  | (first, last) :: pending =>
    if last ≤ first + 1 then some { s with pending }
    else
      (farthest? (distance? deviation keyframes first last) (first, 0.0)
        (List.range' (first + 1) (last - (first + 1)))).bind fun (top, distance) =>
          if tolerance < distance then
            if top < s.keep.length then some ⟨s.keep.set top true, (first, top) :: (top, last) :: pending⟩ else none
          else some { s with pending }

end Sweep
end Tween
