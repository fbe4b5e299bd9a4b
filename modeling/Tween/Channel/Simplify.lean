import Tween.Channel.Stretch
import Tween.Distance

/-! Leaving out keyframes that the curve does not need. -/

namespace Tween.Channel
variable {α V : Type} [Scalar α]

-- Sums of natural numbers start from the literal zero, whatever else is loaded.
attribute [local instance (high)] Zero.ofOfNat0

/-- Twice the interior and one more, so that a split makes the sum over all stretches smaller. -/
def workload (stretches : List (Stretch α V)) : Nat :=
  (stretches.map fun s => 2 * s.interior.length + 1).sum

/-- The keyframes kept behind the first one of adjoining stretches. The list is a stack of what is
left to do, so a long channel needs no deep recursion on its halves. -/
def keptBehind (tolerance : α) (deviation : Deviation α V) (stretches : List (Stretch α V)) :
    List (Keyframe α V) :=
  match stretches with
  | [] => []
  | s :: remaining =>
    match _found : s.split? tolerance deviation with
    | none => s.last :: keptBehind tolerance deviation remaining
    | some p =>
      keptBehind tolerance deviation
        (⟨s.first, p.before, p.top⟩ :: ⟨p.top, p.after, s.last⟩ :: remaining)
termination_by workload stretches
decreasing_by
  · simp only [workload, List.map_cons, List.sum_cons]; omega
  · have interior := congrArg List.length (Stretch.split?_interior _found)
    simp only [List.length_append, List.length_cons] at interior
    simp only [workload, List.map_cons, List.sum_cons]; omega

/-- The keyframes behind `previous` that differ from a neighbour, and the last one. -/
def runEnds [BEq V] (previous : Keyframe α V) : List (Keyframe α V) → List (Keyframe α V)
  | [] => []
  | [last] => [last]
  | k :: next :: rest =>
    let others := runEnds k (next :: rest)
    if previous.value != k.value || next.value != k.value then k :: others else others

/-- Fewer than three keyframes are all needed. Without a tolerance only the inside of runs of
equal values is left out, which no sample can show. -/
def simplify [BEq V] (c : Channel α V) (tolerance : α) (deviation : Deviation α V) : Channel α V :=
  match c.keyframes with
  | first :: second :: third :: rest =>
    let behind := second :: third :: rest
    let keyframes :=
      if tolerance ≤ 0.0 then first :: runEnds first behind
      else first :: keptBehind tolerance deviation
        [⟨first, behind.dropLast, behind.getLast (List.cons_ne_nil _ _)⟩]
    { c with keyframes }
  | _ => c

/-- Simplification of points `(time, project value)`. -/
def simplify1 [BEq V] (c : Channel α V) (tolerance : α) (project : V → α) : Channel α V :=
  let point (k : Keyframe α V) : Vec2 α := ⟨k.time, project k.value⟩
  c.simplify tolerance fun a m z => Distance.toLine2 (point a) (point m) (point z)

/-- Simplification of points `(time, x, y)`. -/
def simplify2 [BEq V] (c : Channel α V) (tolerance : α) (project : V → Vec2 α) : Channel α V :=
  let point (k : Keyframe α V) : Vec3 α :=
    let v := project k.value
    ⟨k.time, v.x, v.y⟩
  c.simplify tolerance fun a m z => Distance.toLine3 (point a) (point m) (point z)

/-- Simplification of points `(time, x, y, z)`. -/
def simplify3 [BEq V] (c : Channel α V) (tolerance : α) (project : V → Vec3 α) : Channel α V :=
  let point (k : Keyframe α V) : Vec4 α :=
    let v := project k.value
    ⟨k.time, v.x, v.y, v.z⟩
  c.simplify tolerance fun a m z => Distance.toLine4 (point a) (point m) (point z)

end Tween.Channel
