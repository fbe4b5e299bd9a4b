import Tween.Channel

/-! The keyframes between two that are kept, seen as points whose first coordinate is their time.
The point farthest from the line through the ends is needed as well if it is farther than the
tolerance, and so on for both halves. -/

namespace Tween.Channel
variable {α V : Type}

/-- How far the second keyframe is from the line through the first and the third. -/
abbrev Deviation (α V : Type) := Keyframe α V → Keyframe α V → Keyframe α V → α

/-- Keyframes between two kept ones. -/
structure Stretch (α V : Type) where
  first : Keyframe α V
  interior : List (Keyframe α V)
  last : Keyframe α V

/-- A keyframe of a stretch's interior that stands out, with its neighbours on both sides. -/
structure Peak (α V : Type) where
  before : List (Keyframe α V)
  top : Keyframe α V
  after : List (Keyframe α V)
  height : α

variable [Scalar α]

/-- The first keyframe of the greatest height, if any height is above zero. -/
def peak? (height : Keyframe α V → α) : List (Keyframe α V) → Option (Peak α V)
  | [] => none
  | k :: after =>
    let own := height k
    match peak? height after with
    | some later =>
      if 0.0 < own ∧ ¬own < later.height then some ⟨[], k, after, own⟩
      else some { later with before := k :: later.before }
    | none => if 0.0 < own then some ⟨[], k, after, own⟩ else none

theorem peak?_interior {height : Keyframe α V → α} {interior : List (Keyframe α V)} {p : Peak α V}
    (found : peak? height interior = some p) : interior = p.before ++ p.top :: p.after := by
  induction interior generalizing p with
  | nil => simp [peak?] at found
  | cons k after ih =>
    simp only [peak?] at found
    split at found
    next later present =>
      split at found
      · cases found; rfl
      · cases found; simp [ih present]
    next =>
      split at found
      · cases found; rfl
      · cases found

/-- Where a stretch has to be split, if its interior cannot be left out altogether. -/
def Stretch.split? (tolerance : α) (deviation : Deviation α V) (s : Stretch α V) : Option (Peak α V) :=
  (peak? (fun k => deviation s.first k s.last) s.interior).filter fun p => tolerance < p.height

theorem Stretch.split?_interior {tolerance : α} {deviation : Deviation α V} {s : Stretch α V} {p : Peak α V}
    (found : s.split? tolerance deviation = some p) : s.interior = p.before ++ p.top :: p.after :=
  peak?_interior (Option.filter_eq_some_iff.mp found).1

/-- The keyframes that are needed between the ends. -/
def Stretch.kept (tolerance : α) (deviation : Deviation α V) (s : Stretch α V) : List (Keyframe α V) :=
  match _found : s.split? tolerance deviation with
  | none => []
  | some p =>
    kept tolerance deviation ⟨s.first, p.before, p.top⟩
      ++ p.top :: kept tolerance deviation ⟨p.top, p.after, s.last⟩
termination_by s.interior.length
decreasing_by
  all_goals
    have interior := congrArg List.length (Stretch.split?_interior _found)
    simp only [List.length_append, List.length_cons] at interior
    omega

end Tween.Channel
