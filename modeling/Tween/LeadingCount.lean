/-! Binary search for the end of the leading elements that satisfy a predicate. -/

namespace Tween

/-- Halves a window until one element is left. When the elements that satisfy `p` all come first
this is their number; otherwise it is what the same halving arrives at. -/
def leadingCount {β : Type} (p : β → Bool) (xs : List β) : Nat :=
  if xs.length ≤ 1 then
    if xs.any p then 1 else 0
  else
    let half := xs.length / 2
    if (xs.drop half).head?.any p then half + leadingCount p (xs.drop half)
    else leadingCount p (xs.take (xs.length - half))
termination_by xs.length
decreasing_by
  · simp only [List.length_drop]; omega
  · simp only [List.length_take]; omega

end Tween
