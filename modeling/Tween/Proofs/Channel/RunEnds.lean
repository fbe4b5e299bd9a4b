import Tween.Channel.Simplify

/-! Simplification without a tolerance keeps the ends of runs of equal values. A keyframe inside of
a run goes, whatever its time, easing and marker, and so it never stands next to a change. -/

namespace Tween.Channel
variable {α V : Type} [BEq V] {previous k : Keyframe α V} {rest : List (Keyframe α V)}

/-- Whether `k` equals both of its neighbours. At the end it has only one. -/
def inside (previous k : Keyframe α V) (rest : List (Keyframe α V)) : Bool :=
  rest.head?.any fun next => previous.value == k.value && next.value == k.value

theorem inside_iff :
    inside previous k rest = true ↔
      (previous.value == k.value) = true ∧ ∃ next more, rest = next :: more ∧ (next.value == k.value) = true := by
  cases rest <;> simp [inside]

/-- The next keyframe repeats what is inside. -/
theorem inside_next [PartialEquivBEq V] (found : inside previous k rest = true) :
    ∀ next ∈ rest.head?, (k.value == next.value) = true := by
  obtain ⟨_, next, more, rfl, repeated⟩ := inside_iff.mp found
  rintro _ ⟨⟩
  exact PartialEquivBEq.symm repeated

theorem runEnds_cons (previous k : Keyframe α V) (rest : List (Keyframe α V)) :
    runEnds previous (k :: rest) = if inside previous k rest then runEnds k rest else k :: runEnds k rest := by
  cases rest with
  | nil => rfl
  | cons next rest =>
    rw [runEnds, inside, List.head?_cons, Option.any_some]
    cases same : previous.value == k.value <;> cases repeated : next.value == k.value <;> simp [bne, same, repeated]

theorem runEnds_sublist (previous : Keyframe α V) (behind : List (Keyframe α V)) :
    (runEnds previous behind).Sublist behind := by
  induction behind generalizing previous with
  | nil => exact List.Sublist.refl _
  | cons k rest ih =>
    rw [runEnds_cons]
    split
    · exact (ih k).cons k
    · exact (ih k).cons_cons k

theorem runEnds_last (previous : Keyframe α V) (behind : List (Keyframe α V)) :
    (runEnds previous behind).getLast? = behind.getLast? := by
  induction behind generalizing previous with
  | nil => rfl
  | cons k rest ih =>
    rw [runEnds_cons]
    split
    next found =>
      obtain ⟨_, next, more, rfl, _⟩ := inside_iff.mp found
      rw [ih, List.getLast?_cons_cons]
    next => rw [List.getLast?_cons, ih, ← List.getLast?_cons]

/-- The first keyframe that stays equals the one in front of it if the first of all does. -/
theorem runEnds_flat [PartialEquivBEq V] {behind : List (Keyframe α V)}
    (flat : ∀ next ∈ behind.head?, (previous.value == next.value) = true) :
    ∀ next ∈ (runEnds previous behind).head?, (previous.value == next.value) = true := by
  induction behind generalizing previous with
  | nil => exact nofun
  | cons k rest ih =>
    rw [runEnds_cons]
    split
    next found =>
      intro kept head
      exact PartialEquivBEq.trans (inside_iff.mp found).1 (ih (inside_next found) kept head)
    next => exact flat

theorem runEnds_eq_nil_iff {behind : List (Keyframe α V)} : runEnds previous behind = [] ↔ behind = [] := by
  induction behind generalizing previous with
  | nil => exact Iff.rfl
  | cons k rest ih =>
    rw [runEnds_cons]
    split
    next found =>
      obtain ⟨_, next, more, rfl, _⟩ := inside_iff.mp found
      rw [ih]
      simp
    next => simp

section Repeated
variable (symmetric : ∀ v w : V, (v == w) = (w == v))
include symmetric

/-- Nothing more goes the second time. `last` is the keyframe that was kept last. -/
theorem runEnds_runEnds {last : Keyframe α V} {behind : List (Keyframe α V)}
    (rests : last = previous ∨ ∀ next ∈ behind.head?, (previous.value == next.value) = true) :
    runEnds last (runEnds previous behind) = runEnds previous behind := by
  induction behind generalizing last previous with
  | nil => rfl
  | cons k rest ih =>
    rw [runEnds_cons previous]
    split
    next found =>
      obtain ⟨_, next, more, rfl, repeated⟩ := inside_iff.mp found
      refine ih (Or.inr ?_)
      rintro _ ⟨⟩
      exact (symmetric _ _).trans repeated
    next outside =>
      rw [runEnds_cons last, ih (Or.inl rfl), if_neg]
      intro found
      obtain ⟨same, next, more, kept, repeated⟩ := inside_iff.mp found
      -- A neighbour that repeats `k` was kept because it is the next one, so `k` was inside before.
      refine outside (inside_iff.mpr ⟨?_, ?_⟩)
      · rcases rests with rfl | flat
        · exact same
        · exact flat k rfl
      · cases rest with
        | nil => cases kept
        | cons y rest =>
          refine ⟨y, rest, rfl, ?_⟩
          rw [runEnds_cons] at kept
          split at kept
          next gone => exact (symmetric _ _).trans (inside_iff.mp gone).1
          next => exact (List.cons.inj kept).1 ▸ repeated

end Repeated

section Simplify
variable [Scalar α] {c : Channel α V} {tolerance : α}

theorem simplify_eq (c : Channel α V) (tolerance : α) (deviation : Deviation α V) :
    c.simplify tolerance deviation = { c with keyframes := (c.simplify tolerance deviation).keyframes } := by
  unfold simplify
  split <;> rfl

theorem simplify_short (short : c.keyframes.length < 3) (tolerance : α) (deviation : Deviation α V) :
    c.simplify tolerance deviation = c := by
  unfold simplify
  split
  next shape =>
    rw [shape, List.length_cons, List.length_cons, List.length_cons] at short
    omega
  next => rfl

/-- Without a tolerance the ends of runs stay, also in a channel too short to be looked at. -/
theorem simplify_lossless (lossless : tolerance ≤ 0.0) (deviation : Deviation α V) {first : Keyframe α V}
    {behind : List (Keyframe α V)} (shape : c.keyframes = first :: behind) :
    (c.simplify tolerance deviation).keyframes = first :: runEnds first behind := by
  match behind, shape with
  | [], shape => rw [simplify_short (by simp [shape]), shape]; rfl
  | [_], shape => rw [simplify_short (by simp [shape]), shape]; rfl
  | second :: third :: rest, shape =>
    unfold simplify
    simp only [shape, if_pos lossless]

theorem simplify_lossless_twice (symmetric : ∀ v w : V, (v == w) = (w == v)) (lossless : tolerance ≤ 0.0)
    (deviation : Deviation α V) (c : Channel α V) :
    (c.simplify tolerance deviation).simplify tolerance deviation = c.simplify tolerance deviation := by
  cases shape : c.keyframes with
  | nil =>
    have short : c.keyframes.length < 3 := by simp [shape]
    rw [simplify_short short, simplify_short short]
  | cons first behind =>
    have once := simplify_lossless lossless deviation shape
    rw [simplify_eq (c.simplify tolerance deviation), simplify_lossless lossless deviation once,
      runEnds_runEnds symmetric (Or.inl rfl), ← once]

end Simplify

end Tween.Channel
