import Tween.Proofs.Channel.PairEnds
import Tween.Proofs.Channel.Passing
import Tween.Proofs.Channel.Stillness

/-! How far the pairs of a channel reach. A window that contains the keyframes is covered from end
to end, and whatever is stated there comes from a keyframe. -/

namespace Tween.Channel
open Scalar OrderLaws
variable {α V : Type} [Scalar α] {playback : Playback α V} {pairs : List (Pair α V)} {startTime endTime time : α}

section Window
variable [OrderLaws α]

theorem leadIn_begins (given : playback.startTime = some startTime) (early : ∀ p ∈ pairs.head?, startTime ≤ p.start.time) :
    ∀ p ∈ (leadIn playback pairs).head?, (p.start.time == startTime) = true := by
  cases pairs with
  | nil => exact fun p member => absurd member (Option.not_mem_none p)
  | cons first rest =>
    have ahead := early first rfl
    unfold leadIn
    rw [given]
    dsimp only
    split
    · rintro _ ⟨⟩
      exact beq_of_defined (le_defined ahead).1
    next reached =>
      rintro _ ⟨⟩
      exact BEq.symm ((lt_or_beq_of_le ahead).resolve_left reached)

theorem leadOut_ends (given : playback.endTime = some endTime) (late : ∀ p ∈ pairs.getLast?, p.stop.time ≤ endTime) :
    ∀ p ∈ (leadOut playback pairs).getLast?, (p.stop.time == endTime) = true := by
  unfold leadOut
  rw [given]
  cases found : pairs.getLast? with
  | none => rw [found]; exact fun p member => absurd member (Option.not_mem_none p)
  | some last =>
    have behind := late last found
    dsimp only
    split
    · rw [List.getLast?_concat]
      rintro _ ⟨⟩
      exact beq_of_defined (le_defined behind).2
    next reached =>
      rw [found]
      rintro _ ⟨⟩
      exact (lt_or_beq_of_le behind).resolve_left reached

end Window

variable [BEq V]

omit [Scalar α] in
theorem mem_constant {first last : Keyframe α V} {p : Pair α V} (member : p ∈ constant playback first last) :
    p.start = first.atTime (playback.startTime.getD first.time) ∧
      p.stop = if playback.startTime.isSome || playback.endTime.isSome then first.atTime (playback.endTime.getD last.time)
        else p.start := by
  unfold constant at member
  dsimp only at member
  split at member
  · obtain rfl := List.mem_singleton.mp member
    exact ⟨rfl, rfl⟩
  · cases member

/-- Where a keyframe that is played comes from. A move to an end of the window keeps the value. -/
structure Stems (c : Channel α V) (playback : Playback α V) (k : Keyframe α V) : Prop where
  value : ∃ s ∈ c.keyframes, k.value = playback.edit s.value
  time : ∃ s ∈ c.keyframes, (k.value == playback.edit s.value) = true ∧
    (k.time = s.time ∨ playback.startTime = some k.time ∨ playback.endTime = some k.time)

section Stems
variable [EquivBEq V] {c : Channel α V} {k : Keyframe α V}
omit [Scalar α]

theorem Stems.stored (member : k ∈ edited playback.edit c.keyframes) : c.Stems playback k := by
  obtain ⟨s, found, rfl⟩ := List.mem_map.mp member
  exact ⟨⟨s, found, rfl⟩, s, found, BEq.refl _, Or.inl rfl⟩

theorem Stems.moved (stems : c.Stems playback k) (given : playback.startTime = some time ∨ playback.endTime = some time) :
    c.Stems playback (k.atTime time) := by
  obtain ⟨s, found, same⟩ := stems.value
  exact ⟨⟨s, found, same⟩, s, found, same ▸ BEq.refl _, Or.inr given⟩

private theorem constant_stems {first last : Keyframe α V} (begun : c.Stems playback first)
    (ended : last ∈ edited playback.edit c.keyframes) (level : (first.value == last.value) = true) :
    ∀ p ∈ constant playback first last, c.Stems playback p.start ∧ c.Stems playback p.stop := by
  intro p member
  obtain ⟨starts, stops⟩ := mem_constant member
  have held : c.Stems playback p.start := by
    rw [starts]
    cases given : playback.startTime with
    | none => exact begun
    | some startTime => exact begun.moved (Or.inl given)
  refine ⟨held, ?_⟩
  rw [stops]
  split
  next =>
    cases given : playback.endTime with
    | none =>
      -- The value is the first one, at the time of the last one.
      obtain ⟨s, found, rfl⟩ := List.mem_map.mp ended
      exact ⟨begun.value, s, found, level, Or.inl rfl⟩
    | some endTime => exact begun.moved (Or.inr given)
  next => exact held

end Stems

section Pairs
variable [OrderLaws α] [EquivBEq V] {c : Channel α V}

/-- The pairs of a channel are those of its transitions, extended to the window, or there is one
that states a value which the first and the last keyframe share. -/
theorem pairs_cases (c : Channel α V) (playback : Playback α V) :
    (c.keyframes = [] ∧ c.pairs playback = []) ∨
      (∃ first ∈ (edited playback.edit c.keyframes).head?, ∃ last ∈ (edited playback.edit c.keyframes).getLast?,
        (first.value == last.value) = true ∧ c.pairs playback = constant playback first last) ∨
      ∃ first behind, edited playback.edit c.keyframes = first :: behind ∧
        c.pairs playback = leadOut playback (leadIn playback (transitions playback.loopable none first behind)) := by
  cases shape : edited playback.edit c.keyframes with
  | nil =>
    have empty : c.keyframes = [] := List.map_eq_nil_iff.mp shape
    exact Or.inl ⟨empty, by simp [pairs, empty]⟩
  | cons first behind =>
    refine Or.inr ?_
    by_cases still : Still playback.loopable first behind
    · refine Or.inl ⟨first, rfl, _, List.getLast?_eq_some_getLast (List.cons_ne_nil first behind), ?_, ?_⟩
      · rcases List.mem_cons.mp (List.getLast_mem (List.cons_ne_nil first behind)) with same | later
        · rw [same]
          exact BEq.refl _
        · exact still.2 _ later
      · rw [pairs_still shape still, leadOut_constant]
    · exact Or.inr ⟨first, behind, rfl, pairs_moving shape still⟩

theorem pairs_stem (c : Channel α V) (playback : Playback α V) :
    ∀ p ∈ c.pairs playback, c.Stems playback p.start ∧ c.Stems playback p.stop := by
  rcases pairs_cases c playback with ⟨_, none⟩ | ⟨first, head, last, ending, level, stated⟩ | ⟨first, behind, shape, moving⟩
  · rw [none]
    exact List.forall_mem_nil _
  · rw [stated]
    exact constant_stems (.stored (List.mem_of_mem_head? head)) (List.mem_of_mem_getLast? ending) level
  · rw [moving]
    refine leadOut_both (leadIn_both ?_ fun time given _ stems => stems.moved (Or.inl given))
      fun time given _ stems => stems.moved (Or.inr given)
    intro p member
    obtain ⟨begun, ended⟩ := transitions_members member
    exact ⟨.stored (shape ▸ begun), .stored (shape ▸ ended)⟩

variable (ordered : Ordered c.keyframes)
include ordered

omit [EquivBEq V] in
private theorem moves_successive {edit : V → V} {force : Bool} {first : Keyframe α V} {behind : List (Keyframe α V)}
    (shape : edited edit c.keyframes = first :: behind) : Successive first.time (transitions force none first behind) :=
  transitions_successive (shape ▸ ordered.edited edit) fun s found => absurd found (Option.not_mem_none s)

theorem pairs_successive (playback : Playback α V) : (c.pairs playback).Pairwise (·.stop.time ≤ ·.start.time) := by
  rcases pairs_cases c playback with ⟨_, none⟩ | ⟨first, _, last, _, _, stated⟩ | ⟨first, behind, shape, moving⟩
  · rw [none]
    exact List.Pairwise.nil
  · rw [stated, constant]
    split
    · exact List.pairwise_singleton _ _
    · exact List.Pairwise.nil
  · obtain ⟨time, successive⟩ := (moves_successive ordered shape).leadIn playback
    exact moving ▸ (successive.leadOut playback).pairwise

theorem pairs_begin (given : playback.startTime = some startTime) (early : ∀ first ∈ c.first?, startTime ≤ first.time) :
    ∀ p ∈ (c.pairs playback).head?, (p.start.time == startTime) = true := by
  have ahead : ∀ first ∈ (edited playback.edit c.keyframes).head?, startTime ≤ first.time := by
    intro first head
    obtain ⟨stored, found, rfl⟩ := Option.map_eq_some_iff.mp (List.head?_map.symm.trans head)
    exact early stored found
  rcases pairs_cases c playback with ⟨_, none⟩ | ⟨first, head, last, _, _, stated⟩ | ⟨first, behind, shape, moving⟩
  · rw [none]
    exact fun p member => absurd member (Option.not_mem_none p)
  · rw [stated]
    intro p member
    rw [(mem_constant (List.mem_of_mem_head? member)).1, given]
    exact beq_of_defined (le_defined (ahead first head)).1
  · rw [moving, leadOut_head]
    refine leadIn_begins given fun p member => ?_
    have behindFirst := ((moves_successive ordered shape).bounds (List.mem_of_mem_head? member)).1
    exact le_trans (ahead first (by rw [shape]; rfl)) behindFirst

theorem pairs_end (given : playback.endTime = some endTime) (late : ∀ last ∈ c.last?, last.time ≤ endTime) :
    ∀ p ∈ (c.pairs playback).getLast?, (p.stop.time == endTime) = true := by
  have passed : ∀ last ∈ (edited playback.edit c.keyframes).getLast?, last.time ≤ endTime := by
    intro last ending
    obtain ⟨stored, found, rfl⟩ := Option.map_eq_some_iff.mp (List.getLast?_map.symm.trans ending)
    exact late stored found
  rcases pairs_cases c playback with ⟨_, none⟩ | ⟨first, _, last, ending, _, stated⟩ | ⟨first, behind, shape, moving⟩
  · rw [none]
    exact fun p member => absurd member (Option.not_mem_none p)
  · rw [stated]
    intro p member
    rw [(mem_constant (List.mem_of_mem_getLast? member)).2, given, Option.isSome_some, Bool.or_true, if_pos rfl]
    exact beq_of_defined (le_defined (passed last ending)).2
  · rw [moving]
    refine leadOut_ends given fun p member => ?_
    rw [leadIn_last] at member
    have stored := (transitions_members (List.mem_of_mem_getLast? member)).2
    rw [← shape] at stored
    obtain ⟨last, ending⟩ : ∃ last, last ∈ (edited playback.edit c.keyframes).getLast? :=
      ⟨_, List.getLast?_eq_some_getLast (List.ne_nil_of_mem stored)⟩
    rcases (ordered.edited playback.edit).le_last ending stored with same | earlier
    · exact same ▸ passed last ending
    · exact le_trans earlier (passed last ending)

end Pairs

/-- The pairs of an ordered channel follow each other. They reach back to the start of a window in
front of all keyframes and on to the end of one behind them, and both ends of each come from a
keyframe. A channel that is played once has none exactly if all its values show anyway. -/
theorem pairs_reach [OrderLaws α] [EquivBEq V] {c : Channel α V} (ordered : Ordered c.keyframes) (playback : Playback α V) :
    (c.pairs playback).Pairwise (·.stop.time ≤ ·.start.time) ∧
      (∀ startTime ∈ playback.startTime, (∀ first ∈ c.first?, startTime ≤ first.time) →
        ∀ p ∈ (c.pairs playback).head?, (p.start.time == startTime) = true) ∧
      (∀ endTime ∈ playback.endTime, (∀ last ∈ c.last?, last.time ≤ endTime) →
        ∀ p ∈ (c.pairs playback).getLast?, (p.stop.time == endTime) = true) ∧
      (∀ p ∈ c.pairs playback, c.Stems playback p.start ∧ c.Stems playback p.stop) ∧
      (playback.loopable = false → (c.pairs playback = [] ↔
        c.keyframes = [] ∨ ∀ k ∈ c.keyframes, (playback.edit k.value == playback.rest) = true)) := by
  refine ⟨pairs_successive ordered playback, fun _ given early => pairs_begin ordered given early,
    fun _ given late => pairs_end ordered given late, pairs_stem c playback, fun once => ?_⟩
  rw [pairs_eq_nil_iff, once]
  constructor
  · rintro ⟨shown, _⟩
    exact Or.inr (List.forall_mem_map.mp shown)
  · rintro (empty | shown)
    · rw [empty]
      exact ⟨nofun, nofun⟩
    · exact ⟨List.forall_mem_map.mpr shown, nofun⟩

/-- A held value with a step behind it, a way up and down, and an instant at the end. -/
def detour : Channel Float Int where
  keyframes := [⟨0.0, 4, .linear, false⟩, ⟨1.0, 4, .linear, true⟩, ⟨1.0, 7, .linear, false⟩, ⟨2.0, 9, .easeIn .sine, false⟩,
    ⟨3.0, 9, .linear, true⟩, ⟨5.0, 1, .linear, false⟩, ⟨5.0, 4, .linear, false⟩]
  blend := none
  rest := 4

/-- The first pair starts where the window does, and the value of the last keyframe is held until
the window ends. -/
theorem pairs_reach_detour :
    let playback : Playback Float Int := { rest := 2, edit := (· / 2), startTime := some (-1.0), endTime := some 8.0 }
    Ordered detour.keyframes ∧ (∀ first ∈ detour.first?, (-1.0 : Float) ≤ first.time) ∧
      (∀ last ∈ detour.last?, last.time ≤ (8.0 : Float)) ∧ playback.loopable = false ∧
      (detour.pairs playback).Pairwise (·.stop.time ≤ ·.start.time) ∧
      (∀ p ∈ (detour.pairs playback).head?, (p.start.time == -1.0) = true) ∧
      (∀ p ∈ (detour.pairs playback).getLast?, (p.stop.time == 8.0) = true) ∧
      (∀ p ∈ detour.pairs playback, detour.Stems playback p.start ∧ detour.Stems playback p.stop) ∧
      detour.pairs playback ≠ [] := by
  intro playback
  have ordered : Ordered detour.keyframes := by unfold Ordered; decide
  have early : ∀ first ∈ detour.first?, (-1.0 : Float) ≤ first.time := by decide
  have late : ∀ last ∈ detour.last?, last.time ≤ (8.0 : Float) := by decide
  obtain ⟨follow, begins, ends, stem, none⟩ := pairs_reach ordered playback
  refine ⟨ordered, early, late, rfl, follow, begins _ rfl early, ends _ rfl late, stem, fun empty => ?_⟩
  have unseen := (none rfl).mp empty
  exact absurd unseen (by decide)

/-- The step behind the hold marker has no pair of its own, and the one at the end has. -/
example : let playback : Playback Float Int :=
      { rest := 2, edit := (· / 2), startTime := some (-1.0), endTime := some 8.0 }
    (((detour.pairs playback).map fun p => (p.start.time, p.stop.time)) ==
      [(-1.0, -1.0), (1.0, 2.0), (3.0, 5.0), (5.0, 5.0), (5.0, 8.0)]) = true := by decide +kernel

end Tween.Channel
