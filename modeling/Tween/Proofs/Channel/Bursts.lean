import Tween.Proofs.Channel.Stillness

/-! Where the pairs of a channel come from. A move between neighbours has a pair exactly if their
values differ. The steps of one instant have a single pair, from the first value to the last, and
these two are compared nowhere. So a burst of steps that comes back has a pair without any effect. -/

namespace Tween.Channel
open Scalar OrderLaws
variable {α V : Type} [Scalar α] [BEq V]

/-- All the steps of one instant: none leads to the first keyframe, and none away from the last. -/
structure Burst (keyframes : List (Keyframe α V)) where
  front : List (Keyframe α V)
  opened : Keyframe α V
  through : List (Keyframe α V)
  closed : Keyframe α V
  behind : List (Keyframe α V)
  split : keyframes = front ++ opened :: (through ++ closed :: behind)
  steps : (opened :: (through ++ [closed])).IsChain Step
  entered : ∀ k ∈ front.getLast?, ¬Step k opened
  left : ∀ k ∈ behind.head?, ¬Step closed k

def Moved (keyframes : List (Keyframe α V)) (p : Pair α V) : Prop :=
  [p.start, p.stop] <:+: keyframes ∧ ¬Flat p.start p.stop ∧ ¬Step p.start p.stop

section Burst
variable {keyframes : List (Keyframe α V)} {previous next : Keyframe α V} {behind : List (Keyframe α V)}

def Burst.pair (burst : Burst keyframes) : Pair α V := ⟨burst.opened, burst.closed⟩

/-- A hold marker opened the burst, and the move behind it states where it led. -/
def Burst.Restated (burst : Burst keyframes) : Prop :=
  burst.opened.hold = true ∧ ∃ k ∈ burst.behind.head?, ¬Flat burst.closed k

def Burst.precede (burst : Burst (next :: behind)) (apart : burst.front = [] → ¬Step previous next) :
    Burst (previous :: next :: behind) where
  front := previous :: burst.front
  opened := burst.opened
  through := burst.through
  closed := burst.closed
  behind := burst.behind
  split := congrArg (previous :: ·) burst.split
  steps := burst.steps
  left := burst.left
  entered := by
    have split := burst.split
    have entered := burst.entered
    intro k last
    cases front : burst.front with
    | nil =>
      rw [front] at split last
      obtain rfl := Option.some.inj last
      exact (List.cons.inj split).1 ▸ apart front
    | cons first front =>
      rw [front, List.getLast?_cons_cons] at last
      rw [front] at entered
      exact entered k last

theorem Moved.precede {p : Pair α V} (moved : Moved keyframes p) (previous : Keyframe α V) :
    Moved (previous :: keyframes) p :=
  ⟨moved.1.trans (List.suffix_cons previous keyframes).isInfix, moved.2⟩

end Burst

section Transitions
variable {step : Option (Keyframe α V)} {previous next : Keyframe α V} {behind : List (Keyframe α V)} {p : Pair α V}

/-- A step has no pair while it goes on. Anything else first closes what is open, unless it restates it. -/
theorem mem_transitions_cons : p ∈ transitions false step previous (next :: behind) ↔
    Step previous next ∧ p ∈ transitions false (some (step.getD previous)) next behind ∨
      ¬Step previous next ∧ ((∃ s ∈ step, (s.hold = true → Flat previous next) ∧ p = ⟨s, previous⟩) ∨
        (¬Flat previous next ∧ p = ⟨previous, next⟩) ∨ p ∈ transitions false none next behind) := by
  have closed (kept : Option (Keyframe α V)) : p ∈ kept.toList.map (⟨·, previous⟩ : _ → Pair α V) ↔
      ∃ s ∈ kept, p = ⟨s, previous⟩ := by
    simp [eq_comm]
  rcases transition_cases previous next with stepping | flat | ⟨differ, apart⟩
  · have stepping : Step previous next := stepping
    rw [transitions_step stepping.1 stepping.2]
    simp [stepping]
  · have still : ¬Step previous next := fun stepping => Bool.false_ne_true (stepping.1.symm.trans flat)
    have flat : Flat previous next := flat
    rw [transitions_flat flat, List.mem_append, closed]
    simp [still, flat]
  · have still : ¬Step previous next := fun stepping => Bool.false_ne_true (apart.symm.trans stepping.2)
    have moving : ¬Flat previous next := fun flat => Bool.false_ne_true (differ.symm.trans flat)
    rw [transitions_moved differ apart, List.mem_append, List.mem_cons, closed]
    simp [still, moving, Option.filter_eq_some_iff, and_assoc]

/-- What is left of a burst that `opened` began. -/
private def Closes (opened : Keyframe α V) (keyframes : List (Keyframe α V)) (closed : Keyframe α V) : Prop :=
  ∃ through behind, keyframes = through ++ closed :: behind ∧ (through ++ [closed]).IsChain Step ∧
    ∀ k ∈ behind.head?, ¬Step closed k ∧ (opened.hold = true → Flat closed k)

private theorem Closes.onward {opened closed : Keyframe α V} (closes : Closes opened (next :: behind) closed)
    (stepping : Step previous next) : Closes opened (previous :: next :: behind) closed := by
  obtain ⟨through, rest, split, steps, left⟩ := closes
  exact ⟨previous :: through, rest, congrArg (previous :: ·) split, chain_extend steps stepping split, left⟩

private theorem Closes.burst {closed : Keyframe α V} (closes : Closes previous (next :: behind) closed)
    (stepping : Step previous next) :
    ∃ burst : Burst (previous :: next :: behind), ¬burst.Restated ∧ (⟨previous, closed⟩ : Pair α V) = burst.pair := by
  obtain ⟨through, rest, split, steps, left⟩ := closes
  refine ⟨⟨[], previous, through, closed, rest, congrArg (previous :: ·) split, chain_extend steps stepping split,
    nofun, fun k head => (left k head).1⟩, ?_, rfl⟩
  rintro ⟨hold, k, head, differ⟩
  exact differ ((left k head).2 hold)

private theorem transitions_origin (member : p ∈ transitions false step previous behind) :
    (p.start ∈ step ∧ Closes p.start (previous :: behind) p.stop) ∨ Moved (previous :: behind) p ∨
      ∃ burst : Burst (previous :: behind), (burst.front = [] → step = none) ∧ ¬burst.Restated ∧ p = burst.pair := by
  -- The step that is open began in front of `previous`, so its pair is no burst of what lies ahead.
  induction behind generalizing step previous with
  | nil =>
    obtain ⟨s, found, rfl⟩ := List.mem_map.mp member
    exact Or.inl ⟨Option.mem_toList.mp found, [], [], rfl, List.isChain_singleton _, nofun⟩
  | cons next behind ih =>
    rcases mem_transitions_cons.mp member with
      ⟨stepping, later⟩ | ⟨still, ⟨s, found, restated, rfl⟩ | ⟨differ, rfl⟩ | later⟩
    · rcases ih later with ⟨opened, closes⟩ | moved | ⟨burst, begun, stated, rfl⟩
      · cases step with
        | some s => exact Or.inl ⟨opened, closes.onward stepping⟩
        | none =>
          obtain ⟨start, stop⟩ := p
          obtain rfl : previous = start := Option.some.inj opened
          obtain ⟨burst, stated, same⟩ := closes.burst stepping
          exact Or.inr (Or.inr ⟨burst, fun _ => rfl, stated, same⟩)
      · exact Or.inr (Or.inl (moved.precede previous))
      · have later : burst.front ≠ [] := fun front => Option.some_ne_none _ (begun front)
        exact Or.inr (Or.inr ⟨burst.precede fun front => absurd front later, nofun, stated, rfl⟩)
    · exact Or.inl ⟨found, [], next :: behind, rfl, List.isChain_singleton _, by rintro k ⟨⟩; exact ⟨still, restated⟩⟩
    · exact Or.inr (Or.inl ⟨⟨[], behind, rfl⟩, differ, still⟩)
    · rcases ih later with ⟨opened, _⟩ | moved | ⟨burst, _, stated, rfl⟩
      · cases opened
      · exact Or.inr (Or.inl (moved.precede previous))
      · exact Or.inr (Or.inr ⟨burst.precede fun _ => still, nofun, stated, rfl⟩)

/-- The transitions go on from every keyframe, and no step is open at one that is not stepped to. -/
private theorem transitions_reach {front : List (Keyframe α V)} {k : Keyframe α V} {rest : List (Keyframe α V)}
    (split : previous :: behind = front ++ k :: rest) :
    ∃ opened, (∀ p ∈ transitions false opened k rest, p ∈ transitions false step previous behind) ∧
      ((∀ last ∈ front.getLast?, ¬Step last k) → (front = [] → step = none) → opened = none) := by
  induction front generalizing step previous behind with
  | nil =>
    obtain ⟨rfl, rfl⟩ := List.cons.inj split
    exact ⟨step, fun p member => member, fun _ closed => closed rfl⟩
  | cons first front ih =>
    obtain ⟨rfl, later⟩ := List.cons.inj split
    obtain ⟨next, more, shape⟩ := List.exists_cons_of_ne_nil (show front ++ k :: rest ≠ [] by simp)
    obtain rfl : behind = next :: more := later.trans shape
    by_cases stepping : Step previous next
    · obtain ⟨opened, later, closed⟩ := @ih (some (step.getD previous)) next more shape.symm
      refine ⟨opened, fun p member => mem_transitions_cons.mpr (Or.inl ⟨stepping, later p member⟩), fun apart _ => ?_⟩
      cases front with
      | nil => exact absurd ((List.cons.inj shape).1 ▸ stepping) (apart previous rfl)
      | cons second front => exact closed (by simpa using apart) nofun
    · obtain ⟨opened, later, closed⟩ := @ih none next more shape.symm
      refine ⟨opened, fun p member => mem_transitions_cons.mpr (Or.inr ⟨stepping, Or.inr (Or.inr (later p member))⟩),
        fun apart _ => ?_⟩
      cases front with
      | nil => exact closed nofun fun _ => rfl
      | cons second front => exact closed (by simpa using apart) nofun

private theorem Moved.mem {first : Keyframe α V} (moved : Moved (first :: behind) p) :
    p ∈ transitions false none first behind := by
  obtain ⟨⟨front, rest, split⟩, differ, still⟩ := moved
  obtain ⟨opened, later, _⟩ := @transitions_reach _ _ _ _ none first behind front p.start (p.stop :: rest)
    (by rw [← split]; simp)
  exact later p (mem_transitions_cons.mpr (Or.inr ⟨still, Or.inr (Or.inl ⟨differ, rfl⟩)⟩))

private theorem Burst.mem {first : Keyframe α V} (burst : Burst (first :: behind)) (stated : ¬burst.Restated) :
    burst.pair ∈ transitions false none first behind := by
  obtain ⟨opened, later, fresh⟩ := @transitions_reach _ _ _ _ none first behind _ _ _ burst.split
  obtain rfl := fresh burst.entered fun _ => rfl
  apply later
  rw [transitions_stepping burst.steps, Option.getD_none]
  cases rest : burst.behind with
  | nil => exact List.mem_singleton_self _
  | cons k rest' =>
    have head : k ∈ burst.behind.head? := by rw [rest]; rfl
    have restated : burst.opened.hold = true → Flat burst.closed k := by
      intro hold
      by_contra differ
      exact stated ⟨hold, k, head, differ⟩
    exact mem_transitions_cons.mpr (Or.inr ⟨burst.left k head, Or.inl ⟨_, rfl, restated, rfl⟩⟩)

theorem mem_transitions_iff {first : Keyframe α V} : p ∈ transitions false none first behind ↔
    Moved (first :: behind) p ∨ ∃ burst : Burst (first :: behind), ¬burst.Restated ∧ p = burst.pair := by
  constructor
  · intro member
    rcases transitions_origin member with ⟨opened, _⟩ | moved | ⟨burst, _, stated⟩
    · cases opened
    · exact Or.inl moved
    · exact Or.inr ⟨burst, stated⟩
  · rintro (moved | ⟨burst, stated, rfl⟩)
    · exact moved.mem
    · exact burst.mem stated

end Transitions

/-- Some burst has a pair and comes back to the value with which it began. -/
def Returns (keyframes : List (Keyframe α V)) : Prop :=
  ∃ burst : Burst keyframes, ¬burst.Restated ∧ Flat burst.opened burst.closed

omit [Scalar α] in
def Level (keyframes : List (Keyframe α V)) : Prop := ∀ k ∈ keyframes, ∀ k' ∈ keyframes, Flat k k'

section Pairs
variable {keyframes : List (Keyframe α V)} {first : Keyframe α V} {behind : List (Keyframe α V)}

private theorem Burst.uneven (burst : Burst keyframes) : ¬Level keyframes := by
  obtain ⟨next, more, shape⟩ := List.exists_cons_of_ne_nil (show burst.through ++ [burst.closed] ≠ [] by simp)
  have steps := burst.steps
  have split := burst.split
  rw [List.append_cons burst.through, shape] at split
  rw [shape] at steps
  obtain ⟨differ, _⟩ := (List.isChain_cons_cons.mp steps).1
  intro level
  exact Bool.false_ne_true (differ.symm.trans (level burst.opened (by simp [split]) next (by simp [split])))

variable [PartialEquivBEq V]

omit [Scalar α] in
private theorem Still.level (still : Still false first behind) (own : Flat first first) : Level (first :: behind) := by
  have all : ∀ k ∈ first :: behind, Flat first k := List.forall_mem_cons.mpr ⟨own, still.2⟩
  exact fun k member k' member' => PartialEquivBEq.trans (PartialEquivBEq.symm (all k member)) (all k' member')

/-- Without a window a pair that changes nothing states the value of a channel that has no other. There
is a further one exactly if a burst of steps comes back. -/
theorem pairs_effective_iff (c : Channel α V) (rest : V) (edit : V → V) :
    (∀ p ∈ c.pairs { rest, edit }, (p.start.value == p.stop.value) = true →
        c.pairs { rest, edit } = [p] ∧ Level (edited edit c.keyframes)) ↔
      ¬Returns (edited edit c.keyframes) := by
  cases shape : edited edit c.keyframes with
  | nil =>
    have none : c.pairs { rest, edit } = [] := by
      rw [pairs, show c.keyframes = [] from List.map_eq_nil_iff.mp shape]
      rfl
    rw [none]
    refine iff_of_true (List.forall_mem_nil _) ?_
    rintro ⟨burst, _⟩
    simpa using burst.split
  | cons first behind =>
    rw [pairs_unbounded shape]
    split
    next still =>
      have waits : transitions false none first behind = [] := List.isEmpty_iff.mp still
      refine iff_of_true (fun p member same => ?_) ?_
      · have stated : ∀ last, constant { rest, edit } first last = if first.value != rest then [⟨first, first⟩] else [] :=
          fun last => rfl
        rw [stated] at member ⊢
        split at member
        next shown =>
          obtain rfl := List.mem_singleton.mp member
          exact ⟨if_pos shown, (transitions_eq_nil_iff.mp waits).level same⟩
        next => cases member
      · rintro ⟨burst, stated, _⟩
        have member := burst.mem stated
        rw [waits] at member
        cases member
    next =>
      constructor
      · rintro effective ⟨burst, stated, back⟩
        exact burst.uneven (effective burst.pair (burst.mem stated) back).2
      · intro forth p member same
        rcases mem_transitions_iff.mp member with moved | ⟨burst, stated, rfl⟩
        · exact absurd same moved.2.1
        · exact absurd ⟨burst, stated, same⟩ forth

end Pairs

/-- A flash of a single instant, as the opacity of a span with one state. -/
def flash : Channel Float Float where
  keyframes := [⟨1.0, 0.0, .linear, false⟩, ⟨1.0, 1.0, .linear, false⟩, ⟨1.0, 0.0, .linear, false⟩]
  blend := none
  rest := 1.0

theorem pairs_effective_iff_flash : Returns (edited id flash.keyframes) ∧
    ¬∀ p ∈ flash.pairs { rest := 0.0, edit := id }, (p.start.value == p.stop.value) = true →
      flash.pairs { rest := 0.0, edit := id } = [p] ∧ Level (edited id flash.keyframes) := by
  have returns : Returns (edited id flash.keyframes) := by
    refine ⟨⟨[], ⟨1.0, 0.0, .linear, false⟩, [⟨1.0, 1.0, .linear, false⟩], ⟨1.0, 0.0, .linear, false⟩, [], rfl, ?_, nofun,
      nofun⟩, fun restated => Bool.false_ne_true restated.1, ?_⟩
    · exact List.isChain_cons_cons.mpr ⟨by unfold Step; decide, List.isChain_cons_cons.mpr
        ⟨by unfold Step; decide, List.isChain_singleton _⟩⟩
    · exact show ((0.0 : Float) == 0.0) = true by decide
  exact ⟨returns, fun effective => (pairs_effective_iff flash 0.0 id).mp effective returns⟩

theorem flash_stays : ∃ p ∈ flash.pairs { rest := 0.0 }, (p.start.value == p.stop.value) = true ∧
    ¬Level (edited id flash.keyframes) := by
  refine ⟨⟨⟨1.0, 0.0, .linear, false⟩, ⟨1.0, 0.0, .linear, false⟩⟩, List.mem_singleton_self _, by decide, fun level => ?_⟩
  have same := level ⟨1.0, 0.0, .linear, false⟩ (by simp [edited, flash, Keyframe.withValue])
    ⟨1.0, 1.0, .linear, false⟩ (by simp [edited, flash, Keyframe.withValue])
  exact absurd same (show ¬((0.0 : Float) == 1.0) = true by decide)

end Tween.Channel
