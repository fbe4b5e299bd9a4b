import Mathlib.Logic.Relation
import Tween.Channel.Sweep
import Tween.Proofs.Channel.Absorption

/-! The sweep in place does what the recursion on halves does. At every moment the ranges on the
stack are adjoining stretches of the keyframes, the marks in front of them are settled, and behind
them only their ends are marked. So no position is read that does not exist, every split is inside
of its range, and the marks that stand at the end are those of the recursion. -/

namespace Tween
open Channel

/-- The states that a sweep comes to. -/
def Sweep.Reaches {α V : Type} [Scalar α] (s : Sweep) (tolerance : α) (deviation : Deviation α V)
    (keyframes : List (Keyframe α V)) (t : Sweep) : Prop :=
  Relation.ReflTransGen (fun s t : Sweep => s.next? tolerance deviation keyframes = some t) s t

theorem Sweep.Reaches.head {α V : Type} [Scalar α] {tolerance : α} {deviation : Deviation α V}
    {keyframes : List (Keyframe α V)} {s t u : Sweep} (step : s.next? tolerance deviation keyframes = some t)
    (behind : t.Reaches tolerance deviation keyframes u) : s.Reaches tolerance deviation keyframes u :=
  Relation.ReflTransGen.head step behind

namespace Channel
open Scalar OrderLaws
variable {α V : Type} [Scalar α] {tolerance : α} {deviation : Deviation α V}

/-- Which keyframes between the ends of a stretch are needed. None is if none is farther than the
tolerance. Otherwise the foremost is, and what the stretches on both sides of it need. -/
inductive Needs (tolerance : α) (deviation : Deviation α V) : Stretch α V → List Bool → Prop
  | none {s : Stretch α V} (close : ∀ k ∈ s.interior, ¬tolerance < deviation s.first k s.last) :
      Needs tolerance deviation s (List.replicate s.interior.length false)
  | split {first top last : Keyframe α V} {before after : List (Keyframe α V)} {left right : List Bool}
      (foremost : Foremost (deviation first · last) before top after) (far : tolerance < deviation first top last)
      (front : Needs tolerance deviation ⟨first, before, top⟩ left)
      (back : Needs tolerance deviation ⟨top, after, last⟩ right) :
      Needs tolerance deviation ⟨first, before ++ top :: after, last⟩ (left ++ true :: right)

def Stretch.marks (tolerance : α) (deviation : Deviation α V) (s : Stretch α V) : List Bool :=
  match _found : s.split? tolerance deviation with
  | none => List.replicate s.interior.length false
  | some p =>
    marks tolerance deviation ⟨s.first, p.before, p.top⟩ ++ true :: marks tolerance deviation ⟨p.top, p.after, s.last⟩
termination_by s.interior.length
decreasing_by
  all_goals
    have interior := congrArg List.length (Stretch.split?_interior _found)
    simp only [List.length_append, List.length_cons] at interior
    omega

section Marks
variable {s : Stretch α V} {p : Peak α V}

theorem Stretch.marks_none (found : s.split? tolerance deviation = none) :
    s.marks tolerance deviation = List.replicate s.interior.length false := by
  rw [marks]
  split
  next => rfl
  next p other => rw [found] at other; cases other

theorem Stretch.marks_some (found : s.split? tolerance deviation = some p) :
    s.marks tolerance deviation = marks tolerance deviation ⟨s.first, p.before, p.top⟩
      ++ true :: marks tolerance deviation ⟨p.top, p.after, s.last⟩ := by
  rw [marks]
  split
  next other => rw [found] at other; cases other
  next q same =>
    obtain rfl : p = q := Option.some.inj (found.symm.trans same)
    rfl

theorem Stretch.marks_length (s : Stretch α V) : (s.marks tolerance deviation).length = s.interior.length := by
  induction s using Stretch.marks.induct tolerance deviation with
  | case1 s found => rw [marks_none found, List.length_replicate]
  | case2 s p found front back =>
    rw [marks_some found, List.length_append, List.length_cons, front, back, split?_interior found]
    simp

theorem needs_iff [OrderLaws α] (positive : 0.0 < tolerance) {keep : List Bool} :
    Needs tolerance deviation s keep ↔ keep = s.marks tolerance deviation := by
  constructor
  · intro needs
    induction needs with
    | none close => rw [Stretch.marks_none ((Stretch.split?_eq_none_iff positive).mpr close)]
    | split foremost far _ _ front back =>
      rw [Stretch.marks_some ((Stretch.split?_eq_some_iff positive).mpr ⟨rfl, rfl, far, foremost⟩), front, back]
  · rintro rfl
    induction s using Stretch.marks.induct tolerance deviation with
    | case1 s found =>
      rw [Stretch.marks_none found]
      exact .none ((Stretch.split?_eq_none_iff positive).mp found)
    | case2 s p found front back =>
      obtain ⟨interior, _, far, foremost⟩ := (Stretch.split?_eq_some_iff positive).mp found
      rw [Stretch.marks_some found]
      obtain ⟨first, _, last⟩ := s
      obtain rfl := interior
      exact .split foremost far front back

end Marks

section Retained
open Sweep (retained)
variable {keyframes more : List (Keyframe α V)}

omit [Scalar α] in
theorem retained_append {keep others : List Bool} (count : keep.length = keyframes.length) :
    retained (keep ++ others) (keyframes ++ more) = retained keep keyframes ++ retained others more := by
  induction keep generalizing keyframes with
  | nil => rw [List.eq_nil_of_length_eq_zero count.symm]; rfl
  | cons kept keep ih =>
    obtain ⟨k, rest, rfl⟩ := List.exists_cons_of_length_eq_add_one count.symm
    have onward := @ih rest (Nat.succ.inj count)
    cases kept with
    | false => exact onward
    | true => exact congrArg (k :: ·) onward

omit [Scalar α] in
theorem retained_none (keyframes : List (Keyframe α V)) : retained (List.replicate keyframes.length false) keyframes = [] := by
  induction keyframes with
  | nil => rfl
  | cons k rest ih => exact ih

theorem Stretch.retained_marks (s : Stretch α V) :
    retained (s.marks tolerance deviation) s.interior = s.kept tolerance deviation := by
  induction s using Stretch.marks.induct tolerance deviation with
  | case1 s found => rw [marks_none found, kept_none found, retained_none]
  | case2 s p found front back =>
    rw [marks_some found, kept_some found, split?_interior found, retained_append (marks_length _), front]
    exact congrArg (_ ++ p.top :: ·) back

end Retained

section Search
open Sweep (farthest? distance?)
variable [OrderLaws α] {height : Keyframe α V → α} {distances : Nat → Option α}

/-- The search through positions ends where the search through keyframes does, unless what was the
best before is no lower. -/
theorem farthest?_peak {interior : List (Keyframe α V)} {offset : Nat}
    (placed : ∀ i k, interior[i]? = some k → distances (offset + i) = some (height k)) {best : Nat × α}
    (least : 0.0 ≤ best.2) :
    farthest? distances best (List.range' offset interior.length) =
      some (match peak? height interior with
        | some p => if best.2 < p.height then (offset + p.before.length, p.height) else best
        | none => best) := by
  -- The search replaces its best only by a greater height, so of equal ones both keep the foremost.
  induction interior generalizing offset best with
  | nil => rfl
  | cons k rest ih =>
    have behind : ∀ i k, rest[i]? = some k → distances (offset + 1 + i) = some (height k) := by
      intro i other found
      rw [Nat.add_assoc, Nat.add_comm 1 i]
      exact placed (i + 1) other found
    have here : distances offset = some (height k) := placed 0 k rfl
    rw [List.length_cons, List.range'_succ, farthest?, here, Option.bind_some, peak?]
    by_cases above : best.2 < height k
    · have positive : 0.0 < height k := lt_of_le_of_lt least above
      rw [if_pos above, ih behind (le_of_lt positive)]
      cases peak? height rest with
      | none => simp [positive, above]
      | some later =>
        by_cases higher : height k < later.height
        · have exceeds : best.2 < later.height := lt_of_lt_of_le above (le_of_lt higher)
          simp [positive, higher, exceeds, Nat.add_assoc, Nat.add_comm 1]
        · simp [positive, higher, above]
    · rw [if_neg above, ih behind least]
      cases found : peak? height rest with
      | none => by_cases positive : 0.0 < height k <;> simp [positive, above]
      | some later =>
        by_cases first : 0.0 < height k ∧ ¬height k < later.height
        · have defined := (le_defined (le_of_lt first.1)).2
          have notHigher : ¬best.2 < later.height := fun less => by
            have order := le_of_not_lt defined (le_defined (le_of_lt less)).2 first.2
            exact above (lt_of_lt_of_le less order)
          simp only [if_pos first, if_neg above, if_neg notHigher]
        · simp only [if_neg first, List.length_cons]
          rw [Nat.add_assoc, Nat.add_comm 1]

end Search

section Stages
variable {keyframes : List (Keyframe α V)} {position : Nat} {s : Stretch α V} {p : Peak α V} {rest : List (Stretch α V)}

omit [Scalar α] in
/-- Each stretch begins where the one in front of it ends. -/
def Adjoining (first : Keyframe α V) : List (Stretch α V) → Prop
  | [] => True
  | s :: rest => s.first = first ∧ Adjoining s.last rest

/-- From `position` to the end the keyframes are those of the stretches. -/
def Placed (keyframes : List (Keyframe α V)) (position : Nat) (stretches : List (Stretch α V)) : Prop :=
  ∃ front first, front.length = position ∧ keyframes = front ++ first :: covered stretches ∧ Adjoining first stretches

def ranges (position : Nat) : List (Stretch α V) → List (Nat × Nat)
  | [] => []
  | s :: rest => (position, position + 1 + s.interior.length) :: ranges (position + 1 + s.interior.length) rest

def unswept (stretches : List (Stretch α V)) : List Bool :=
  stretches.flatMap fun s => List.replicate s.interior.length false ++ [true]

/-- The sweep when the marks up to the first stretch are settled. -/
def stage (settled : List Bool) (stretches : List (Stretch α V)) : Sweep where
  keep := settled ++ true :: unswept stretches
  pending := ranges settled.length stretches

omit [Scalar α] in
theorem Placed.behind (placed : Placed keyframes position (s :: rest)) :
    Placed keyframes (position + 1 + s.interior.length) rest := by
  obtain ⟨front, first, count, rfl, _, adjoining⟩ := placed
  refine ⟨front ++ first :: s.interior, s.last, ?_, by simp [covered], adjoining⟩
  rw [List.length_append, List.length_cons, count]
  omega

theorem Placed.split (placed : Placed keyframes position (s :: rest)) (found : s.split? tolerance deviation = some p) :
    Placed keyframes position (⟨s.first, p.before, p.top⟩ :: ⟨p.top, p.after, s.last⟩ :: rest) := by
  obtain ⟨front, first, count, shape, same, adjoining⟩ := placed
  exact ⟨front, first, count, by rw [covered_split found, shape], same, rfl, adjoining⟩

omit [Scalar α] in
theorem Placed.last_lt (placed : Placed keyframes position (s :: rest)) :
    position + 1 + s.interior.length < keyframes.length := by
  obtain ⟨front, first, count, rfl, _⟩ := placed
  simp only [covered, List.flatMap_cons, List.length_append, List.length_cons, count]
  omega

omit [Scalar α] in
theorem Placed.distance? (placed : Placed keyframes position (s :: rest)) {i : Nat} {k : Keyframe α V}
    (found : s.interior[i]? = some k) :
    Sweep.distance? deviation keyframes position (position + 1 + s.interior.length) (position + 1 + i) =
      some (deviation s.first k s.last) := by
  obtain ⟨front, first, rfl, rfl, rfl, _⟩ := placed
  have inside : i < s.interior.length := (List.getElem?_eq_some_iff.mp found).1
  have start : (front ++ s.first :: covered (s :: rest))[front.length]? = some s.first := by simp
  have behind (j : Nat) : (front ++ s.first :: covered (s :: rest))[front.length + 1 + j]? = (covered (s :: rest))[j]? := by
    rw [List.getElem?_append_right (by omega), show front.length + 1 + j - front.length = j + 1 by omega]
    rfl
  have middle : (covered (s :: rest))[i]? = some k := by
    rw [covered, List.flatMap_cons, List.append_assoc, List.getElem?_append_left inside, found]
  have stop : (covered (s :: rest))[s.interior.length]? = some s.last := by simp [covered]
  rw [Sweep.distance?, start, behind, behind, middle, stop]
  rfl

theorem unswept_split (found : s.split? tolerance deviation = some p) (rest : List (Stretch α V)) :
    unswept (⟨s.first, p.before, p.top⟩ :: ⟨p.top, p.after, s.last⟩ :: rest) =
      (unswept (s :: rest)).set p.before.length true := by
  have shape : unswept (s :: rest) =
      List.replicate p.before.length false ++ false :: (List.replicate p.after.length false ++ true :: unswept rest) := by
    rw [unswept, List.flatMap_cons, Stretch.split?_interior found, List.length_append, List.length_cons,
      List.replicate_add, List.replicate_succ]
    simp [unswept]
  rw [shape, List.set_append_right _ _ (by simp), List.length_replicate, Nat.sub_self, List.set_cons_zero]
  simp [unswept]

omit [Scalar α] in
theorem stage_whole (settled : List Bool) (s : Stretch α V) (rest : List (Stretch α V)) :
    stage (settled ++ true :: List.replicate s.interior.length false) rest =
      ⟨(stage settled (s :: rest)).keep, ranges (settled.length + 1 + s.interior.length) rest⟩ := by
  simp [stage, unswept, Nat.add_assoc, Nat.add_comm 1]

/-- Splitting a stretch marks one more position and parts its range there. -/
theorem stage_split (found : s.split? tolerance deviation = some p) (settled : List Bool) (rest : List (Stretch α V)) :
    let top := settled.length + 1 + p.before.length
    let last := settled.length + 1 + s.interior.length
    stage settled (⟨s.first, p.before, p.top⟩ :: ⟨p.top, p.after, s.last⟩ :: rest) =
      ⟨(stage settled (s :: rest)).keep.set top true, (settled.length, top) :: (top, last) :: ranges last rest⟩ := by
  intro top last
  have inner : top - settled.length = p.before.length + 1 := by omega
  have behind : last = top + 1 + p.after.length := by
    simp only [last, top, Stretch.split?_interior found, List.length_append, List.length_cons]
    omega
  have keep : (stage settled (s :: rest)).keep.set top true =
      settled ++ true :: unswept (⟨s.first, p.before, p.top⟩ :: ⟨p.top, p.after, s.last⟩ :: rest) := by
    rw [stage, List.set_append_right _ _ (by omega), inner, List.set_cons_succ, unswept_split found]
  rw [keep, behind]
  rfl

variable [OrderLaws α] (positive : 0.0 < tolerance)
include positive

/-- Taking a range from the stack does to the sweep what the split does to the stretch. -/
theorem next?_stage (deviation : Deviation α V) {settled : List Bool}
    (placed : Placed keyframes settled.length (s :: rest)) :
    (stage settled (s :: rest)).next? tolerance deviation keyframes =
      some (match s.split? tolerance deviation with
        | none => stage (settled ++ true :: List.replicate s.interior.length false) rest
        | some p => stage settled (⟨s.first, p.before, p.top⟩ :: ⟨p.top, p.after, s.last⟩ :: rest)) := by
  have opened : (stage settled (s :: rest)).pending =
      (settled.length, settled.length + 1 + s.interior.length) ::
        ranges (settled.length + 1 + s.interior.length) rest := rfl
  have defined : (0.0 : α) ≤ 0.0 := (le_defined (le_of_lt positive)).1
  rw [Sweep.next?, opened]
  dsimp only
  split
  next short =>
    have empty : s.interior = [] := List.eq_nil_of_length_eq_zero (by omega)
    have whole : s.split? tolerance deviation = none :=
      (Stretch.split?_eq_none_iff positive).mpr (empty ▸ nofun)
    rw [whole, stage_whole]
  next long =>
    have count : settled.length + 1 + s.interior.length - (settled.length + 1) = s.interior.length := by omega
    rw [count, farthest?_peak (fun i k found => placed.distance? found) defined, Option.bind_some, Stretch.split?]
    cases peak : peak? (deviation s.first · s.last) s.interior with
    | none => simp only [Option.filter_none, if_neg fun above => not_le_of_lt positive (le_of_lt above), stage_whole]
    | some p =>
      have above : 0.0 < p.height := by
        obtain ⟨_, own, above, _⟩ := peak?_eq_some_iff.mp peak
        exact own ▸ above
      by_cases far : tolerance < p.height
      · have found : s.split? tolerance deviation = some p := by
          rw [Stretch.split?, peak, Option.filter_some, decide_eq_true far, if_pos rfl]
        have inside : settled.length + 1 + p.before.length < (stage settled (s :: rest)).keep.length := by
          rw [stage, unswept, List.flatMap_cons, Stretch.split?_interior found]
          simp
          omega
        simp only [if_pos above, if_pos far, if_pos inside, Option.filter_some, decide_eq_true far, if_true,
          stage_split found]
      · simp only [if_pos above, if_neg far, Option.filter_some, decide_eq_false far, Bool.false_eq_true, if_false,
          stage_whole]

theorem reaches_stage {settled : List Bool} {stretches : List (Stretch α V)} {t : Sweep}
    (placed : Placed keyframes settled.length stretches)
    (reached : (stage settled stretches).Reaches tolerance deviation keyframes t) :
    ∃ settled stretches, t = stage settled stretches ∧ Placed keyframes settled.length stretches := by
  induction reached with
  | refl => exact ⟨settled, stretches, rfl, placed⟩
  | tail _ step ih =>
    obtain ⟨settled, stretches, rfl, placed⟩ := ih
    cases stretches with
    | nil => cases step
    | cons s rest =>
      obtain rfl := Option.some.inj ((next?_stage positive deviation placed).symm.trans step)
      split
      next => exact ⟨_, rest, rfl, by simpa [Nat.add_assoc, Nat.add_comm 1] using placed.behind⟩
      next p found => exact ⟨settled, _, rfl, placed.split found⟩

/-- The sweep comes to an end, and the marks are those of the stretches. -/
theorem reaches_end {settled : List Bool} {stretches : List (Stretch α V)}
    (placed : Placed keyframes settled.length stretches) :
    (stage settled stretches).Reaches tolerance deviation keyframes
      ⟨settled ++ true :: stretches.flatMap fun s => s.marks tolerance deviation ++ [true], []⟩ := by
  induction stretches using keptBehind.induct tolerance deviation generalizing settled with
  | case1 => exact .refl
  | case2 s rest found ih =>
    have step := next?_stage positive deviation placed
    rw [found] at step
    have onward := @ih (settled ++ true :: List.replicate s.interior.length false)
      (by simpa [Nat.add_assoc, Nat.add_comm 1] using placed.behind)
    rw [List.flatMap_cons, Stretch.marks_none found]
    simpa using onward.head step
  | case3 s rest p found ih =>
    have step := next?_stage positive deviation placed
    rw [found] at step
    have onward := (ih (placed.split found)).head step
    rw [List.flatMap_cons, Stretch.marks_some found]
    simpa using onward

/-- A range on the stack lies inside of the keyframes and is taken from it without a fault. If it is
split, then strictly inside of it. -/
theorem next?_inside {settled : List Bool} {stretches : List (Stretch α V)}
    (placed : Placed keyframes settled.length stretches) {first last : Nat} {pending : List (Nat × Nat)}
    (next : (stage settled stretches).pending = (first, last) :: pending) :
    last < keyframes.length ∧
      ((stage settled stretches).next? tolerance deviation keyframes = some ⟨(stage settled stretches).keep, pending⟩ ∨
        ∃ top, first < top ∧ top < last ∧ (stage settled stretches).next? tolerance deviation keyframes =
          some ⟨(stage settled stretches).keep.set top true, (first, top) :: (top, last) :: pending⟩) := by
  cases stretches with
  | nil => cases next
  | cons s rest =>
    obtain ⟨⟨rfl, rfl⟩, rfl⟩ : ((settled.length = first) ∧ settled.length + 1 + s.interior.length = last) ∧
        ranges (settled.length + 1 + s.interior.length) rest = pending := by
      obtain ⟨range, rfl⟩ := List.cons.inj next
      exact ⟨Prod.mk.inj range, rfl⟩
    refine ⟨placed.last_lt, ?_⟩
    rw [next?_stage positive deviation placed]
    cases found : s.split? tolerance deviation with
    | none => exact Or.inl (congrArg some (stage_whole settled s rest))
    | some p =>
      refine Or.inr ⟨settled.length + 1 + p.before.length, by omega, ?_, congrArg some (stage_split found settled rest)⟩
      rw [Stretch.split?_interior found, List.length_append, List.length_cons]
      omega

end Stages

section Guarantee

/-- Nothing that goes is farther than the tolerance from the line through what stays around it. -/
def Close (tolerance : α) (deviation : Deviation α V) (marked : List (Keyframe α V × Bool)) : Prop :=
  ∀ front a dropped z back, marked = front ++ (a, true) :: (dropped ++ (z, true) :: back) →
    (∀ m ∈ dropped, m.2 = false) → ∀ m ∈ dropped, ¬tolerance < deviation a m.1 z

private theorem segment {β : Type} {xs ys front dropped back : List β} {x a z : β}
    (split : xs ++ x :: ys = front ++ a :: (dropped ++ z :: back)) (apart : x ∉ dropped) :
    (∃ more, xs ++ [x] = front ++ a :: (dropped ++ z :: more)) ∨
      ∃ more, x :: ys = more ++ a :: (dropped ++ z :: back) := by
  rcases List.append_eq_append_iff.mp split with ⟨more, _, later⟩ | ⟨inner, rfl, later⟩
  · exact Or.inr ⟨more, later⟩
  · cases inner with
    | nil => exact Or.inr ⟨[], later.symm⟩
    | cons b inner =>
      obtain ⟨rfl, onward⟩ := List.cons.inj later
      rcases List.append_eq_append_iff.mp onward with ⟨more, rfl, behind⟩ | ⟨more, rfl, behind⟩
      · cases more with
        | nil =>
          obtain ⟨rfl, rfl⟩ := List.cons.inj behind
          exact Or.inl ⟨[], by simp⟩
        | cons y more =>
          obtain ⟨rfl, rfl⟩ := List.cons.inj behind
          exact Or.inl ⟨more ++ [x], by simp⟩
      · cases more with
        | nil =>
          obtain ⟨rfl, rfl⟩ := List.cons.inj behind
          exact Or.inl ⟨[], by simp⟩
        | cons y more =>
          obtain ⟨rfl, _⟩ := List.cons.inj behind
          exact absurd (List.mem_append_right _ List.mem_cons_self) apart

variable {keep : List Bool} {s : Stretch α V}

theorem Close.join {front back : List (Keyframe α V × Bool)} {top : Keyframe α V}
    (first : Close tolerance deviation (front ++ [(top, true)])) (second : Close tolerance deviation ((top, true) :: back)) :
    Close tolerance deviation (front ++ (top, true) :: back) := by
  intro _ a dropped z _ split gone
  have apart : (top, true) ∉ dropped := fun member => Bool.false_ne_true (gone _ member).symm
  rcases segment split apart with ⟨more, before⟩ | ⟨more, behind⟩
  · exact first _ a dropped z _ before gone
  · exact second _ a dropped z _ behind gone

def Stretch.marked (s : Stretch α V) (keep : List Bool) : List (Keyframe α V × Bool) :=
  (s.first, true) :: (s.interior.zip keep ++ [(s.last, true)])

theorem Needs.length (needs : Needs tolerance deviation s keep) : keep.length = s.interior.length := by
  induction needs with
  | none => exact List.length_replicate
  | split _ _ _ _ front back => simp [front, back]

omit [Scalar α] in
private theorem marked_ends {a z : Keyframe α V} {front dropped back : List (Keyframe α V × Bool)}
    (gone : ∀ m ∈ s.interior.zip keep, m.2 = false)
    (split : s.marked keep = front ++ (a, true) :: (dropped ++ (z, true) :: back)) :
    a = s.first ∧ dropped = s.interior.zip keep ∧ z = s.last := by
  have absent {k : Keyframe α V} : (k, true) ∉ s.interior.zip keep := fun member => Bool.false_ne_true (gone _ member).symm
  cases front with
  | nil =>
    obtain ⟨start, inner⟩ := List.cons.inj split
    cases back with
    | nil =>
      obtain ⟨same, stop⟩ := List.append_inj' inner rfl
      exact ⟨(Prod.mk.inj start).1.symm, same.symm, (Prod.mk.inj (List.cons.inj stop).1).1.symm⟩
    | cons b back =>
      have front := congrArg List.dropLast inner
      rw [List.dropLast_concat, List.dropLast_append_of_ne_nil (List.cons_ne_nil _ _), List.dropLast_cons_cons] at front
      exact absurd (front ▸ List.mem_append_right _ List.mem_cons_self) absent
  | cons f front =>
    obtain ⟨_, behind⟩ : f = (s.first, true) ∧
        s.interior.zip keep ++ [(s.last, true)] = front ++ (a, true) :: (dropped ++ (z, true) :: back) :=
      (List.cons.inj split).imp_left Eq.symm
    have inner := congrArg List.dropLast behind
    rw [List.dropLast_concat, List.dropLast_append_of_ne_nil (List.cons_ne_nil _ _),
      List.dropLast_cons_of_ne_nil (by simp)] at inner
    exact absurd (inner ▸ List.mem_append_right _ List.mem_cons_self) absent

theorem Needs.close (needs : Needs tolerance deviation s keep) : Close tolerance deviation (s.marked keep) := by
  induction needs with
  | @none s close =>
    have gone : ∀ m ∈ s.interior.zip (List.replicate s.interior.length false), m.2 = false :=
      fun m member => List.eq_of_mem_replicate (List.of_mem_zip member).2
    intro front a dropped z back split _ m member
    obtain ⟨rfl, rfl, rfl⟩ := marked_ends gone split
    exact close m.1 (List.of_mem_zip member).1
  | @split first top last before after left right _ _ needs _ front back =>
    have parted : Stretch.marked ⟨first, before ++ top :: after, last⟩ (left ++ true :: right) =
        ((first, true) :: before.zip left) ++ (top, true) :: (after.zip right ++ [(last, true)]) := by
      rw [Stretch.marked, List.zip_append needs.length.symm]
      simp
    rw [parted]
    exact Close.join front back

end Guarantee

omit [Scalar α] in
private theorem start_stage (first last : Keyframe α V) (interior : List (Keyframe α V)) :
    Sweep.start (first :: (interior ++ [last])).length = stage [] [⟨first, interior, last⟩] := by
  have count : (first :: (interior ++ [last])).length = interior.length + 2 := by simp
  have marks : ((List.replicate (interior.length + 2) false).set 0 true).set (interior.length + 1) true =
      true :: (List.replicate interior.length false ++ [true]) := by
    rw [List.replicate_succ, List.set_cons_zero, List.set_cons_succ, List.replicate_succ',
      List.set_append_right _ _ (by simp)]
    simp
  have last : interior.length + 2 - 1 = interior.length + 1 := rfl
  rw [count, Sweep.start, last, marks]
  simp [stage, unswept, ranges, Nat.add_comm 1]

/-- The sweep in place, with its marks and its stack of ranges, is the recursion on halves, for every
distance, also a negative or an undefined one. It reads and marks only positions of keyframes, splits
every range strictly inside of it and comes to an end, with the marks that the recursion needs. What
they retain is the simplified channel: some of the keyframes, with the first and the last of them, and
nothing that is gone is farther than the tolerance from the line through what stays around it. -/
theorem sweep_simplifies [BEq V] [OrderLaws α] (c : Channel α V) (many : 3 ≤ c.keyframes.length) {tolerance : α}
    (positive : 0.0 < tolerance) (deviation : Deviation α V) :
    let start := Sweep.start c.keyframes.length
    (∀ s : Sweep, start.Reaches tolerance deviation c.keyframes s →
      ∀ first last pending, s.pending = (first, last) :: pending → last < c.keyframes.length ∧
        (s.next? tolerance deviation c.keyframes = some ⟨s.keep, pending⟩ ∨
          ∃ top, first < top ∧ top < last ∧ s.next? tolerance deviation c.keyframes =
            some ⟨s.keep.set top true, (first, top) :: (top, last) :: pending⟩)) ∧
      ∃ keep : List Bool, start.Reaches tolerance deviation c.keyframes ⟨keep, []⟩ ∧
        (∀ first interior last, c.keyframes = first :: (interior ++ [last]) → ∀ inner,
          Needs tolerance deviation ⟨first, interior, last⟩ inner ↔ keep = true :: (inner ++ [true])) ∧
        Sweep.retained keep c.keyframes = (c.simplify tolerance deviation).keyframes ∧
        Trimmed (c.simplify tolerance deviation).keyframes c.keyframes ∧
        Close tolerance deviation (c.keyframes.zip keep) := by
  intro start
  obtain ⟨first, interior, last, shape⟩ := exists_ends (Nat.le_of_succ_le many)
  have begun : start = stage [] [⟨first, interior, last⟩] := by rw [← start_stage, ← shape]
  have placed : Placed c.keyframes 0 [⟨first, interior, last⟩] :=
    ⟨[], first, rfl, by simp [covered, shape], rfl, trivial⟩
  rw [begun]
  refine ⟨fun s reached => ?_, true :: (Stretch.marks tolerance deviation ⟨first, interior, last⟩ ++ [true]), ?_, ?_, ?_, ?_, ?_⟩
  · obtain ⟨settled, stretches, rfl, placed⟩ := reaches_stage positive placed reached
    exact fun _ _ _ next => next?_inside positive placed next
  · have ended : (stage [] [⟨first, interior, last⟩]).Reaches tolerance deviation c.keyframes _ := reaches_end positive placed
    simpa using ended
  · intro first' interior' last' same inner
    obtain ⟨rfl, behind⟩ := List.cons.inj (shape.symm.trans same)
    obtain ⟨rfl, ending⟩ := List.append_inj' behind rfl
    obtain rfl := (List.cons.inj ending).1
    rw [needs_iff positive]
    simp [eq_comm]
  · have inner : Sweep.retained (Stretch.marks tolerance deviation ⟨first, interior, last⟩ ++ [true]) (interior ++ [last]) =
        Stretch.kept tolerance deviation ⟨first, interior, last⟩ ++ [last] := by
      rw [retained_append (Stretch.marks_length _), Stretch.retained_marks]
      rfl
    rw [simplify_kept positive shape, shape, ← inner]
    rfl
  · exact simplify_trimmed c tolerance deviation
  · have needs : Needs tolerance deviation ⟨first, interior, last⟩ _ := (needs_iff positive).mpr rfl
    have marked : (interior ++ [last]).zip (Stretch.marks tolerance deviation ⟨first, interior, last⟩ ++ [true]) = _ :=
      List.zip_append needs.length.symm
    rw [shape, List.zip_cons_cons, marked]
    exact needs.close

theorem sweep_simplifies_hill :
    3 ≤ hill.keyframes.length ∧ (0.0 : Float) < 1.0 ∧
      ∃ keep, (Sweep.start 8).Reaches 1.0 rise hill.keyframes ⟨keep, []⟩ ∧
        ((Sweep.retained keep hill.keyframes).map (·.time) == [0.0, 1.0, 2.0, 3.0, 7.0]) = true ∧
        Close 1.0 rise (hill.keyframes.zip keep) := by
  have many : 3 ≤ hill.keyframes.length := by decide
  have positive : (0.0 : Float) < 1.0 := by decide
  obtain ⟨_, keep, ended, _, retained, _, close⟩ := sweep_simplifies hill many positive rise
  refine ⟨many, positive, keep, ended, ?_, close⟩
  rw [retained]
  decide +kernel

end Channel
end Tween
