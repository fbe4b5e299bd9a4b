import Mathlib.Data.List.Basic
import Tween.Proofs.Channel.Accumulation
import Tween.Proofs.Channel.Simplification

/-! Runs of keyframes behind each other. A run that starts no earlier than everything stored goes
to the end, and a hold marker at its start keeps the last value before it. -/

namespace Tween.Channel
open Scalar OrderLaws
variable {α V : Type}

/-- Keeps the last of the values up to where the run starts. -/
def marker (keyframes run : List (Keyframe α V)) : List (Keyframe α V) :=
  match keyframes.getLast?, run.head? with
  | some last, some first => [{ time := first.time, value := last.value, hold := true }]
  | _, _ => []

/-- The runs behind each other, each but the first with a marker in front. -/
def joined : List (List (Keyframe α V)) → List (Keyframe α V)
  | [] => []
  | [run] => run
  | run :: next :: runs => run ++ marker run next ++ joined (next :: runs)

def extended (c run : Channel α V) : Channel α V :=
  { c with keyframes := c.keyframes ++ marker c.keyframes run.keyframes ++ run.keyframes }

private theorem last_append {front back : List (Keyframe α V)} (present : back ≠ []) :
    (front ++ back).getLast? = back.getLast? := by
  rw [List.getLast?_append, List.getLast?_eq_some_getLast present, Option.some_or]

theorem joined_head {run : List (Keyframe α V)} (present : run ≠ []) (runs : List (List (Keyframe α V))) :
    (joined (run :: runs)).head? = run.head? := by
  obtain ⟨first, rest, rfl⟩ := List.exists_cons_of_ne_nil present
  cases runs <;> rfl

/-- The runs up to one, a marker, and the runs from the next one on. -/
theorem joined_split (front : List (List (Keyframe α V))) (run next : List (Keyframe α V))
    (back : List (List (Keyframe α V))) :
    joined (front ++ run :: next :: back) = joined (front ++ [run]) ++ marker run next ++ joined (next :: back) := by
  induction front with
  | nil => rfl
  | cons first front ih =>
    cases front with
    | nil => simp [joined]
    | cons second front =>
      simp only [List.cons_append, joined] at ih ⊢
      rw [ih]
      simp only [List.append_assoc]

theorem joined_last (front : List (List (Keyframe α V))) {run : List (Keyframe α V)} (present : run ≠ []) :
    (joined (front ++ [run])).getLast? = run.getLast? := by
  rcases List.eq_nil_or_concat' front with rfl | ⟨front, previous, rfl⟩
  · rfl
  · have split := joined_split front previous run []
    rw [List.append_assoc, List.singleton_append, split]
    exact last_append present

private theorem foldl_behind {runs : List (Channel α V)} (present : ∀ run ∈ runs, run.keyframes ≠ [])
    (c : Channel α V) (front : List (Keyframe α V)) {last : List (Keyframe α V)} (ending : last ≠ []) :
    runs.foldl extended { c with keyframes := front ++ last } =
      { c with keyframes := front ++ joined (last :: runs.map (·.keyframes)) } := by
  induction runs generalizing front last with
  | nil => rfl
  | cons run runs ih =>
    have next := ih (fun run member => present run (List.mem_cons_of_mem _ member))
      (front ++ last ++ marker last run.keyframes) (present run List.mem_cons_self)
    have same : marker (front ++ last) run.keyframes = marker last run.keyframes := by
      rw [marker, last_append ending, marker]
    rw [List.foldl_cons, extended, same, next, List.map_cons, joined]
    simp only [List.append_assoc]

theorem foldl_extended {runs : List (Channel α V)} (present : ∀ run ∈ runs, run.keyframes ≠ [])
    (blend : Option (Blend α V)) (rest : V) :
    runs.foldl extended { blend, rest } = { keyframes := joined (runs.map (·.keyframes)), blend, rest } := by
  cases runs with
  | nil => rfl
  | cons run runs =>
    have behind := foldl_behind (fun run member => present run (List.mem_cons_of_mem _ member)) { blend, rest } []
      (present run List.mem_cons_self)
    rw [List.foldl_cons, List.map_cons]
    exact behind

variable [Scalar α]

/-- The keyframes lie in order between `start` and `stop`, and there is one at both. -/
structure Covers (start stop : α) (c : Channel α V) : Prop where
  ordered : Ordered c.keyframes
  first : ∃ first, c.first? = some first ∧ first.time = start
  last : ∃ last, c.last? = some last ∧ last.time = stop

theorem Covers.ne_nil {start stop : α} {c : Channel α V} (covers : Covers start stop c) : c.keyframes ≠ [] := by
  obtain ⟨first, found, _⟩ := covers.first
  intro empty
  rw [first?, empty] at found
  cases found

theorem Covers.trimmed {start stop : α} {c thin : Channel α V} (covers : Covers start stop c)
    (trimmed : Trimmed thin.keyframes c.keyframes) : Covers start stop thin where
  ordered := covers.ordered.sublist trimmed.sublist
  first := by rw [first?, trimmed.head]; exact covers.first
  last := by rw [last?, trimmed.last]; exact covers.last

theorem Covers.reaches {start stop time : α} {c : Channel α V} (covers : Covers start stop c) (later : stop ≤ time) :
    c.Reaches time := by
  obtain ⟨last, found, rfl⟩ := covers.last
  intro other final
  exact Option.some.inj (found.symm.trans final) ▸ later

theorem Covers.extended_last {start stop : α} {run : Channel α V} (covers : Covers start stop run) (c : Channel α V) :
    (c.extended run).last? = run.last? := last_append covers.ne_nil

theorem Covers.earliest {start stop : α} {c : Channel α V} (covers : Covers start stop c) (defined : start ≤ start)
    {k : Keyframe α V} (member : k ∈ c.keyframes) : start ≤ k.time := by
  obtain ⟨first, found, rfl⟩ := covers.first
  obtain ⟨behind, shape⟩ := List.head?_eq_some_iff.mp found
  rw [shape] at member
  cases member with
  | head => exact defined
  | tail _ member => exact (List.pairwise_cons.mp (shape ▸ covers.ordered)).1 k member

variable [OrderLaws α]

/-- Holding the value up to a later run and receiving it only appends. -/
theorem receive_run {c run : Channel α V} {start stop : α} (later : c.Reaches start) (covers : Covers start stop run) :
    ((c.hold? start).getD c).receive run = c.extended run := by
  obtain ⟨first, found, rfl⟩ := covers.first
  have head : run.keyframes.head? = some first := found
  cases ending : c.keyframes.getLast? with
  | none =>
    have none : c.hold? first.time = none := by rw [hold?, last?, ending]; rfl
    have empty : marker c.keyframes run.keyframes = [] := by rw [marker, ending]
    rw [none, Option.getD_none, receive_behind covers.ordered, extended, empty, List.append_nil]
    intro other same
    exact Option.some.inj (found.symm.trans same) ▸ later
  | some last =>
    have held : marker c.keyframes run.keyframes = [{ time := first.time, value := last.value, hold := true }] := by
      rw [marker, ending, head]
    have kept : c.hold? first.time = some { c with keyframes := c.keyframes ++ marker c.keyframes run.keyframes } := by
      rw [hold?, last?, ending, held]
      exact congrArg some (insert_behind (k := { time := first.time, value := last.value, hold := true }) later)
    rw [kept, Option.getD_some, receive_behind covers.ordered, extended]
    intro other same final behind
    rw [last?, held, List.getLast?_concat] at behind
    obtain rfl := Option.some.inj behind
    obtain rfl := Option.some.inj (found.symm.trans same)
    exact (le_defined (later last ending)).2

theorem Covers.extended_ordered {start stop : α} {c run : Channel α V} (covers : Covers start stop run)
    (ordered : Ordered c.keyframes) (later : c.Reaches start) : Ordered (c.extended run).keyframes := by
  obtain ⟨first, found, same⟩ := covers.first
  have head : run.keyframes.head? = some first := found
  cases ending : c.keyframes.getLast? with
  | none =>
    have empty : c.keyframes = [] := List.getLast?_eq_none_iff.mp ending
    simpa [extended, marker, empty] using covers.ordered
  | some last =>
    have defined : start ≤ start := (le_defined (later last ending)).2
    have ahead : ∀ k ∈ c.keyframes ++ marker c.keyframes run.keyframes, k.time ≤ start := by
      intro k member
      rcases List.mem_append.mp member with stored | held
      · exact later.all ordered stored
      · rw [marker, ending, head] at held
        rw [List.mem_singleton.mp held]
        exact same ▸ defined
    have held : Ordered (c.keyframes ++ marker c.keyframes run.keyframes) := by
      rw [marker, ending, head]
      exact ordered.append (same ▸ later)
    exact List.pairwise_append.mpr ⟨held, covers.ordered,
      fun k before k' behind => le_trans (ahead k before) (covers.earliest defined behind)⟩

end Tween.Channel
