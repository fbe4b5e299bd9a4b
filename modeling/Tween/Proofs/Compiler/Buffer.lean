import Tween.Compiler
import Tween.Proofs.Binary64.Arithmetic
import Tween.Proofs.StableOrder

/-! What a compiler holds between two passes. States arrive in any order; the buffer keeps them in
time order and takes in only finite ones. -/

namespace Tween

/-- The values of an accepted state. -/
structure State.Finite (s : State Float) : Prop where
  time : Float.isFinite s.time = true
  position : s.position.isFinite = true
  scale : s.scale.isFinite = true
  rotation : Float.isFinite s.rotation = true
  color : s.color.isFinite = true
  opacity : Float.isFinite s.opacity = true

instance (s : State Float) : Decidable s.Finite :=
  decidable_of_iff (Float.isFinite s.time ∧ s.position.isFinite ∧ s.scale.isFinite ∧ Float.isFinite s.rotation ∧
      s.color.isFinite ∧ Float.isFinite s.opacity)
    ⟨fun ⟨time, position, scale, rotation, color, opacity⟩ => ⟨time, position, scale, rotation, color, opacity⟩,
      fun ⟨time, position, scale, rotation, color, opacity⟩ => ⟨time, position, scale, rotation, color, opacity⟩⟩

theorem State.checked_ok {s checked : State Float} (accepted : s.checked = .ok checked) : checked = s ∧ s.Finite := by
  unfold State.checked at accepted
  split at accepted
  · cases accepted
  next time =>
    dsimp only at accepted
    split at accepted
    · cases accepted
    next none =>
      cases accepted
      have time : Scalar.isFinite s.time = true := by simpa using time
      simp only [List.find?_eq_none, List.mem_cons, List.not_mem_nil, or_false, forall_eq_or_imp, forall_eq,
        Bool.not_eq_true', Bool.not_eq_false] at none
      obtain ⟨position, scale, rotation, color, opacity⟩ := none
      exact ⟨rfl, time, position, scale, rotation, color, opacity⟩

theorem State.Finite.checked {s : State Float} (finite : s.Finite) : s.checked = .ok s := by
  have time : Scalar.isFinite s.time = true := finite.time
  have rotation : Scalar.isFinite s.rotation = true := finite.rotation
  have opacity : Scalar.isFinite s.opacity = true := finite.opacity
  simp [State.checked, time, finite.position, finite.scale, rotation, finite.color, opacity]

theorem State.Finite.defined {s : State Float} (finite : s.Finite) : s.time ≤ s.time :=
  have time := Binary64.defined_of_finite finite.time
  Binary64.le_iff.mpr ⟨time, time, Int.le_refl _⟩

namespace Compiler
open Scalar OrderLaws

/-- States are added one by one, and the settings may change in between. -/
inductive Filled : Compiler Float → Prop
  | fresh (config : Config Float) : Filled { config }
  | add {c d : Compiler Float} {state : State Float} (before : Filled c) (accepted : c.add state = .ok d) : Filled d
  | configure {c : Compiler Float} (config : Config Float) (before : Filled c) : Filled { c with config }

/-- Where the search puts a state that is no earlier than the last one is the end. -/
private theorem inserted_states {α : Type} [Scalar α] [OrderLaws α] {states : List (State α)} {state : State α}
    (sorted : states.Pairwise (·.time ≤ ·.time)) :
    (if states.getLast?.all fun last => last.time ≤ state.time then states ++ [state]
      else states.insertIdx (leadingCount (fun s => s.time ≤ state.time) states) state) =
      placed (·.time ≤ state.time) state states := by
  refine insert_placed (sorted.imp fun ordered later => ?_) (fun latest s member => ?_) state
  · exact decide_eq_true (le_trans ordered (of_decide_eq_true later))
  · have found := List.getLast?_eq_some_getLast (List.ne_nil_of_mem member)
    have parts := List.dropLast_concat_getLast (List.ne_nil_of_mem member)
    rw [found, Option.all_some] at latest
    rw [← parts] at member sorted
    rcases List.mem_append.mp member with before | last
    · have earlier := (List.pairwise_append.mp sorted).2.2 s before _ (List.mem_singleton_self _)
      exact decide_eq_true (le_trans earlier (of_decide_eq_true latest))
    · exact List.mem_singleton.mp last ▸ latest

theorem add_ok {c d : Compiler Float} {state : State Float} (accepted : c.add state = .ok d)
    (sorted : c.states.Pairwise (·.time ≤ ·.time)) :
    state.Finite ∧ d = { c with states := placed (·.time ≤ state.time) state c.states } := by
  unfold Compiler.add at accepted
  cases checked : state.checked with
  | error problem => rw [checked] at accepted; cases accepted
  | ok same =>
    rw [checked] at accepted
    obtain ⟨rfl, finite⟩ := State.checked_ok checked
    refine ⟨finite, ?_⟩
    rw [← Except.ok.inj accepted]
    exact congrArg (fun states => { c with states }) (inserted_states sorted)

theorem Filled.behind {c : Compiler Float} {state : State Float} (before : Filled c) (finite : state.Finite)
    (later : ∀ last ∈ c.states.getLast?, last.time ≤ state.time) : Filled { c with states := c.states ++ [state] } := by
  apply @Filled.add c _ state before
  have latest : (c.states.getLast?.all fun last => last.time ≤ state.time) = true := by
    rw [Option.all_eq_true]
    intro last found
    exact decide_eq_true (later last found)
  unfold Compiler.add
  rw [finite.checked]
  exact congrArg (fun states => Except.ok { c with states }) (if_pos latest)

/-- Whatever a compiler can hold, it holds when the states come in time order. -/
theorem Filled.of_sorted (config : Config Float) {states : List (State Float)} (finite : ∀ s ∈ states, s.Finite)
    (sorted : states.Pairwise (·.time ≤ ·.time)) : Filled { config, states } := by
  induction states using List.reverseRecOn with
  | nil => exact .fresh config
  | append_singleton states state ih =>
    obtain ⟨before, _, across⟩ := List.pairwise_append.mp sorted
    have filled := ih (fun s member => finite s (List.mem_append_left _ member)) before
    refine filled.behind (finite state List.mem_concat_self) fun last found => ?_
    exact across last (List.mem_of_mem_getLast? found) state List.mem_cons_self

theorem Filled.sorted {c : Compiler Float} (filled : Filled c) :
    (∀ s ∈ c.states, s.Finite) ∧ c.states.Pairwise (·.time ≤ ·.time) := by
  induction filled with
  | fresh config => exact ⟨nofun, List.Pairwise.nil⟩
  | @add c d state before accepted ih =>
    obtain ⟨finite, sorted⟩ := ih
    obtain ⟨new, rfl⟩ := add_ok accepted sorted
    refine ⟨fun s member => ?_, (placed_le_sorted ⟨fun s member => (finite s member).defined, sorted⟩ new.defined).ordered⟩
    rcases List.mem_append.mp ((placed_perm _ state c.states).subset member) with stored | added
    · exact finite s stored
    · exact List.mem_singleton.mp added ▸ new
  | configure config before ih => exact ih

end Compiler
end Tween
