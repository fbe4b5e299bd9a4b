import Tween.Proofs.Channel.Changes
import Tween.Proofs.Channel.Passing
import Tween.Proofs.Emission.Lifetime

/-! An object that comes from nothing and goes to nothing. At a time at which it is seen the current
fade is never one that is left out, and the commands last from before that time until after it. -/

namespace Tween.Emission
open Scalar OrderLaws Channel
variable {α : Type} [Scalar α]

/-- From nothing at the first keyframe to nothing at the last one, and seen in between. -/
structure Seen (keyframes : List (Keyframe α α)) (time value : α) : Prop where
  ordered : Ordered keyframes
  brief : Brief keyframes
  unmoved : Unmoved keyframes
  passes : Passes keyframes time value
  visible : ¬value ≤ 0.0
  first : ∀ k ∈ keyframes.head?, k.value ≤ 0.0
  last : ∃ k, keyframes.getLast? = some k ∧ k.value ≤ 0.0 ∧ time < k.time

namespace Seen
variable [OrderLaws α] {first : Keyframe α α} {behind : List (Keyframe α α)} {time value : α}

private theorem change (seen : Seen (first :: behind) time value) {p : Pair α α}
    (member : p ∈ transitions false none first behind) : (p.start.value == p.stop.value) = false :=
  @transitions_change _ _ _ _ _ none first behind seen.brief (fun _ found => absurd found (Option.not_mem_none _)) p member

private theorem successive (seen : Seen (first :: behind) time value) :
    Successive first.time (transitions false none first behind) :=
  transitions_successive seen.ordered fun _ found => absurd found (Option.not_mem_none _)

private theorem begun (seen : Seen (first :: behind) time value) : first.time ≤ time := seen.passes.begun seen.ordered

/-- Something has changed before the object is seen, so a fade has begun. -/
theorem current (seen : Seen (first :: behind) time value) (blend : Blend α α) :
    ∃ f, current? (transitions false none first behind) time = some f ∧
      (f.during blend.anchored time == value) = true := by
  have shown := @transitions_show _ _ _ _ _ behind time value _ _ blend none seen.ordered
    (fun _ found => absurd found (Option.not_mem_none _)) seen.unmoved seen.passes seen.begun
  revert shown
  cases current? (transitions false none first behind) time with
  | some f =>
    intro shown
    exact ⟨f, rfl, shown⟩
  | none =>
    intro waiting
    exact absurd (le_trans (ge_of_beq waiting.2) (seen.first first rfl)) seen.visible

private theorem gone (seen : Seen (first :: behind) time value) (blend : Blend α α) :
    ∃ k : Keyframe α α, time < k.time ∧ k.value ≤ 0.0 ∧
      ∃ g, current? (transitions false none first behind) k.time = some g ∧
        (g.during blend.anchored k.time == k.value) = true := by
  obtain ⟨k, found, nothing, later⟩ := seen.last
  refine ⟨k, later, nothing, ?_⟩
  have passes : Passes (first :: behind) k.time k.value := by
    obtain ⟨earlier, shape⟩ := List.getLast?_eq_some_iff.mp found
    refine ⟨earlier, k, [], shape, (le_defined (le_of_lt later)).2, List.forall_mem_nil _, ?_, Or.inl rfl⟩
    exact beq_of_defined (le_defined nothing).1
  have shown := @transitions_show _ _ _ _ _ behind k.time k.value _ _ blend none seen.ordered
    (fun _ found => absurd found (Option.not_mem_none _)) seen.unmoved passes (le_trans seen.begun (le_of_lt later))
  revert shown
  cases missing : current? (transitions false none first behind) k.time with
  | some g =>
    intro shown
    exact ⟨g, rfl, shown⟩
  | none =>
    obtain ⟨f, begun, _⟩ := seen.current blend
    obtain ⟨front, back, split, started, _⟩ := current?_eq_some begun
    have member : f ∈ transitions false none first behind := split ▸ List.mem_append_right _ List.mem_cons_self
    exact absurd (le_trans started (le_of_lt later)) (current?_eq_none.mp missing f member)

private theorem outlasted (seen : Seen (first :: behind) time value) (blend : Blend α α) :
    ∃ g ∈ transitions false none first behind, time ≤ g.stop.time := by
  obtain ⟨f, found, shown⟩ := seen.current blend
  obtain ⟨k, later, nothing, g, last, ended⟩ := seen.gone blend
  obtain ⟨front, back, split, started, ahead⟩ := current?_eq_some last
  have member : g ∈ transitions false none first behind := split ▸ List.mem_append_right _ List.mem_cons_self
  have defined := (le_defined seen.begun).2
  have inside := (seen.successive.bounds member).2
  refine ⟨g, member, ?_⟩
  by_cases begun : g.start.time ≤ time
  · refine (le_total defined (le_defined inside).2).resolve_right fun past => ?_
    have same : current? (transitions false none first behind) time = some g := by
      rw [split]
      exact current?_behind begun fun other behind early => ahead other behind (le_trans early (le_of_lt later))
    obtain rfl := Option.some.inj (found.symm.trans same)
    rw [during_past _ past] at shown
    rw [during_past _ (le_trans past (le_of_lt later))] at ended
    exact seen.visible (le_trans (ge_of_beq shown) (le_trans (le_of_beq ended) nothing))
  · exact le_trans ((le_total defined (le_defined started).1).resolve_right begun) inside

section Kept
variable {script : Script α}

/-- The fade that shows the object is not left out: it ends with nothing only where it is over. -/
theorem kept (seen : Seen (first :: behind) time value) (blend : Blend α α) :
    ∃ f, current? (keptFades showsNothing script (transitions false none first behind)) time = some f ∧
      f ∈ keptFades showsNothing script (transitions false none first behind) ∧ f.start.time ≤ time ∧
      (f.during blend.anchored time == value) = true := by
  obtain ⟨f, found, shown⟩ := seen.current blend
  obtain ⟨front, back, split, begun, ahead⟩ := current?_eq_some found
  have member : f ∈ transitions false none first behind := split ▸ List.mem_append_right _ List.mem_cons_self
  refine ⟨f, ?_⟩
  rw [split, keptFades_append, keptFades]
  split
  next nothing =>
    rcases showsNothing_cases nothing with flat | ⟨_, _, still, _, zero⟩
    · exact absurd (flat.symm.trans (seen.change member)) Bool.false_ne_true.symm
    · have past : f.stop.time ≤ time := le_trans (ge_of_beq still) begun
      rw [during_past _ past] at shown
      exact absurd (le_trans (ge_of_beq shown) (le_of_beq zero)) seen.visible
  next =>
    refine ⟨current?_behind begun fun later member => ?_, List.mem_append_right _ List.mem_cons_self, begun, shown⟩
    exact ahead later ((keptFades_sublist _ _ _).subset member)

theorem commands_begin (seen : Seen (first :: behind) time value) (blend : Blend α α) :
    ∃ command ∈ (pushFades showsNothing script (transitions false none first behind)).commands,
      command.startTime ≤ time := by
  obtain ⟨f, _, member, begun, _⟩ := @kept _ _ _ _ _ _ _ script seen blend
  rw [pushFades_kept, pushAll_script]
  exact ⟨command .fade f, List.mem_append_right _ (List.mem_map_of_mem member), begun⟩

/-- A fade that drops to nothing is only left out when the commands last as long already. -/
theorem commands_end (seen : Seen (first :: behind) time value) (blend : Blend α α) :
    ∃ command ∈ (pushFades showsNothing script (transitions false none first behind)).commands,
      time ≤ command.endTime := by
  obtain ⟨g, member, lasting⟩ := seen.outlasted blend
  obtain ⟨front, back, split⟩ := List.append_of_mem member
  have change := seen.change member
  have inside := (seen.successive.bounds member).2
  rw [split, pushFades_kept, keptFades_append, keptFades, pushAll_script]
  split
  next nothing =>
    rcases showsNothing_cases nothing with flat | ⟨stop, found, still, latest, _⟩
    · exact absurd (flat.symm.trans change) Bool.false_ne_true.symm
    · obtain ⟨command, before, rfl⟩ := Script.endTime_command stop found
      rw [pushFades_kept, pushAll_script] at before
      refine ⟨command, ?_, le_trans lasting (le_trans (ge_of_beq still) (le_of_beq latest))⟩
      rw [List.map_append, ← List.append_assoc]
      exact List.mem_append_left _ before
  next =>
    refine ⟨command .fade g, List.mem_append_right _ (List.mem_map_of_mem ?_), lasting⟩
    exact List.mem_append_right _ List.mem_cons_self

end Kept

end Seen
end Tween.Emission
