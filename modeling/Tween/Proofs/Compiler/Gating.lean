import Tween.Proofs.Binary64.Rounding
import Tween.Proofs.Capture.Entrance
import Tween.Proofs.Channel.Stillness
import Tween.Proofs.Emission.Written

/-! Whether a pass emits anything. It does exactly if some state is visible. Its opacity then has a
keyframe that rounds to nothing, which is not what a sprite shows anyway, so there is a fade to
emit, and on an empty script no fade is redundant. -/

namespace Tween
open Scalar

namespace Emission
variable {α : Type} [Scalar α]

theorem fades_present [OrderLaws α] (positive : (0.0 : α) < 1.0) {e : Emission α} {k : Keyframe α α}
    (member : k ∈ e.tracks.opacity.keyframes) (faint : ¬0.0 < e.config.roundOpacity k.value) : e.fades ≠ [] := by
  intro none
  have shown := (Channel.pairs_eq_nil_iff.mp none).1
  have whole : (e.config.roundOpacity k.value == 1.0) = true := shown _ (List.mem_map_of_mem member)
  exact faint (OrderLaws.lt_of_lt_of_le positive (OrderLaws.ge_of_beq whole))

/-- On a script without commands the first fade is not redundant. -/
theorem keptFades_fresh {script : Script α} (fresh : script.commands = []) {fades : List (Pair α α)}
    (present : fades ≠ []) : keptFades showsNothing script fades ≠ [] := by
  obtain ⟨fade, rest, rfl⟩ := List.exists_cons_of_ne_nil present
  have first : (Sink.startTime script : Option α) = none := by
    change script.startTime = none
    rw [Script.startTime, fresh]
    rfl
  rw [keptFades, first]
  exact List.cons_ne_nil _ _

theorem run_present (e : Emission α) (present : e.fades ≠ []) (script : Script α) : (e.run script).commands ≠ [] := by
  intro none
  have ahead : (e.ahead script).commands = script.commands ++ e.moves script.initialPosition ++ e.scales ++ e.rotations
      ++ e.colors := by
    simp only [Emission.ahead, pushAll_script]
    rfl
  rw [run_appended, appended] at none
  simp only [List.append_eq_nil_iff, List.map_eq_nil_iff] at none
  obtain ⟨own, ⟨⟨⟨front, kept⟩, _⟩, _⟩, _⟩ := none
  refine keptFades_fresh ?_ present kept
  rw [ahead, own, List.nil_append]
  simpa only [List.append_eq_nil_iff] using front

end Emission

namespace Compiler
variable {σ : Type}

/-- The wrapper, with a count of its calls. -/
def counted {m : Type → Type} [Monad m] (wrapper : (σ → σ) → σ → m σ) (emit : σ → σ) (sink : σ) : StateT Nat m σ := do
  modify (· + 1)
  wrapper emit sink

section Calls
variable {α : Type} [Scalar α] [Sink σ α] (c : Compiler α) (sink : σ) (sizes : String → Option (Vec2 α))

theorem capture_begun (timeOffset : α) :
    (c.capture sink sizes timeOffset).begun = c.states.any (c.isVisible sink sizes) := by
  rw [capture, (Capture.run_eq c.states).2, Span.ofStates_isEmpty, Bool.not_not]

theorem compileWith_counted {m : Type → Type} [Monad m] [LawfulMonad m] (options : PassOptions α)
    (wrapper : (σ → σ) → σ → m σ) (calls : Nat) :
    (c.compileWith sink sizes options (counted wrapper)).run calls =
      if c.states.any (c.isVisible sink sizes) then
        (fun after => ((true, after, { config := c.config }), calls + 1)) <$>
          wrapper (c.emission sink sizes options).run sink
      else pure ((false, sink, { config := c.config }), calls) := by
  unfold compileWith counted
  simp only [capture_begun]
  split
  next seen =>
    simp [seen, emission]
  next hidden =>
    simp [hidden]

end Calls

variable (c : Compiler Float) (sizes : String → Option (Vec2 Float))

/-- A pass answers whether any state is visible. If so it calls the wrapper once, otherwise it
leaves the sink alone; and straight onto an empty script it writes something exactly if so. -/
theorem pass_gated (options : PassOptions Float) [Sink σ Float] (sink : σ) {m : Type → Type} [Monad m] [LawfulMonad m]
    (wrapper : (σ → σ) → σ → m σ) (texturePath : String) (origin : Origin) (initialPosition : Vec2 Float) :
    let fresh : Script Float := { texturePath, origin, initialPosition }
    (c.compileWith sink sizes options (counted wrapper)).run 0 =
        (if c.states.any (c.isVisible sink sizes) then
          (fun after => ((true, after, { config := c.config }), 1)) <$> wrapper (c.emission sink sizes options).run sink
        else pure ((false, sink, { config := c.config }), 0)) ∧
      ((c.compile fresh sizes options).1 = true ↔ ∃ s ∈ c.states, c.isVisible fresh sizes s = true) ∧
      ((c.compile fresh sizes options).1 = true ↔ (c.compile fresh sizes options).2.1.commands ≠ []) := by
  intro fresh
  rw [compile_eq, passWith, capture_begun]
  refine ⟨compileWith_counted c sink sizes options wrapper 0, List.any_eq_true, ?_⟩
  cases seen : c.states.any (c.isVisible fresh sizes) with
  | false => simp [fresh]
  | true =>
    have begun : (c.capture fresh sizes options.timeOffset).begun = true := (capture_begun ..).trans seen
    obtain ⟨k, member, faint⟩ := Capture.run_enters (Binary64.roundPlaces_nothing c.config.places.opacity) begun
    have fades : (c.emission fresh sizes options).fades ≠ [] := Emission.fades_present (by decide) member faint
    exact iff_of_true rfl (Emission.run_present _ fades fresh)

def glimpsed : Compiler Float where
  config := .standard
  states := [State.neutral 3.0, { State.neutral 4.0 with opacity := 0.0 }]

theorem pass_gated_glimpsed :
    (glimpsed.compileWith blankScript (fun _ => none) .standard (counted fun emit sink => some (emit sink))).run 0 =
        some ((true, (glimpsed.emission blankScript (fun _ => none) .standard).run blankScript,
          { config := glimpsed.config }), 1) ∧
      (glimpsed.compile blankScript (fun _ => none) .standard).1 = true ∧
      (glimpsed.compile blankScript (fun _ => none) .standard).2.1.commands ≠ [] := by
  have seen : glimpsed.states.any (glimpsed.isVisible blankScript fun _ => none) = true := by decide +kernel
  obtain ⟨calls, answers, writes⟩ := pass_gated glimpsed (fun _ => none) .standard blankScript
    (fun emit sink => some (emit sink)) "" .centre canvasCenter
  have blank : ({ texturePath := "", origin := .centre, initialPosition := canvasCenter } : Script Float) = blankScript :=
    rfl
  rw [if_pos seen] at calls
  rw [blank] at answers writes
  have emitted : (glimpsed.compile blankScript (fun _ => none) .standard).1 = true :=
    answers.mpr (List.any_eq_true.mp seen)
  exact ⟨calls, emitted, writes.mp emitted⟩

end Compiler
end Tween
