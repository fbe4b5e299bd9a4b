import Tween.Proofs.Capture.Segmentation
import Tween.Proofs.Emission.Written

/-! The commands of a pass part by part: what is made of the values of each channel, and which
change is written. Only positions and scales have more than one form. -/

namespace Tween

namespace Emission
variable {α : Type} [Scalar α] (e : Emission α)

/-- How positions are written: what is made of each, and the change from one to the next. -/
def moveForm (initial : Vec2 α) : (Vec2 α → Vec2 α) × (Vec2 α → Vec2 α → Change α) :=
  let rounded := e.config.roundPosition
  let keepsX := e.tracks.position.keyframes.all fun k => (rounded k.value).x == initial.x
  let keepsY := e.tracks.position.keyframes.all fun k => (rounded k.value).y == initial.y
  if keepsY && !keepsX then (fun p => ⟨(rounded p).x, initial.y⟩, fun a b => .moveX a.x b.x)
  else if keepsX && !keepsY then (fun p => ⟨initial.x, (rounded p).y⟩, fun a b => .moveY a.y b.y)
  else (rounded, .move)

theorem moves_eq (initial : Vec2 α) :
    e.moves initial = e.commands e.tracks.position initial (e.moveForm initial).1 (e.moveForm initial).2 := by
  unfold moves moveForm
  dsimp only
  split
  next => rfl
  next => split <;> rfl

/-- How scales are written. -/
def scaleForm : (Vec2 α → Vec2 α) × (Vec2 α → Vec2 α → Change α) :=
  let rounded := e.config.roundScale
  let pixels := Scalar.greatest e.bitmapSize.x e.bitmapSize.y
  let apart := e.tracks.scale.keyframes.any fun k => 1.0 < Scalar.abs ((rounded k.value).x - (rounded k.value).y) * pixels
  if apart then (rounded, .scaleVec) else (fun s => ⟨(rounded s).x, (rounded s).x⟩, fun a b => .scale a.x b.x)

theorem scales_eq : e.scales = e.commands e.tracks.scale ⟨1.0, 1.0⟩ e.scaleForm.1 e.scaleForm.2 := by
  unfold scales scaleForm
  dsimp only
  split <;> rfl

theorem forall_appended {holds : Command α → Prop} (script : Script α) :
    (∀ command ∈ e.appended script, holds command) ↔
      (∀ command ∈ e.moves script.initialPosition, holds command) ∧ (∀ command ∈ e.scales, holds command) ∧
      (∀ command ∈ e.rotations, holds command) ∧ (∀ command ∈ e.colors, holds command) ∧
      (∀ fade ∈ keptFades showsNothing (e.ahead script) e.fades, holds (command .fade fade)) ∧
      (∀ command ∈ flags e.tracks.flipH .flipH, holds command) ∧
      (∀ command ∈ flags e.tracks.flipV .flipV, holds command) ∧
      (∀ command ∈ flags e.tracks.additive .additive, holds command) := by
  simp only [appended, List.forall_mem_append, List.forall_mem_map, and_assoc]

theorem appended_empty (empty : e.tracks = .empty) (script : Script α) : e.appended script = [] := by
  obtain ⟨config, tracks, bitmapSize, options⟩ := e
  cases empty
  simp only [appended, moves_eq, scales_eq]
  rfl

end Emission

namespace Compiler
variable {α : Type} [Scalar α] (c : Compiler α) (script : Script α) (sizes : String → Option (Vec2 α))
  (options : PassOptions α)

/-- A pass only appends to a script; if the object is never visible, there is nothing to emit. -/
theorem compile_script :
    (c.compile script sizes options).2.1 =
      { script with commands := script.commands ++ (c.emission script sizes options).appended script } := by
  rw [compile_sink, passWith]
  split
  next => exact Emission.run_script _ script
  next unseen =>
    have none : Span.ofStates (c.isVisible script sizes) none c.states = [] := by
      rw [capture, (Capture.run_eq c.states).2] at unseen
      simpa using unseen
    have empty : (c.emission script sizes options).tracks = .empty := by
      change (c.capture script sizes options.timeOffset).tracks = .empty
      rw [capture, (Capture.run_eq c.states).1, none]
      rfl
    rw [Emission.appended_empty _ empty, List.append_nil]

theorem compile_appended :
    ((c.compile script sizes options).2.1).commands =
      script.commands ++ (c.emission script sizes options).appended script :=
  congrArg (·.commands) (compile_script c script sizes options)

end Compiler
end Tween
