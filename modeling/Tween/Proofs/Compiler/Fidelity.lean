import Tween.Proofs.Anchoring
import Tween.Proofs.Emission.Enclosure

/-! One pass from end to end. Without tolerances, and if the object is visible in a single span,
the script shows every visible state as it was added, rounded, at its time. -/

namespace Tween
open Scalar OrderLaws Channel

def Script.scalesApart {α : Type} (script : Script α) : Bool := script.commands.any Command.scalesApart

/-- At the time the script lasts and shows the rounded values of the state, however a player gets
from one end of a command to the other. A flag is as it is. -/
structure Script.Portrays (script : Script Float) (config : Config Float) (time : Float) (s : State Float) : Prop where
  begun : ∃ start ∈ script.startTime, start ≤ time
  lasting : ∃ stop ∈ script.endTime, time ≤ stop
  position (blend : Blend Float (Vec2 Float)) :
    (replay blend.anchored script.initialPosition (script.pairs (Change.positions? script.initialPosition)) time ==
      config.roundPosition s.position) = true
  /-- Scaled alike, both axes show the horizontal scale. -/
  scale (blend : Blend Float (Vec2 Float)) :
    (replay blend.anchored ⟨1.0, 1.0⟩ (script.pairs Change.scales?) time ==
      if script.scalesApart then config.roundScale s.scale
      else ⟨(config.roundScale s.scale).x, (config.roundScale s.scale).x⟩) = true
  rotation (blend : Blend Float Float) :
    (replay blend.anchored 0.0 (script.pairs Change.rotations?) time == config.roundRotation s.rotation) = true
  color (blend : Blend Float (Color Float)) :
    (replay blend.anchored .white (script.pairs Change.colors?) time == config.roundColor s.color) = true
  opacity (blend : Blend Float Float) :
    (replay blend.anchored 1.0 (script.pairs Change.opacities?) time == config.roundOpacity s.opacity) = true
  flipH : script.shows .flipH time = s.flipH
  flipV : script.shows .flipV time = s.flipV
  additive : script.shows .additive time = s.additive

/-- The state with the values that a command can hold of it. -/
def Config.portrait (config : Config Float) (scalesApart : Bool) (time : Float) (s : State Float) : State Float :=
  let scale := config.roundScale s.scale
  { s with
    time
    position := config.roundPosition s.position
    scale := if scalesApart then scale else ⟨scale.x, scale.x⟩
    rotation := config.roundRotation s.rotation
    color := config.roundColor s.color
    opacity := config.roundOpacity s.opacity }

/-- The way between the values of a command is finite, and so is the time since it began. -/
structure Script.Measured (script : Script Float) (time : Float) : Prop where
  times : ∀ command ∈ script.commands, command.startTime ≤ time → (time - command.startTime).isFinite = true
  positions : ∀ p ∈ script.pairs (Change.positions? script.initialPosition), (p.stop.value - p.start.value).isFinite = true
  scales : ∀ p ∈ script.pairs Change.scales?, (p.stop.value - p.start.value).isFinite = true
  rotations : ∀ p ∈ script.pairs Change.rotations?, (p.stop.value - p.start.value).isFinite = true
  colors : ∀ p ∈ script.pairs Change.colors?, p.start.value.FiniteWay p.stop.value
  opacities : ∀ p ∈ script.pairs Change.opacities?, (p.stop.value - p.start.value).isFinite = true

theorem State.beq_iff {α : Type} [BEq α] {s t : State α} : (s == t) = true ↔ (s.time == t.time) = true ∧
    (s.position == t.position) = true ∧ (s.scale == t.scale) = true ∧ (s.rotation == t.rotation) = true ∧
      (s.color == t.color) = true ∧ (s.opacity == t.opacity) = true ∧ s.flipH = t.flipH ∧ s.flipV = t.flipV ∧
        s.additive = t.additive := by
  change (s.time == t.time && (s.position == t.position && (s.scale == t.scale && (s.rotation == t.rotation &&
    (s.color == t.color && (s.opacity == t.opacity && (s.flipH == t.flipH && (s.flipV == t.flipV &&
      s.additive == t.additive)))))))) = true ↔ _
  simp only [Bool.and_eq_true, beq_iff_eq]

theorem Script.Measured.near {V : Type} {script : Script Float} {time : Float} (measured : script.Measured time)
    (values? : Change Float → Option (V × V)) :
    ∀ p ∈ script.pairs values?, p.start.time ≤ time → (time - p.start.time).isFinite = true := by
  intro p member
  obtain ⟨command, stored, read⟩ := List.mem_filterMap.mp member
  obtain ⟨values, _, rfl⟩ := Option.map_eq_some_iff.mp read
  exact measured.times command stored

/-- A player that measures every way shows the same portrait. -/
theorem Script.Portrays.stateAt {script : Script Float} {config : Config Float} {time : Float} {s : State Float}
    (portrays : script.Portrays config time s) (measured : script.Measured time) :
    (script.stateAt time == config.portrait script.scalesApart time s) = true := by
  obtain ⟨start, _, begun⟩ := portrays.begun
  have here : (time == time) = true := beq_of_defined (le_defined begun).2
  have position := portrays.position Blend.vec2
  have scale := portrays.scale Blend.vec2
  have rotation := portrays.rotation Blend.scalar
  have color := portrays.color Blend.color
  have opacity := portrays.opacity Blend.scalar
  rw [replay_anchored Blend.vec2_stays _ measured.positions (measured.near _)] at position
  rw [replay_anchored Blend.vec2_stays _ measured.scales (measured.near _)] at scale
  rw [replay_anchored Blend.scalar_stays _ measured.rotations (measured.near _)] at rotation
  rw [replay_anchored Blend.color_stays _ measured.colors (measured.near _)] at color
  rw [replay_anchored Blend.scalar_stays _ measured.opacities (measured.near _)] at opacity
  exact State.beq_iff.mpr
    ⟨here, position, scale, rotation, color, opacity, portrays.flipH, portrays.flipV, portrays.additive⟩

namespace Emission
variable {e : Emission Float} {timeOffset : Float} {recorded : List (State Float)} {s last : State Float}

private theorem runWith_scalesApart (redundant : Option Float → Option Float → Pair Float Float → Bool)
    {script : Script Float} (fresh : script.commands = []) :
    (e.runWith redundant script).scalesApart = e.scales.any Command.scalesApart := by
  have moved : (e.moves script.initialPosition).any Command.scalesApart = false := by
    unfold moves
    dsimp only
    split
    · exact Command.map_together (fun _ => rfl) _
    · split <;> exact Command.map_together (fun _ => rfl) _
  have turned : e.rotations.any Command.scalesApart = false := Command.map_together (fun _ => rfl) _
  have coloured : e.colors.any Command.scalesApart = false := Command.map_together (fun _ => rfl) _
  have faded (kept : List (Pair Float Float)) : (kept.map (command .fade)).any Command.scalesApart = false :=
    Command.map_together (fun _ => rfl) kept
  have flippedH : (flags e.tracks.flipH (.flipH : Change Float)).any Command.scalesApart = false :=
    Command.map_together (fun _ => rfl) _
  have flippedV : (flags e.tracks.flipV (.flipV : Change Float)).any Command.scalesApart = false :=
    Command.map_together (fun _ => rfl) _
  have added : (flags e.tracks.additive (.additive : Change Float)).any Command.scalesApart = false :=
    Command.map_together (fun _ => rfl) _
  rw [Script.scalesApart, runWith_script, fresh]
  simp only [List.any_append, moved, turned, coloured, faded, flippedH, flippedV, added]
  simp

theorem Faithful.portrays (faithful : e.Faithful timeOffset recorded) (ending : recorded.getLast? = some last)
    (before : s.time + timeOffset < last.time + timeOffset) (member : s ∈ recorded)
    (visible : ¬e.config.roundOpacity s.opacity ≤ 0.0) {script : Script Float} (fresh : script.commands = []) :
    (e.run script).Portrays e.config (s.time + timeOffset) s := by
  obtain ⟨begun, lasting⟩ := @Faithful.lasts _ _ _ _ _ faithful ending before member visible script
  obtain ⟨flipH, flipV, additive⟩ := faithful.shows_flags ending before member fresh showsNothing
  have place : (e.run script).initialPosition = script.initialPosition := by
    rw [run, runWith_script]
  refine ⟨begun, lasting, fun blend => ?_, fun blend => ?_, fun blend => ?_, fun blend => ?_, fun blend => ?_, flipH,
    flipV, additive⟩
  · rw [place, run, runWith_positions _ _ fresh]
    exact faithful.shows_moves member script.initialPosition blend
  · rw [run, runWith_scales _ _ fresh, runWith_scalesApart _ fresh]
    exact faithful.shows_scales member blend
  · rw [run, runWith_rotations _ _ fresh]
    exact faithful.shows_rotations member blend
  · rw [run, runWith_colors _ _ fresh]
    exact faithful.shows_colors member blend
  · exact faithful.shows_opacity ending before member visible fresh blend

end Emission

namespace Compiler
open Capture

variable {c : Compiler Float} {script : Script Float} {sizes : String → Option (Vec2 Float)} {timeOffset : Float}
  {span : Span Float} {s last : State Float}

/-- A pass without tolerances over one visible span. No two states get to the same time, and
nothing overflows on the way. -/
structure Lossless (c : Compiler Float) (script : Script Float) (sizes : String → Option (Vec2 Float))
    (timeOffset : Float) (span : Span Float) : Prop where
  filled : c.Filled
  valid : c.config.fault? = none
  exact : ∀ aspect, (c.config.tolerance.get aspect == 0.0) = true
  shift : timeOffset.isFinite = true
  apart : c.states.Pairwise fun s t => (s.time + timeOffset == t.time + timeOffset) = false
  moderate : ∀ s ∈ c.states, c.config.Moderate timeOffset s
  alone : Span.ofStates (c.isVisible script sizes) none c.states = [span]

namespace Lossless
variable (lossless : c.Lossless script sizes timeOffset span)
include lossless

theorem sublist : (span.recorded true).Sublist c.states := by
  have recorded := @Span.recorded_sublist _ (c.isVisible script sizes) c.states
  rw [lossless.alone] at recorded
  simpa [Span.recordings] using recorded

theorem recorded (member : s ∈ c.states) (visible : c.isVisible script sizes s = true) : s ∈ span.recorded true := by
  have filtered := @Span.recorded_visible _ (c.isVisible script sizes) c.states
  rw [lossless.alone] at filtered
  have found : s ∈ c.states.filter (c.isVisible script sizes) := List.mem_filter.mpr ⟨member, visible⟩
  rw [← filtered] at found
  simpa [Span.recordings] using (List.mem_filter.mp found).1

theorem strict : Strict timeOffset (span.recorded true) := by
  have timed := (lossless.filled.timed (Binary64.defined_of_finite lossless.shift)).sublist lossless.sublist
  have apart := lossless.apart.sublist lossless.sublist
  refine ⟨fun s member => (lossless.moderate s (lossless.sublist.subset member)).time, ?_⟩
  refine (timed.ordered.and apart).imp fun ⟨ordered, distinct⟩ => ?_
  exact (lt_or_beq_of_le ordered).resolve_right (Bool.eq_false_iff.mp distinct)

theorem tracks : (c.capture script sizes timeOffset).tracks =
    assembled [single c.config (bitmapSize sizes script) timeOffset none (span.recorded true)] := by
  have timed := lossless.filled.timed (Binary64.defined_of_finite lossless.shift)
  have laid := (run_assembled c.config (bitmapSize sizes script) timed (c.isVisible script sizes)).1
  rw [lossless.alone] at laid
  exact laid

theorem faithful :
    (c.emission script sizes (.unbounded timeOffset)).Faithful timeOffset (span.recorded true) := by
  have timed := lossless.filled.timed (Binary64.defined_of_finite lossless.shift)
  have ordered := (run_assembled c.config (bitmapSize sizes script) timed (c.isVisible script sizes)).2
  have strict := lossless.strict
  have finite : ∀ s ∈ span.recorded true, s.Finite := fun s member =>
    lossless.filled.sorted.1 s (lossless.sublist.subset member)
  have within (aspect : Aspect) : c.config.tolerance.get aspect ≤ 0.0 := le_of_beq (lossless.exact aspect)
  have nothing : (0.0 : Float) ≤ 0.0 := by decide
  have tracks : (c.emission script sizes (.unbounded timeOffset)).tracks =
      assembled [single c.config (bitmapSize sizes script) timeOffset none (span.recorded true)] := lossless.tracks
  refine ⟨lossless.valid, rfl, strict, finite, fun s member => lossless.moderate s (lossless.sublist.subset member),
    ?_, ?_, ?_, ?_, ?_, ordered.opacity, ?_, ?_, ?_⟩ <;> rw [tracks]
  · exact simplify_sampled strict (fun s member => Binary64.beq_self_vec2 (finite s member).position) rfl (within .position) _
  · exact simplify_sampled strict (fun s member => Binary64.beq_self_vec2 (finite s member).scale) rfl (within .scale) _
  · exact simplify_sampled strict (fun s member => Binary64.beq_self (finite s member).rotation) rfl (within .rotation) _
  · exact simplify_sampled strict (fun s member => Binary64.beq_self_color (finite s member).color) rfl (within .color) _
  · refine ⟨_, ?_, rfl⟩
    exact simplify_sampled strict (fun s member => Binary64.beq_self (finite s member).opacity) rfl (within .opacity) _
  · exact simplify_sampled strict (fun s _ => beq_self_eq_true s.flipH) rfl nothing _
  · exact simplify_sampled strict (fun s _ => beq_self_eq_true s.flipV) rfl nothing _
  · exact simplify_sampled strict (fun s _ => beq_self_eq_true s.additive) rfl nothing _

theorem emitted : (c.compile script sizes (.unbounded timeOffset)).2.1 =
    (c.emission script sizes (.unbounded timeOffset)).run script := by
  have begun : (c.capture script sizes timeOffset).begun = true := by
    rw [capture, (run_eq c.states).2, lossless.alone]
    rfl
  rw [compile_sink, passWith]
  exact if_pos begun

end Lossless

private theorem visible_opacity (visible : c.isVisible script sizes s = true) :
    ¬c.config.roundOpacity s.opacity ≤ 0.0 := by
  intro faint
  rw [isVisible, State.isVisible] at visible
  simp only [faint, if_true] at visible
  split at visible <;> cases visible

/-- A pass without tolerances shows every visible state before the last recorded one. -/
theorem pass_portrays (lossless : c.Lossless script sizes timeOffset span) (fresh : script.commands = [])
    (ending : (span.recorded true).getLast? = some last) (member : s ∈ c.states)
    (visible : c.isVisible script sizes s = true) (before : s.time + timeOffset < last.time + timeOffset) :
    ((c.compile script sizes (.unbounded timeOffset)).2.1).Portrays c.config (s.time + timeOffset) s := by
  have recorded := lossless.recorded member visible
  rw [lossless.emitted]
  exact lossless.faithful.portrays ending before recorded (visible_opacity visible) fresh

def glimpse (time opacity : Float) : State Float :=
  { State.neutral time with
    position := ⟨100.0 * time, 50.0⟩, scale := ⟨2.0, 1.0⟩, color := ⟨1.0, 0.0, 0.0⟩, opacity, flipH := true }

def passingBy : Compiler Float where
  config := { (.standard : Config Float) with tolerance := ⟨0.0, 0.0, 0.0, 0.0, 0.0⟩ }
  states := [glimpse 0.0 0.0, glimpse 1.0 1.0, glimpse 2.0 0.5, glimpse 3.0 0.0]

theorem pass_portrays_passingBy :
    (passingBy.compile blankScript (fun _ => none) (.unbounded 0.5)).2.1.Portrays
      passingBy.config ((glimpse 2.0 0.5).time + 0.5) (glimpse 2.0 0.5) := by
  let span : Span Float := ⟨some (glimpse 0.0 0.0), glimpse 1.0 1.0, [glimpse 2.0 0.5], some (glimpse 3.0 0.0)⟩
  have seen : passingBy.states.map (passingBy.isVisible blankScript fun _ => none) = [false, true, true, false] := by
    decide +kernel
  have alone : Span.ofStates (passingBy.isVisible blankScript fun _ => none) none passingBy.states = [span] := by
    simp only [passingBy, List.map_cons, List.map_nil, List.cons.injEq, and_true] at seen
    obtain ⟨before, first, second, after⟩ := seen
    simp [passingBy, Span.ofStates, before, first, second, after, span]
  have filled : passingBy.Filled := Filled.of_sorted _ (by decide +kernel) (by decide +kernel)
  have exact (aspect : Aspect) : (passingBy.config.tolerance.get aspect == 0.0) = true := by cases aspect <;> decide
  have lossless : passingBy.Lossless blankScript (fun _ => none) 0.5 span :=
    ⟨filled, by decide +kernel, exact, by decide, by decide +kernel, by decide +kernel, alone⟩
  exact pass_portrays lossless rfl rfl (by simp [passingBy]) (by decide +kernel) (by decide)

/-- Played at the state's time, the script gives the rounded state, as far as the player's own
arithmetic does not overflow. -/
theorem pass_shows (lossless : c.Lossless script sizes timeOffset span) (fresh : script.commands = [])
    (ending : (span.recorded true).getLast? = some last) (member : s ∈ c.states)
    (visible : c.isVisible script sizes s = true) (before : s.time + timeOffset < last.time + timeOffset)
    (measured : ((c.compile script sizes (.unbounded timeOffset)).2.1).Measured (s.time + timeOffset)) :
    let played := (c.compile script sizes (.unbounded timeOffset)).2.1
    (played.stateAt (s.time + timeOffset) ==
      c.config.portrait played.scalesApart (s.time + timeOffset) s) = true := by
  have recorded := lossless.recorded member visible
  rw [lossless.emitted] at measured ⊢
  exact (lossless.faithful.portrays ending before recorded (visible_opacity visible) fresh).stateAt measured

example : ((passingBy.compile blankScript (fun _ => none) (.unbounded 0.5)).2.1.stateAt 2.5 ==
    passingBy.config.portrait false 2.5 (glimpse 2.0 0.5)) = true := by decide +kernel

end Compiler
end Tween
