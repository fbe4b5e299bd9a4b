import Tween.Proofs.Capture.Sampling
import Tween.Proofs.Emission.Fades
import Tween.Proofs.Emission.FlagSpans

/-! The emission of a single span that was simplified without loss. Whichever kinds of commands it
chooses, reading them back gives the rounded values of every recorded state. -/

namespace Tween
open Scalar OrderLaws Channel

/-- Everything is played once, moved in time. -/
def PassOptions.unbounded (timeOffset : Float) : PassOptions Float where
  startTime := none
  endTime := none
  timeOffset
  loopable := false

/-- Scales both axes apart. -/
def Command.scalesApart {α : Type} (command : Command α) : Bool :=
  match command.change with
  | .scaleVec .. => true
  | _ => false

theorem Command.map_together {α β : Type} {f : β → Command α} (together : ∀ b, (f b).scalesApart = false) (bs : List β) :
    (bs.map f).any Command.scalesApart = false := by
  rw [List.any_map, List.any_eq_false]
  intro b _
  rw [Function.comp_apply, together]
  exact Bool.false_ne_true

namespace Emission
open Capture Script

/-- What is known of the emission of a pass over a single span without tolerances. -/
structure Faithful (e : Emission Float) (timeOffset : Float) (recorded : List (State Float)) : Prop where
  valid : e.config.fault? = none
  options : e.options = .unbounded timeOffset
  strict : Strict timeOffset recorded
  finite : ∀ s ∈ recorded, s.Finite
  moderate : ∀ s ∈ recorded, e.config.Moderate timeOffset s
  position : Sampled timeOffset (·.position) recorded e.tracks.position.keyframes
  scale : Sampled timeOffset (·.scale) recorded e.tracks.scale.keyframes
  rotation : Sampled timeOffset (·.rotation) recorded e.tracks.rotation.keyframes
  color : Sampled timeOffset (·.color) recorded e.tracks.color.keyframes
  opacity : ∃ kept, Sampled timeOffset (·.opacity) recorded kept ∧
    e.tracks.opacity.keyframes = enclosed e.config none kept
  opacities : Ordered e.tracks.opacity.keyframes
  flipH : Sampled timeOffset (·.flipH) recorded e.tracks.flipH.keyframes
  flipV : Sampled timeOffset (·.flipV) recorded e.tracks.flipV.keyframes
  additive : Sampled timeOffset (·.additive) recorded e.tracks.additive.keyframes

namespace Faithful
variable {e : Emission Float} {timeOffset : Float} {recorded : List (State Float)} {s : State Float}

theorem playback {V : Type} (faithful : e.Faithful timeOffset recorded) (rest : V) (edit : V → V) :
    e.options.playback rest edit = { rest, edit } := by
  rw [faithful.options]
  rfl

section Commands
variable {V : Type} [BEq V] [PartialEquivBEq V] {value : State Float → V} {channel : Channel Float V}

/-- Commands of a channel show a value of every recorded state, if the edit of what equals the
state's own value does, and reading the commands back keeps edited values. -/
private theorem shows_commands (faithful : e.Faithful timeOffset recorded)
    (sampled : Sampled timeOffset value recorded channel.keyframes)
    (reflexive : ∀ s ∈ recorded, (value s == value s) = true)
    (values? : Change Float → Option (V × V)) (rest : V) (edit widen : V → V) (change : V → V → Change Float)
    (target : State Float → V) (reads : ∀ a b, values? (change a b) = some (widen a, widen b))
    (fixed : ∀ v, widen (edit v) = edit v)
    (agrees : ∀ s ∈ recorded, ∀ w, (value s == w) = true → (edit w == target s) = true) (blend : Blend Float V)
    (member : s ∈ recorded) :
    (replay blend.anchored rest (pairsOf values? (e.commands channel rest edit change)) (s.time + timeOffset) == target s)
      = true := by
  have own (s : State Float) (member : s ∈ recorded) := agrees s member _ (reflexive s member)
  rw [replay_commands e reads fixed (faithful.playback rest edit)]
  have respects : ∀ s ∈ recorded, ∀ w, (value s == w) = true → (edit (value s) == edit w) = true :=
    fun s member w same => PartialEquivBEq.trans (own s member) (PartialEquivBEq.symm (agrees s member w same))
  have shown := sampled.shows faithful.strict respects reflexive blend rest rfl member
  exact PartialEquivBEq.trans shown (own s member)

end Commands

section Values
variable (faithful : e.Faithful timeOffset recorded) (member : s ∈ recorded)
include faithful

private theorem rounds_position {v w : Vec2 Float} (same : (v == w) = true) :
    (e.config.roundPosition w == e.config.roundPosition v) = true :=
  PartialEquivBEq.symm (Config.roundPosition_congr faithful.valid same)

private theorem rounds_scale {v w : Vec2 Float} (same : (v == w) = true) :
    (e.config.roundScale w == e.config.roundScale v) = true :=
  PartialEquivBEq.symm (Config.roundScale_congr faithful.valid same)

/-- A coordinate that all kept positions share with the initial one is shared by all recorded ones. -/
private theorem keeps_axis {initial : Float} (axis : Vec2 Float → Float)
    (respects : ∀ {v w : Vec2 Float}, (v == w) = true → (axis v == axis w) = true)
    (kept : (e.tracks.position.keyframes.all fun k => axis (e.config.roundPosition k.value) == initial) = true) :
    ∀ s ∈ recorded, (initial == axis (e.config.roundPosition s.position)) = true := by
  intro s member
  refine PartialEquivBEq.symm (faithful.position.all (fun v => (axis (e.config.roundPosition v) == initial) = true)
    (List.all_eq_true.mp kept) ?_ s member)
  intro s member w same held
  exact PartialEquivBEq.trans (respects (faithful.rounds_position same)) held

include member

theorem shows_moves (initial : Vec2 Float) (blend : Blend Float (Vec2 Float)) :
    (replay blend.anchored initial (pairsOf (Change.positions? initial) (e.moves initial)) (s.time + timeOffset) ==
      e.config.roundPosition s.position) = true := by
  have reflexive (s : State Float) (member : s ∈ recorded) := Binary64.beq_self_vec2 (faithful.finite s member).position
  have shows := @shows_commands e timeOffset recorded s _ _ _ _ _ faithful faithful.position reflexive
    (Change.positions? initial) initial
  unfold moves
  dsimp only
  split
  next across =>
    have along := faithful.keeps_axis (·.y) (fun same => (Vec2.beq_iff.mp same).2)
      (Bool.and_eq_true_iff.mp across).1
    have shown := shows (fun p => ⟨(e.config.roundPosition p).x, initial.y⟩) (fun p => ⟨p.x, initial.y⟩)
      (fun a b => .moveX a.x b.x) (e.config.roundPosition ·.position) (fun _ _ => rfl) (fun _ => rfl)
      (fun s member w same =>
        Vec2.beq_of_axes (Vec2.beq_iff.mp (faithful.rounds_position same)).1 (along s member))
      blend member
    exact shown
  next =>
    split
    next down =>
      have along := faithful.keeps_axis (·.x) (fun same => (Vec2.beq_iff.mp same).1)
        (Bool.and_eq_true_iff.mp down).1
      have shown := shows (fun p => ⟨initial.x, (e.config.roundPosition p).y⟩) (fun p => ⟨initial.x, p.y⟩)
        (fun a b => .moveY a.y b.y) (e.config.roundPosition ·.position) (fun _ _ => rfl) (fun _ => rfl)
        (fun s member w same =>
          Vec2.beq_of_axes (along s member) (Vec2.beq_iff.mp (faithful.rounds_position same)).2)
        blend member
      exact shown
    next =>
      have shown := shows e.config.roundPosition id .move (e.config.roundPosition ·.position) (fun _ _ => rfl)
        (fun _ => rfl) (fun s member w same => faithful.rounds_position same) blend member
      exact shown

theorem shows_scales (blend : Blend Float (Vec2 Float)) :
    let rounded := e.config.roundScale s.scale
    (replay blend.anchored ⟨1.0, 1.0⟩ (pairsOf Change.scales? e.scales) (s.time + timeOffset) ==
      if e.scales.any Command.scalesApart then rounded else ⟨rounded.x, rounded.x⟩) = true := by
  intro rounded
  have reflexive (s : State Float) (member : s ∈ recorded) := Binary64.beq_self_vec2 (faithful.finite s member).scale
  have shows := @shows_commands e timeOffset recorded s _ _ _ _ _ faithful faithful.scale reflexive Change.scales?
    ⟨1.0, 1.0⟩
  unfold scales
  dsimp only
  split
  next =>
    have shown := shows e.config.roundScale id .scaleVec (e.config.roundScale ·.scale) (fun _ _ => rfl)
      (fun _ => rfl) (fun s member w same => faithful.rounds_scale same) blend member
    cases pairs : e.tracks.scale.pairs (e.options.playback ⟨1.0, 1.0⟩ e.config.roundScale) with
    | nil =>
      -- Without a command the scale is one, along both axes.
      rw [commands, pairs] at shown ⊢
      have unit : ((⟨1.0, 1.0⟩ : Vec2 Float) == rounded) = true := shown
      exact Vec2.beq_of_axes (Vec2.beq_iff.mp unit).1 (Vec2.beq_iff.mp unit).1
    | cons pair pairs =>
      have apart : (e.commands e.tracks.scale ⟨1.0, 1.0⟩ e.config.roundScale .scaleVec).any Command.scalesApart =
          true := by
        rw [commands, pairs]
        rfl
      rw [apart]
      exact shown
  next =>
    have together (edit : Vec2 Float → Vec2 Float) : (e.commands e.tracks.scale ⟨1.0, 1.0⟩ edit fun a b =>
        .scale a.x b.x).any Command.scalesApart = false := Command.map_together (fun _ => rfl) _
    rw [together]
    have shown := shows (fun s => ⟨(e.config.roundScale s).x, (e.config.roundScale s).x⟩) (fun a => ⟨a.x, a.x⟩)
      (fun a b => .scale a.x b.x) (fun s => ⟨(e.config.roundScale s.scale).x, (e.config.roundScale s.scale).x⟩)
      (fun _ _ => rfl) (fun _ => rfl) (fun s member w same => by
        have width := (Vec2.beq_iff.mp (faithful.rounds_scale same)).1
        exact Vec2.beq_of_axes width width) blend member
    exact shown

theorem shows_rotations (blend : Blend Float Float) :
    (replay blend.anchored 0.0 (pairsOf Change.rotations? e.rotations) (s.time + timeOffset) ==
      e.config.roundRotation s.rotation) = true :=
  faithful.shows_commands faithful.rotation (fun s member => Binary64.beq_self (faithful.finite s member).rotation)
    Change.rotations? 0.0 e.config.roundRotation id .rotate (e.config.roundRotation ·.rotation) (fun _ _ => rfl)
    (fun _ => rfl) (fun _ _ _ same => PartialEquivBEq.symm
      (Config.roundRotation_congr faithful.valid same)) blend member

theorem shows_colors (blend : Blend Float (Color Float)) :
    (replay blend.anchored .white (pairsOf Change.colors? e.colors) (s.time + timeOffset) ==
      e.config.roundColor s.color) = true :=
  faithful.shows_commands faithful.color (fun s member => Binary64.beq_self_color (faithful.finite s member).color)
    Change.colors? .white e.config.roundColor id .color (e.config.roundColor ·.color) (fun _ _ => rfl)
    (fun _ => rfl) (fun _ _ _ same => PartialEquivBEq.symm
      (Config.roundColor_congr faithful.valid same)) blend member

end Values

section Flags
variable {last : State Float} (ending : recorded.getLast? = some last)
  (before : s.time + timeOffset < last.time + timeOffset)
include ending before

private theorem covers_flag (faithful : e.Faithful timeOffset recorded) (member : s ∈ recorded)
    {value : State Float → Bool} {keyframes : List (Keyframe Float Bool)}
    (sampled : Sampled timeOffset value recorded keyframes) :
    covered (flagSpans keyframes) (s.time + timeOffset) = value s := by
  obtain ⟨k, found, same⟩ := sampled.last_time ending
  refine flagSpans_covered (sampled.ordered faithful.strict) (sampled.passes s member) fun other final => ?_
  obtain rfl := Option.some.inj (found.symm.trans final)
  exact not_le_of_lt (same ▸ before)

theorem shows_flags (faithful : e.Faithful timeOffset recorded) (member : s ∈ recorded) {script : Script Float}
    (fresh : script.commands = []) (redundant : Option Float → Option Float → Pair Float Float → Bool) :
    (e.runWith redundant script).shows .flipH (s.time + timeOffset) = s.flipH ∧
      (e.runWith redundant script).shows .flipV (s.time + timeOffset) = s.flipV ∧
      (e.runWith redundant script).shows .additive (s.time + timeOffset) = s.additive := by
  have flipH := covers_flag ending before faithful member faithful.flipH
  have flipV := covers_flag ending before faithful member faithful.flipV
  have additive := covers_flag ending before faithful member faithful.additive
  refine ⟨?_, ?_, ?_⟩
  · rw [runWith_shows redundant e fresh (Or.inl rfl), flipH, flipV, additive]
    exact (Bool.or_false _).trans (Bool.or_false _)
  · rw [runWith_shows redundant e fresh (Or.inr (Or.inl rfl)), flipH, flipV, additive]
    exact Bool.or_false _
  · rw [runWith_shows redundant e fresh (Or.inr (Or.inr rfl)), flipH, flipV, additive]
    rfl

end Flags

end Faithful
end Emission
end Tween
