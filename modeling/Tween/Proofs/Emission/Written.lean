import Tween.Compiler
import Tween.Proofs.Channel.Passing

/-! What a script holds after emission. The commands of one property stand together, and what is
read back of them are the pairs of its channel, without easings and markers. -/

namespace Tween
variable {α V W : Type}

/-- Times and widened values of a pair, all that commands keep. -/
def Pair.plain (widen : V → W) (pair : Pair α V) : Pair α W where
  start := { time := pair.start.time, value := widen pair.start.value }
  stop := { time := pair.stop.time, value := widen pair.stop.value }

variable [Scalar α]

/-- The pairs that `values?` reads of commands. -/
def Script.pairsOf (values? : Change α → Option (V × V)) (commands : List (Command α)) : List (Pair α V) :=
  commands.filterMap fun command => (values? command.change).map command.pair

omit [Scalar α] in
theorem Script.pairsOf_append (values? : Change α → Option (V × V)) (front back : List (Command α)) :
    pairsOf values? (front ++ back) = pairsOf values? front ++ pairsOf values? back := List.filterMap_append

namespace Emission
open Script

theorem showsNothing_cases {sinkStart sinkEnd : Option α} {fade : Pair α α}
    (nothing : showsNothing sinkStart sinkEnd fade = true) :
    (fade.start.value == fade.stop.value) = true ∨
      ∃ stop ∈ sinkEnd, (fade.start.time == fade.stop.time) = true ∧ (fade.start.time == stop) = true ∧
        (fade.stop.value == 0.0) = true := by
  unfold showsNothing at nothing
  split at nothing
  next start stop =>
    rcases Bool.or_eq_true_iff.mp nothing with outside | instant
    · exact Or.inl (Bool.and_eq_true_iff.mp outside).2
    · obtain ⟨times, zero⟩ := Bool.and_eq_true_iff.mp instant
      obtain ⟨still, last⟩ := Bool.and_eq_true_iff.mp times
      exact Or.inr ⟨stop, rfl, still, last, zero⟩
  next => cases nothing

section Kept
variable {σ : Type} [Sink σ α] (redundant : Option α → Option α → Pair α α → Bool)

/-- The fades that are not redundant when their turn comes. -/
def keptFades (sink : σ) : List (Pair α α) → List (Pair α α)
  | [] => []
  | fade :: fades =>
    if redundant (Sink.startTime sink) (Sink.endTime sink) fade then keptFades sink fades
    else fade :: keptFades (Sink.push sink (command .fade fade)) fades

theorem pushFades_kept (sink : σ) (fades : List (Pair α α)) :
    pushFades redundant sink fades = pushAll sink ((keptFades redundant sink fades).map (command .fade)) := by
  induction fades generalizing sink with
  | nil => rfl
  | cons fade fades ih =>
    rw [pushFades, List.foldl_cons, keptFades]
    split
    · exact ih sink
    · exact ih _

theorem keptFades_append (sink : σ) (front back : List (Pair α α)) :
    keptFades redundant sink (front ++ back) =
      keptFades redundant sink front ++ keptFades redundant (pushFades redundant sink front) back := by
  induction front generalizing sink with
  | nil => rfl
  | cons fade front ih =>
    rw [List.cons_append, keptFades, keptFades, pushFades, List.foldl_cons]
    split
    · exact ih sink
    · exact congrArg (fade :: ·) (ih _)

theorem keptFades_sublist (sink : σ) (fades : List (Pair α α)) : (keptFades redundant sink fades).Sublist fades := by
  induction fades generalizing sink with
  | nil => exact List.Sublist.slnil
  | cons fade fades ih =>
    rw [keptFades]
    split
    · exact (ih sink).cons fade
    · exact (ih _).cons_cons fade

theorem keptFades_all (sink : σ) (fades : List (Pair α α)) : keptFades (fun _ _ _ => false) sink fades = fades := by
  induction fades generalizing sink with
  | nil => rfl
  | cons fade fades ih => exact congrArg (fade :: ·) (ih _)

def ahead (e : Emission α) (sink : σ) : σ :=
  pushAll (pushAll (pushAll (pushAll sink (e.moves (Sink.initialPosition sink))) e.scales) e.rotations) e.colors

end Kept

theorem pushAll_script (script : Script α) (commands : List (Command α)) :
    pushAll script commands = { script with commands := script.commands ++ commands } := by
  induction commands generalizing script with
  | nil => simp [pushAll]
  | cons command commands ih =>
    rw [pushAll, List.foldl_cons, ← pushAll, ih]
    simp [Sink.push, push]

theorem runWith_script (redundant : Option α → Option α → Pair α α → Bool) (e : Emission α) (script : Script α) :
    e.runWith redundant script =
      { script with
        commands := script.commands ++ e.moves script.initialPosition ++ e.scales ++ e.rotations ++ e.colors
          ++ (keptFades redundant (e.ahead script) e.fades).map (command .fade)
          ++ flags e.tracks.flipH .flipH ++ flags e.tracks.flipV .flipV ++ flags e.tracks.additive .additive } := by
  rw [runWith, ← ahead, pushFades_kept]
  simp only [pushAll_script, ahead]
  rfl

/-- The commands that an emission appends to a script. -/
def appended (e : Emission α) (script : Script α) : List (Command α) :=
  e.moves script.initialPosition ++ e.scales ++ e.rotations ++ e.colors
    ++ (keptFades showsNothing (e.ahead script) e.fades).map (command .fade)
    ++ flags e.tracks.flipH .flipH ++ flags e.tracks.flipV .flipV ++ flags e.tracks.additive .additive

theorem run_script (e : Emission α) (script : Script α) :
    e.run script = { script with commands := script.commands ++ e.appended script } := by
  rw [run, runWith_script, appended]
  simp only [List.append_assoc]

theorem run_appended (e : Emission α) (script : Script α) :
    (e.run script).commands = script.commands ++ e.appended script := congrArg (·.commands) (run_script e script)

section Read
variable {values? : Change α → Option (W × W)} {change : V → V → Change α}

omit [Scalar α] in
theorem pairsOf_map {widen : V → W} (reads : ∀ a b, values? (change a b) = some (widen a, widen b))
    (pairs : List (Pair α V)) : pairsOf values? (pairs.map (command change)) = pairs.map (Pair.plain widen) := by
  have each : (fun c : Command α => (values? c.change).map c.pair) ∘ command change = some ∘ Pair.plain widen := by
    funext pair
    simp [command, reads, Command.pair, Pair.plain]
  rw [pairsOf, List.filterMap_map, each, List.filterMap_eq_map]

omit [Scalar α] in
theorem pairsOf_map_none (silent : ∀ a b, values? (change a b) = none) (pairs : List (Pair α V)) :
    pairsOf values? (pairs.map (command change)) = [] := by
  rw [pairsOf, List.filterMap_map, List.filterMap_eq_nil_iff]
  intro pair _
  simp [command, silent]

omit [Scalar α] in
theorem pairsOf_flags (channel : Channel α Bool) {change : Change α} (silent : values? change = none) :
    pairsOf values? (flags channel change) = [] := by
  rw [pairsOf, flags, List.filterMap_map, List.filterMap_eq_nil_iff]
  intro span _
  simp [silent]

variable (e : Emission α)

private theorem pairsOf_moves_none (initial : Vec2 α) (both : ∀ a b, values? (.move a b) = none)
    (across : ∀ a b, values? (.moveX a b) = none) (down : ∀ a b, values? (.moveY a b) = none) :
    pairsOf values? (e.moves initial) = [] := by
  unfold moves
  dsimp only
  split
  · exact pairsOf_map_none (fun _ _ => across _ _) _
  · split
    · exact pairsOf_map_none (fun _ _ => down _ _) _
    · exact pairsOf_map_none both _

private theorem pairsOf_scales_none (one : ∀ a b, values? (.scale a b) = none)
    (two : ∀ a b, values? (.scaleVec a b) = none) : pairsOf values? e.scales = [] := by
  unfold scales
  dsimp only
  split
  · exact pairsOf_map_none two _
  · exact pairsOf_map_none (fun _ _ => one _ _) _

/-- Reading commands back shows what the pairs of the channel show, if an edited value survives. -/
theorem replay_commands [BEq V] {values? : Change α → Option (V × V)} {change : V → V → Change α} {widen edit : V → V}
    (reads : ∀ a b, values? (change a b) = some (widen a, widen b)) (fixed : ∀ v, widen (edit v) = edit v) {rest : V}
    (unbounded : e.options.playback rest edit = { rest, edit }) (blend : Blend α V) (c : Channel α V) (time : α) :
    replay blend rest (pairsOf values? (e.commands c rest edit change)) time =
      replay blend rest (c.pairs { rest, edit }) time := by
  have same : ∀ p ∈ c.pairs { rest, edit }, p.plain widen = p.plain id := by
    intro p member
    obtain ⟨⟨v, start⟩, ⟨w, stop⟩⟩ := Channel.pairs_edited member
    rw [Pair.plain, Pair.plain, start, stop, fixed, fixed]
    rfl
  rw [commands, pairsOf_map reads, unbounded, List.map_congr_left same]
  exact replay_map blend rest (Pair.plain id) (fun _ => ⟨rfl, rfl⟩) (fun _ => ⟨rfl, rfl⟩) _ time

end Read

section Properties
variable (redundant : Option α → Option α → Pair α α → Bool) (e : Emission α) {script : Script α}

/-- Flags carry no values. -/
private theorem runWith_pairs (fresh : script.commands = []) {values? : Change α → Option (V × V)}
    (flipH : values? .flipH = none) (flipV : values? .flipV = none) (additive : values? .additive = none) :
    (e.runWith redundant script).pairs values? =
      pairsOf values? (e.moves script.initialPosition) ++ pairsOf values? e.scales ++ pairsOf values? e.rotations
        ++ pairsOf values? e.colors
        ++ pairsOf values? ((keptFades redundant (e.ahead script) e.fades).map (command .fade)) := by
  change pairsOf values? (e.runWith redundant script).commands = _
  rw [runWith_script, fresh]
  simp only [pairsOf_append]
  rw [pairsOf_flags _ flipH, pairsOf_flags _ flipV, pairsOf_flags _ additive]
  simp [pairsOf]

theorem runWith_positions (fresh : script.commands = []) :
    (e.runWith redundant script).pairs (Change.positions? script.initialPosition) =
      pairsOf (Change.positions? script.initialPosition) (e.moves script.initialPosition) := by
  rw [runWith_pairs _ _ fresh rfl rfl rfl, pairsOf_scales_none e (fun _ _ => rfl) fun _ _ => rfl, rotations, colors,
    commands, commands, pairsOf_map_none fun _ _ => rfl, pairsOf_map_none fun _ _ => rfl, pairsOf_map_none fun _ _ => rfl]
  simp

theorem runWith_scales (fresh : script.commands = []) :
    (e.runWith redundant script).pairs Change.scales? = pairsOf Change.scales? e.scales := by
  rw [runWith_pairs _ _ fresh rfl rfl rfl, pairsOf_moves_none e _ (fun _ _ => rfl) (fun _ _ => rfl) fun _ _ => rfl,
    rotations, colors, commands, commands, pairsOf_map_none fun _ _ => rfl, pairsOf_map_none fun _ _ => rfl,
    pairsOf_map_none fun _ _ => rfl]
  simp

theorem runWith_rotations (fresh : script.commands = []) :
    (e.runWith redundant script).pairs Change.rotations? = pairsOf Change.rotations? e.rotations := by
  rw [runWith_pairs _ _ fresh rfl rfl rfl, pairsOf_moves_none e _ (fun _ _ => rfl) (fun _ _ => rfl) fun _ _ => rfl,
    pairsOf_scales_none e (fun _ _ => rfl) fun _ _ => rfl, colors, commands, pairsOf_map_none fun _ _ => rfl,
    pairsOf_map_none fun _ _ => rfl]
  simp

theorem runWith_colors (fresh : script.commands = []) :
    (e.runWith redundant script).pairs Change.colors? = pairsOf Change.colors? e.colors := by
  rw [runWith_pairs _ _ fresh rfl rfl rfl, pairsOf_moves_none e _ (fun _ _ => rfl) (fun _ _ => rfl) fun _ _ => rfl,
    pairsOf_scales_none e (fun _ _ => rfl) fun _ _ => rfl, rotations, commands, pairsOf_map_none fun _ _ => rfl,
    pairsOf_map_none fun _ _ => rfl]
  simp

theorem runWith_opacities (fresh : script.commands = []) :
    (e.runWith redundant script).pairs Change.opacities? =
      (keptFades redundant (e.ahead script) e.fades).map (Pair.plain id) := by
  have faded (kept : List (Pair α α)) : pairsOf Change.opacities? (kept.map (command .fade)) = kept.map (Pair.plain id) :=
    pairsOf_map (fun _ _ => rfl) kept
  rw [runWith_pairs _ _ fresh rfl rfl rfl, pairsOf_moves_none e _ (fun _ _ => rfl) (fun _ _ => rfl) fun _ _ => rfl,
    pairsOf_scales_none e (fun _ _ => rfl) fun _ _ => rfl, rotations, colors, commands, commands,
    pairsOf_map_none fun _ _ => rfl, pairsOf_map_none fun _ _ => rfl, faded]
  rfl

end Properties

end Emission

namespace Compiler
variable {σ : Type} [Sink σ α] (c : Compiler α) (sink : σ) (sizes : String → Option (Vec2 α)) (options : PassOptions α)

/-- What a pass emits if the object is ever visible. -/
def emission : Emission α where
  config := c.config
  tracks := (c.capture sink sizes options.timeOffset).tracks
  bitmapSize := bitmapSize sizes sink
  options

/-- The sink after a pass with a choice of which fades are redundant. -/
def passWith (redundant : Option α → Option α → Pair α α → Bool) : σ :=
  if (c.capture sink sizes options.timeOffset).begun then (c.emission sink sizes options).runWith redundant sink else sink

theorem compile_eq : c.compile sink sizes options =
    ((c.capture sink sizes options.timeOffset).begun, c.passWith sink sizes options Emission.showsNothing,
      { config := c.config }) := by
  unfold compile compileWith passWith
  dsimp only
  split <;> rfl

theorem compile_sink : (c.compile sink sizes options).2.1 = c.passWith sink sizes options Emission.showsNothing :=
  congrArg (·.2.1) (compile_eq c sink sizes options)

def blankScript : Script Float := { texturePath := "", origin := .centre, initialPosition := canvasCenter }

end Compiler
end Tween
