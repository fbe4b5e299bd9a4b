import Tween.Proofs.Capture.Timeless
import Tween.Proofs.Emission.Pruning
import Tween.Proofs.Emission.Tally

/-! Two passes that differ in how coarse one aspect may be. The coarser one keeps fewer keyframes of
it in every visible span, and never takes more commands. -/

namespace Tween
open Scalar OrderLaws Channel Capture

/-- Settings that differ in one tolerance only, of which the second is coarser. -/
structure Config.Coarser (aspect : Aspect) (fine coarse : Config Float) : Prop where
  valid : fine.fault? = none
  settings : coarse = { fine with tolerance := coarse.tolerance }
  others : ∀ other ≠ aspect, coarse.tolerance.get other = fine.tolerance.get other
  positive : 0.0 < fine.tolerance.get aspect
  ordered : fine.tolerance.get aspect ≤ coarse.tolerance.get aspect

namespace Emission
variable {fine coarse : Config Float} {aspect : Aspect} {timeOffset : Float} {recordings : List (List (State Float))}

private theorem assembled_pruned {V : Type} [BEq V] (coarser : fine.Coarser aspect coarse) (bitmapSize : Vec2 Float)
    (timeOffset : Float) (recordings : List (List (State Float))) (of : Tracks Float → Channel Float V)
    (value : State Float → V) {base : Channel Float V} {deviation : Deviation Float V}
    (thins : ∀ config precedingEnd recorded,
      (of (single config bitmapSize timeOffset precedingEnd recorded)).keyframes =
        thinned base value deviation timeOffset (config.tolerance.get aspect) recorded)
    (joins : ∀ runs, (of (assembled runs)).keyframes = joined (runs.map fun run => (of run).keyframes)) :
    Pruned timeOffset recordings value (of (assembled (runs coarse bitmapSize timeOffset none recordings)))
      (of (assembled (runs fine bitmapSize timeOffset none recordings))) := by
  have stored (config : Config Float) : (of (assembled (runs config bitmapSize timeOffset none recordings))).keyframes =
      joined (recordings.map (thinned base value deviation timeOffset (config.tolerance.get aspect))) :=
    (joins _).trans (congrArg joined (runs_map config bitmapSize timeOffset (thins config) none recordings))
  exact ⟨base, deviation, _, _, coarser.positive, coarser.ordered, stored coarse, stored fine⟩

def ofRecordings (config : Config Float) (bitmapSize : Vec2 Float) (timeOffset : Float)
    (recordings : List (List (State Float))) : Emission Float where
  config
  tracks := assembled (runs config bitmapSize timeOffset none recordings)
  bitmapSize
  options := .unbounded timeOffset

theorem part_fewer (coarser : fine.Coarser aspect coarse) (bitmapSize : Vec2 Float)
    (apart : Apart timeOffset recordings) (initial : Vec2 Float) :
    ((ofRecordings coarse bitmapSize timeOffset recordings).part initial aspect).length ≤
      ((ofRecordings fine bitmapSize timeOffset recordings).part initial aspect).length := by
  have unbounded : (ofRecordings fine bitmapSize timeOffset recordings).options = .unbounded timeOffset := rfl
  rw [ofRecordings, part_settings coarser.settings]
  cases aspect with
  | position =>
    have pruned := assembled_pruned coarser bitmapSize timeOffset recordings (·.position) (·.position)
      (fun _ _ _ => rfl) fun _ => rfl
    exact moves_fewer unbounded coarser.valid apart pruned initial
  | scale =>
    have pruned := assembled_pruned coarser bitmapSize timeOffset recordings (·.scale) (·.scale)
      (fun _ _ _ => rfl) fun _ => rfl
    exact scales_fewer unbounded coarser.valid apart pruned
  | rotation =>
    have pruned := assembled_pruned coarser bitmapSize timeOffset recordings (·.rotation) (·.rotation)
      (fun _ _ _ => rfl) fun _ => rfl
    exact rotations_fewer unbounded coarser.valid apart pruned
  | color =>
    have pruned := assembled_pruned coarser bitmapSize timeOffset recordings (·.color) (·.color)
      (fun _ _ _ => rfl) fun _ => rfl
    exact colors_fewer unbounded coarser.valid apart pruned
  | opacity => exact Nat.zero_le _

end Emission

namespace Compiler
open Emission
variable {c : Compiler Float} {script : Script Float} {sizes : String → Option (Vec2 Float)} {timeOffset : Float}
  {aspect : Aspect} {fine coarse : Config Float}

private theorem visible_same (settings : coarse = { fine with tolerance := coarse.tolerance }) :
    ({ c with config := coarse } : Compiler Float).isVisible script sizes =
      ({ c with config := fine } : Compiler Float).isVisible script sizes := by
  rw [settings]
  rfl

private theorem emission_recordings (filled : c.Filled) (shift : timeOffset.isNaN = false) :
    c.emission script sizes (.unbounded timeOffset) = ofRecordings c.config (bitmapSize sizes script) timeOffset
      (Span.recordings true (Span.ofStates (c.isVisible script sizes) none c.states)) := by
  have laid := (run_assembled c.config (bitmapSize sizes script) (filled.timed shift) (c.isVisible script sizes)).1
  rw [emission, ofRecordings, ← laid]
  rfl

private theorem recordings_apart (filled : c.Filled) (shift : timeOffset.isNaN = false)
    (distinct : c.states.Pairwise fun s t => (s.time + timeOffset == t.time + timeOffset) = false)
    (visible : State Float → Bool) :
    Apart timeOffset (Span.recordings true (Span.ofStates visible none c.states)) := by
  have timed := filled.timed shift
  have within : ∀ recorded ∈ Span.recordings true (Span.ofStates visible none c.states), recorded.Sublist c.states :=
    fun recorded member => (List.sublist_flatten_of_mem member).trans (Span.recorded_sublist c.states)
  refine ⟨recordings_present true _, fun recorded member s inside => ?_, fun recorded member s inside => ?_, ?_⟩
  · exact filled.sorted.1 s ((within recorded member).subset inside)
  · exact timed.defined s ((within recorded member).subset inside)
  · exact fun recorded member => distinct.sublist (within recorded member)

/-- Without a defined offset the settings make no difference; otherwise every span keeps less. -/
private theorem emission_fewer (filled : c.Filled)
    (distinct : c.states.Pairwise fun s t => (s.time + timeOffset == t.time + timeOffset) = false)
    (coarser : fine.Coarser aspect coarse) (initial : Vec2 Float) :
    ((({ c with config := coarse } : Compiler Float).emission script sizes (.unbounded timeOffset)).part initial
        aspect).length ≤
      ((({ c with config := fine } : Compiler Float).emission script sizes (.unbounded timeOffset)).part initial
        aspect).length := by
  cases shift : timeOffset.isNaN with
  | false =>
    have thin := @emission_recordings _ script sizes _ (filled.configure coarse) shift
    have whole := @emission_recordings _ script sizes _ (filled.configure fine) shift
    rw [thin, whole, visible_same coarser.settings]
    exact part_fewer coarser _ (recordings_apart filled shift distinct _) initial
  | true =>
    -- No keyframe has a defined time, so nothing stands out and both passes keep the same.
    have indifferent : Indifferent fine coarse := by
      refine ⟨coarser.settings, fun other => ?_⟩
      by_cases same : other = aspect
      · exact Or.inr (same ▸ ⟨coarser.positive, lt_of_lt_of_le coarser.positive coarser.ordered⟩)
      · exact Or.inl (coarser.others other same).symm
    have undefined : (PassOptions.unbounded timeOffset).timeOffset.isNaN = true := shift
    unfold emission capture
    dsimp only
    rw [visible_same coarser.settings, run_timeless indifferent undefined, part_settings coarser.settings]

private theorem pass_tally (c : Compiler Float) (counted : aspect ≠ .opacity) :
    ∃ appended, (c.compile script sizes (.unbounded timeOffset)).2.1.commands = script.commands ++ appended ∧
      tally aspect appended = if (c.capture script sizes timeOffset).begun then
        ((c.emission script sizes (.unbounded timeOffset)).part script.initialPosition aspect).length else 0 := by
  have passed : (c.compile script sizes (.unbounded timeOffset)).2.1 = if (c.capture script sizes timeOffset).begun then
      (c.emission script sizes (.unbounded timeOffset)).run script else script := compile_sink ..
  rw [passed]
  cases (c.capture script sizes timeOffset).begun with
  | false => exact ⟨[], (List.append_nil _).symm, rfl⟩
  | true => exact tally_run _ counted script

/-- Raising the tolerance of one aspect other than opacity never makes a pass append more commands for
it, however many visible spans there are and whatever kinds of commands they need. -/
theorem coarser_no_more (c : Compiler Float) (filled : c.Filled) {aspect : Aspect} (counted : aspect ≠ .opacity)
    {fine coarse : Config Float} (coarser : fine.Coarser aspect coarse) (script : Script Float)
    (sizes : String → Option (Vec2 Float)) (timeOffset : Float)
    (distinct : c.states.Pairwise fun s t => (s.time + timeOffset == t.time + timeOffset) = false) :
    let pass (config : Config Float) : Script Float :=
      (({ c with config } : Compiler Float).compile script sizes (.unbounded timeOffset)).2.1
    ∃ few many, (pass coarse).commands = script.commands ++ few ∧ (pass fine).commands = script.commands ++ many ∧
      tally aspect few ≤ tally aspect many := by
  have begun : (({ c with config := coarse } : Compiler Float).capture script sizes timeOffset).begun =
      (({ c with config := fine } : Compiler Float).capture script sizes timeOffset).begun := by
    rw [capture, capture, (run_eq c.states).2, (run_eq c.states).2, visible_same coarser.settings]
  intro pass
  obtain ⟨few, thin, fewer⟩ := @pass_tally script sizes timeOffset aspect { c with config := coarse } counted
  obtain ⟨many, whole, more⟩ := @pass_tally script sizes timeOffset aspect { c with config := fine } counted
  refine ⟨few, many, thin, whole, ?_⟩
  rw [fewer, more, begun]
  split
  · exact emission_fewer filled distinct coarser _
  · exact Nat.le_refl _

def stroll : Compiler Float where
  config := .standard
  states := [(0.0, 0.0), (1.0, 3.0), (2.0, 0.0)].map fun (time, aside) =>
    { State.neutral time with position := ⟨100.0 + 50.0 * time, 200.0 + aside⟩ }

def lenient (config : Config Float) : Config Float :=
  { config with tolerance := { config.tolerance with position := 10.0 } }

private theorem lenient_others (config : Config Float) :
    ∀ other ≠ Aspect.position, (lenient config).tolerance.get other = config.tolerance.get other := by
  intro other different
  cases other with
  | position => exact absurd rfl different
  | scale | rotation | color | opacity => rfl

theorem coarser_no_more_stroll : stroll.Filled ∧ Config.Coarser .position .standard (lenient .standard) ∧
    let pass (config : Config Float) : Script Float :=
      (({ config, states := stroll.states } : Compiler Float).compile blankScript (fun _ => none) (.unbounded 0.5)).2.1
    ∃ few many, (pass (lenient .standard)).commands = blankScript.commands ++ few ∧
      (pass .standard).commands = blankScript.commands ++ many ∧ tally .position few ≤ tally .position many := by
  have filled : stroll.Filled := Filled.of_sorted _ (by decide +kernel) (by decide +kernel)
  have coarser : Config.Coarser .position .standard (lenient .standard) :=
    ⟨by decide +kernel, rfl, lenient_others _, by decide +kernel, by decide +kernel⟩
  have fewer := coarser_no_more stroll filled (by decide) coarser blankScript (fun _ => none) 0.5 (by decide +kernel)
  exact ⟨filled, coarser, fewer⟩

/-- One move is left of two. -/
example :
    let pass (config : Config Float) : Script Float :=
      (({ config, states := stroll.states } : Compiler Float).compile blankScript (fun _ => none) (.unbounded 0.5)).2.1
    tally .position (pass .standard).commands = 2 ∧ tally .position (pass (lenient .standard)).commands = 1 := by
  decide +kernel

end Compiler
end Tween
