import Tween.Proofs.Capture.Darkness
import Tween.Proofs.Emission.Faithful

/-! The opacity of a single span. The ends that it is given make it come from nothing and go to
nothing, so while the object is visible its fades show it, and the commands last that long. -/

namespace Tween
open Scalar OrderLaws Channel

namespace Capture
variable {config : Config Float} {first last k : Keyframe Float Float} {keyframes : List (Keyframe Float Float)}

private theorem entry_member (member : k ∈ entry config none first) : k = { time := first.time, value := 0.0 } := by
  unfold entry at member
  split at member
  · exact List.mem_singleton.mp member
  · cases member

private theorem exit_member (member : k ∈ exit config last) : k = { time := last.time, value := 0.0 } := by
  unfold exit at member
  split at member
  · exact List.mem_singleton.mp member
  · cases member

/-- What is added at the ends is nothing, at a time that was there before. -/
private theorem enclosed_member (head : keyframes.head? = some first) (ending : keyframes.getLast? = some last)
    (member : k ∈ enclosed config none keyframes) :
    k ∈ keyframes ∨ (k.value = 0.0 ∧ ∃ stored ∈ keyframes, k.time = stored.time) := by
  rw [enclosed_eq head ending] at member
  rcases List.mem_append.mp member with added | member
  · obtain rfl := entry_member added
    exact Or.inr ⟨rfl, first, List.mem_of_mem_head? head, rfl⟩
  · rcases List.mem_append.mp member with stored | added
    · exact Or.inl stored
    · obtain rfl := exit_member added
      exact Or.inr ⟨rfl, last, List.mem_of_mem_getLast? ending, rfl⟩

theorem enclosed_passes {time value : Float} (ending : keyframes.getLast? = some last)
    (passes : Passes keyframes time value) (ahead : ¬last.time ≤ time) :
    Passes (enclosed config none keyframes) time value := by
  obtain ⟨first, second, rest, rfl⟩ := passes.between ending ahead
  rw [enclosed_eq rfl ending]
  refine (passes.before (fun k added => ?_) fun k found => ?_).behind _
  · rw [exit_member added]
    exact ahead
  · exact Option.some.inj (ending.symm.trans found) ▸ ahead

theorem enclosed_unmoved (head : keyframes.head? = some first) (ending : keyframes.getLast? = some last)
    (unmoved : Unmoved keyframes) : Unmoved (enclosed config none keyframes) := by
  have stored {k : Keyframe Float Float} (member : k ∈ enclosed config none keyframes) :
      ∃ k' ∈ keyframes, k.time = k'.time := by
    rcases enclosed_member head ending member with kept | ⟨_, added⟩
    · exact ⟨k, kept, rfl⟩
    · exact added
  intro a start b stop later
  obtain ⟨a', start, starts⟩ := stored start
  obtain ⟨b', stop, stops⟩ := stored stop
  rw [starts, stops] at later ⊢
  exact unmoved a' start b' stop later

variable (valid : config.fault? = none)
include valid

theorem enclosed_finite (head : keyframes.head? = some first) (ending : keyframes.getLast? = some last)
    (finite : ∀ k ∈ keyframes, Float.isFinite (config.roundOpacity k.value) = true) :
    ∀ k ∈ enclosed config none keyframes, Float.isFinite (config.roundOpacity k.value) = true := by
  intro k member
  rcases enclosed_member head ending member with kept | ⟨nothing, _⟩
  · exact finite k kept
  · rw [nothing, Config.roundOpacity_zero valid]
    decide

omit valid in
/-- Each end adds one keyframe to an instant that had one. -/
private theorem enclosed_brief {second : Keyframe Float Float} {rest : List (Keyframe Float Float)}
    (ascending : (first :: second :: rest).Pairwise (·.time < ·.time))
    (ending : (first :: second :: rest).getLast? = some last) :
    Brief (enclosed config none (first :: second :: rest)) := by
  have less : first.time < second.time := (List.pairwise_cons.mp ascending).1 second List.mem_cons_self
  have defined := le_defined (OrderLaws.le_of_lt less)
  have later : last.time ≤ last.time := by
    obtain ⟨front, shape⟩ := List.getLast?_eq_some_iff.mp ending
    have member : last ∈ first :: second :: rest := shape ▸ List.mem_append_right _ List.mem_cons_self
    rcases List.mem_cons.mp member with rfl | behind
    · exact defined.1
    · exact (le_defined (OrderLaws.le_of_lt ((List.pairwise_cons.mp ascending).1 last behind))).2
  have brief := @Brief.enclosed Float Float _ first second { time := last.time, value := 0.0 } rest _ ascending
    fun k found => Option.some.inj (ending.symm.trans found) ▸ later
  rw [enclosed_eq rfl ending, entry, exit]
  split
  · split
    · exact brief.2.cons defined.1 less
    · rw [List.append_nil]
      exact brief.1.cons defined.1 less
  · split
    · exact brief.2
    · rw [List.append_nil]
      exact brief.1

end Capture

namespace Emission.Faithful
open Capture Script
variable {e : Emission Float} {timeOffset : Float} {recorded : List (State Float)} {s last : State Float}

/-- While a recorded state shows something, the edited opacity comes from nothing and goes to nothing around it. -/
theorem seen (faithful : e.Faithful timeOffset recorded) (ending : recorded.getLast? = some last)
    (before : s.time + timeOffset < last.time + timeOffset) (member : s ∈ recorded)
    (visible : ¬e.config.roundOpacity s.opacity ≤ 0.0) :
    Seen (edited e.config.roundOpacity e.tracks.opacity.keyframes) (s.time + timeOffset)
      (e.config.roundOpacity s.opacity) := by
  obtain ⟨kept, sampled, shape⟩ := faithful.opacity
  have passes := sampled.passes s member
  obtain ⟨z, final, finish⟩ := sampled.last_time ending
  have ahead : ¬z.time ≤ s.time + timeOffset := not_le_of_lt (finish ▸ before)
  have rounded : ∀ k ∈ kept, Float.isFinite (e.config.roundOpacity k.value) = true := by
    intro k stored
    obtain ⟨t, present, rfl⟩ := sampled.stored stored
    exact (faithful.moderate t present).opacity
  have values : ∀ k ∈ kept, Float.isFinite k.value = true := by
    intro k stored
    obtain ⟨t, present, rfl⟩ := sampled.stored stored
    exact (faithful.finite t present).opacity
  have short := Config.places_short faithful.valid .opacity
  have strict := faithful.strict
  obtain ⟨first, second, rest, rfl⟩ := passes.between final ahead
  have finite := enclosed_finite faithful.valid rfl final rounded
  refine ⟨faithful.opacities.edited _, ?_, ?_, ?_, visible, ?_, ?_⟩ <;> rw [shape]
  · exact (enclosed_brief (sampled.ascending strict) final).map fun _ => rfl
  · exact (enclosed_unmoved rfl final (sampled.unmoved strict)).edited _
  · refine (enclosed_passes final passes ahead).edited fun k stored w same => ?_
    exact Config.roundOpacity_congr faithful.valid same
  · intro k found
    rw [edited, List.head?_map] at found
    obtain ⟨stored, front, rfl⟩ := Option.map_eq_some_iff.mp found
    obtain ⟨k, found, _, dark⟩ := enclosed_first short rfl final (values first List.mem_cons_self)
    exact Option.some.inj (found.symm.trans front) ▸ dark.nothing
  · obtain ⟨k, found, same, dark⟩ :=
      @enclosed_last e.config none _ _ _ short rfl final (values z (List.mem_of_mem_getLast? final))
    refine ⟨k.withValue (e.config.roundOpacity k.value), ?_, dark.nothing, ?_⟩
    · rw [edited, List.getLast?_map, found]
      rfl
    · have later : s.time + timeOffset < k.time := by
        rw [same, finish]
        exact before
      exact later

section Visible
variable (faithful : e.Faithful timeOffset recorded) (ending : recorded.getLast? = some last)
  (before : s.time + timeOffset < last.time + timeOffset) (member : s ∈ recorded)
  (visible : ¬e.config.roundOpacity s.opacity ≤ 0.0)
include faithful ending before member visible

/-- The fades are all transitions: something is seen and then gone. -/
private theorem fades_moving : ∃ first behind,
    Seen (first :: behind) (s.time + timeOffset) (e.config.roundOpacity s.opacity) ∧
      e.fades = transitions false none first behind := by
  have seen := faithful.seen ending before member visible
  cases shape : edited e.config.roundOpacity e.tracks.opacity.keyframes with
  | nil => exact absurd shape seen.passes.ne_nil
  | cons first behind =>
    rw [shape] at seen
    refine ⟨first, behind, seen, ?_⟩
    rw [fades, faithful.playback, pairs_unbounded shape, if_neg]
    intro still
    obtain ⟨f, found, _⟩ := seen.current Blend.scalar
    rw [List.isEmpty_iff.mp still] at found
    cases found

variable {script : Script Float}

theorem shows_opacity (fresh : script.commands = []) (blend : Blend Float Float) :
    (replay blend.anchored 1.0 ((e.run script).pairs Change.opacities?) (s.time + timeOffset) ==
      e.config.roundOpacity s.opacity) = true := by
  obtain ⟨first, behind, seen, moving⟩ := faithful.fades_moving ending before member visible
  obtain ⟨f, current, _, _, shown⟩ := @Seen.kept _ _ _ _ _ _ _ (e.ahead script) seen blend
  rw [run, runWith_opacities _ _ fresh, moving,
    replay_map _ _ (Pair.plain id) (fun _ => ⟨rfl, rfl⟩) (fun _ => ⟨rfl, rfl⟩), replay_current _ _ current]
  exact shown

theorem lasts : (∃ start ∈ (e.run script).startTime, start ≤ s.time + timeOffset) ∧
    ∃ stop ∈ (e.run script).endTime, s.time + timeOffset ≤ stop := by
  obtain ⟨first, behind, seen, moving⟩ := faithful.fades_moving ending before member visible
  have among {command : Command Float} (faded : command ∈ (pushFades showsNothing (e.ahead script) e.fades).commands) :
      command ∈ (e.run script).commands := by
    have whole : e.run script = pushAll (pushAll (pushAll (pushFades showsNothing (e.ahead script) e.fades)
        (flags e.tracks.flipH .flipH)) (flags e.tracks.flipV .flipV)) (flags e.tracks.additive .additive) := rfl
    rw [whole, pushAll_script, pushAll_script, pushAll_script]
    exact List.mem_append_left _ (List.mem_append_left _ (List.mem_append_left _ faded))
  rw [moving] at among
  constructor
  · obtain ⟨command, faded, early⟩ := @Seen.commands_begin _ _ _ _ _ _ _ (e.ahead script) seen Blend.scalar
    obtain ⟨start, found, earlier⟩ := startTime_le (among faded) (le_defined early).1
    exact ⟨start, found, OrderLaws.le_trans earlier early⟩
  · obtain ⟨command, faded, late⟩ := @Seen.commands_end _ _ _ _ _ _ _ (e.ahead script) seen Blend.scalar
    obtain ⟨stop, found, later⟩ := le_endTime (among faded) (le_defined late).2
    exact ⟨stop, found, OrderLaws.le_trans late later⟩

end Visible

end Emission.Faithful
end Tween
