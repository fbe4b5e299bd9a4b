import Tween.Proofs.Binary64.Progress
import Tween.Proofs.Binary64.Rounding
import Tween.Proofs.Capture.Layout
import Tween.Proofs.Channel.Sampling

/-! Outside of the visible spans the opacity shows nothing. Every span ends in a value that rounds
to nothing and the hold marker of the next one keeps that value, but it is sampled like any other
way: where the time since the span ended overflows, the sample is undefined. -/

namespace Tween
open Scalar OrderLaws

namespace Capture
open Channel
variable {config : Config Float} {precedingEnd : Option Float} {first last : Keyframe Float Float}
  {keyframes : List (Keyframe Float Float)}

theorem enclosed_eq (head : keyframes.head? = some first) (ending : keyframes.getLast? = some last) :
    enclosed config precedingEnd keyframes = entry config precedingEnd first ++ (keyframes ++ exit config last) := by
  rw [enclosed, head, ending, ← List.append_assoc]

/-- A keyframe whose value shows nothing. -/
structure Dark (config : Config Float) (k : Keyframe Float Float) : Prop where
  finite : k.value.isFinite = true
  nothing : config.roundOpacity k.value ≤ 0.0

section Ends
variable (short : config.places.opacity ≤ Config.maxPlaces)
include short

private theorem dark_zero (time : Float) : Dark config { time, value := 0.0 } := by
  refine ⟨show Float.isFinite 0.0 = true by decide, ?_⟩
  have rounded : config.roundOpacity 0.0 = 0.0 := (Binary64.roundPlaces_zero short).1
  rw [rounded]
  decide

private theorem dark_faint {k : Keyframe Float Float} (finite : k.value.isFinite = true)
    (faint : ¬0.0 < config.roundOpacity k.value) : Dark config k := by
  have defined : (config.roundOpacity k.value).isNaN = false :=
    Binary64.roundPlaces_defined short (Binary64.defined_of_finite finite)
  exact ⟨finite, le_of_not_lt (show (0.0 : Float) ≤ 0.0 by decide) (ge_of_beq (Binary64.beq_defined defined)) faint⟩

omit short in
theorem enclosed_start (head : keyframes.head? = some first) (ending : keyframes.getLast? = some last) :
    ∃ k, (enclosed config precedingEnd keyframes).head? = some k ∧ k.time = first.time := by
  rw [enclosed_eq head ending, entry]
  split
  · exact ⟨_, rfl, rfl⟩
  · refine ⟨first, ?_, rfl⟩
    rw [List.nil_append, List.head?_append, head]
    rfl

/-- The first span comes from nothing. -/
theorem enclosed_first (head : keyframes.head? = some first) (ending : keyframes.getLast? = some last)
    (finite : first.value.isFinite = true) :
    ∃ k, (enclosed config none keyframes).head? = some k ∧ k.time = first.time ∧ Dark config k := by
  rw [enclosed_eq head ending, entry]
  split
  next => exact ⟨_, rfl, rfl, dark_zero short _⟩
  next seen =>
    refine ⟨first, ?_, rfl, dark_faint short finite fun clear => seen ⟨clear, rfl⟩⟩
    rw [List.nil_append, List.head?_append, head]
    rfl

/-- Every span goes to nothing. -/
theorem enclosed_last (head : keyframes.head? = some first) (ending : keyframes.getLast? = some last)
    (finite : last.value.isFinite = true) :
    ∃ k, (enclosed config precedingEnd keyframes).getLast? = some k ∧ k.time = last.time ∧ Dark config k := by
  rw [enclosed_eq head ending, exit]
  split
  next =>
    refine ⟨{ time := last.time, value := 0.0 }, ?_, rfl, dark_zero short last.time⟩
    rw [← List.append_assoc, List.getLast?_concat]
  next faint =>
    refine ⟨last, ?_, rfl, dark_faint short finite faint⟩
    rw [List.append_nil, List.getLast?_append, ending]
    rfl

end Ends

/-! A span on its own keeps the ends of what was recorded, whatever is simplified away between. -/

section Single
variable {bitmapSize : Vec2 Float} {timeOffset : Float} {recorded : List (State Float)} {s : State Float}

private def faint (timeOffset : Float) (s : State Float) : Keyframe Float Float :=
  { time := s.time + timeOffset, value := s.opacity }

private theorem thin_trimmed : Trimmed (simplified config bitmapSize (.recording timeOffset recorded)).opacity.keyframes
    (recorded.map (faint timeOffset)) := simplify_trimmed _ _ _

private theorem thin_first (head : recorded.head? = some s) :
    (simplified config bitmapSize (.recording timeOffset recorded)).opacity.keyframes.head? =
      some (faint timeOffset s) := by
  rw [thin_trimmed.head, List.head?_map, head]
  rfl

private theorem thin_last (ending : recorded.getLast? = some s) :
    (simplified config bitmapSize (.recording timeOffset recorded)).opacity.keyframes.getLast? =
      some (faint timeOffset s) := by
  rw [thin_trimmed.last, List.getLast?_map, ending]
  rfl

theorem single_start (head : recorded.head? = some s) :
    ∃ k, (single config bitmapSize timeOffset precedingEnd recorded).opacity.keyframes.head? = some k ∧
      k.time = s.time + timeOffset := by
  obtain ⟨rest, rfl⟩ := List.head?_eq_some_iff.mp head
  exact enclosed_start (thin_first rfl) (thin_last (List.getLast?_eq_some_getLast (List.cons_ne_nil s rest)))

variable (finite : ∀ s ∈ recorded, s.Finite) (short : config.places.opacity ≤ Config.maxPlaces)
include finite short

theorem single_first (head : recorded.head? = some s) :
    ∃ k, (single config bitmapSize timeOffset none recorded).opacity.keyframes.head? = some k ∧
      k.time = s.time + timeOffset ∧ Dark config k := by
  have opacity := (finite s (List.mem_of_mem_head? head)).opacity
  obtain ⟨rest, rfl⟩ := List.head?_eq_some_iff.mp head
  exact enclosed_first short (thin_first rfl) (thin_last (List.getLast?_eq_some_getLast (List.cons_ne_nil s rest)))
    opacity

theorem single_last (ending : recorded.getLast? = some s) :
    ∃ k, (single config bitmapSize timeOffset precedingEnd recorded).opacity.keyframes.getLast? = some k ∧
      k.time = s.time + timeOffset ∧ Dark config k := by
  have member := List.mem_of_mem_getLast? ending
  have head := List.head?_eq_some_head (List.ne_nil_of_mem member)
  exact enclosed_last short (thin_first head) (thin_last ending) (finite s member).opacity

end Single

private theorem runs_append (config : Config Float) (bitmapSize : Vec2 Float) (timeOffset : Float)
    (precedingEnd : Option Float) (front back : List (List (State Float))) :
    ∃ next, runs config bitmapSize timeOffset precedingEnd (front ++ back) =
      runs config bitmapSize timeOffset precedingEnd front ++ runs config bitmapSize timeOffset next back := by
  induction front generalizing precedingEnd with
  | nil => exact ⟨precedingEnd, rfl⟩
  | cons recorded front ih =>
    obtain ⟨next, behind⟩ := ih (single config bitmapSize timeOffset precedingEnd recorded).opacity.endTime
    exact ⟨next, congrArg (single config bitmapSize timeOffset precedingEnd recorded :: ·) behind⟩

/-- The opacity of all spans. -/
private def opacities (config : Config Float) (bitmapSize : Vec2 Float) (timeOffset : Float)
    (recordings : List (List (State Float))) : List (Keyframe Float Float) :=
  joined ((runs config bitmapSize timeOffset none recordings).map (·.opacity.keyframes))

section Joined
variable {bitmapSize : Vec2 Float} {timeOffset time : Float} {recorded next : List (State Float)}
  {front back : List (List (State Float))} {s s' : State Float}
  (finite : ∀ s ∈ recorded, s.Finite) (short : config.places.opacity ≤ Config.maxPlaces)
include finite short

private theorem opacities_first (head : recorded.head? = some s) :
    ∃ k, (opacities config bitmapSize timeOffset (recorded :: back)).head? = some k ∧ k.time = s.time + timeOffset ∧
      Dark config k := by
  obtain ⟨k, found, same, dark⟩ := @single_first config bitmapSize timeOffset _ _ finite short head
  refine ⟨k, ?_, same, dark⟩
  rw [opacities, runs, List.map_cons, joined_head (List.ne_nil_of_mem (List.mem_of_mem_head? found)), found]

private theorem opacities_last (ending : recorded.getLast? = some s) :
    ∃ k, (opacities config bitmapSize timeOffset (front ++ [recorded])).getLast? = some k ∧
      k.time = s.time + timeOffset ∧ Dark config k := by
  obtain ⟨precedingEnd, split⟩ := runs_append config bitmapSize timeOffset none front [recorded]
  obtain ⟨k, found, same, dark⟩ := @single_last config precedingEnd bitmapSize timeOffset _ _ finite short ending
  refine ⟨k, ?_, same, dark⟩
  rw [opacities, split, List.map_append]
  exact (joined_last _ (List.ne_nil_of_mem (List.mem_of_mem_getLast? found))).trans found

/-- Where the next span begins, a marker keeps the value with which the one before ended. -/
private theorem opacities_gap (ending : recorded.getLast? = some s) (head : next.head? = some s') :
    ∃ before after k, opacities config bitmapSize timeOffset (front ++ recorded :: next :: back) = before ++ after ∧
      before.getLast? = some k ∧ k.time = s.time + timeOffset ∧ Dark config k ∧
      after.head? = some { time := s'.time + timeOffset, value := k.value, hold := true } := by
  obtain ⟨precedingEnd, split⟩ := runs_append config bitmapSize timeOffset none front (recorded :: next :: back)
  obtain ⟨k, found, same, dark⟩ := @single_last config precedingEnd bitmapSize timeOffset _ _ finite short ending
  obtain ⟨k', found', same'⟩ := @single_start config
    (single config bitmapSize timeOffset precedingEnd recorded).opacity.endTime bitmapSize timeOffset _ _ head
  have parts : opacities config bitmapSize timeOffset (front ++ recorded :: next :: back) =
      joined ((runs config bitmapSize timeOffset none front ++
        runs config bitmapSize timeOffset precedingEnd (recorded :: next :: back)).map (·.opacity.keyframes)) := by
    rw [opacities, split]
  simp only [List.map_append, runs, List.map_cons] at parts
  rw [joined_split, List.append_assoc] at parts
  refine ⟨_, _, k, parts, ?_, same, dark, ?_⟩
  · exact (joined_last _ (List.ne_nil_of_mem (List.mem_of_mem_getLast? found))).trans found
  · rw [List.head?_append, marker, found, found', ← same']
    rfl

end Joined

/-- Nothing is seen of the opacity at the time. -/
def Unseen (config : Config Float) (opacity : Channel Float Float) (time : Float) : Prop :=
  ∃ value, opacity.sample time = .ok value ∧ config.roundOpacity value ≤ 0.0

section Unseen
variable {opacity : Channel Float Float} (blended : opacity.blend = some Blend.scalar) {time : Float}
include blended

private theorem sample_scalar : opacity.sample time = .ok (opacity.sampleWith Blend.scalar time) := by
  rw [sample, blended]

private theorem Dark.unseen {k : Keyframe Float Float} (dark : Dark config k)
    (shown : opacity.sampleWith Blend.scalar time = k.value) : Unseen config opacity time :=
  ⟨_, sample_scalar blended, shown ▸ dark.nothing⟩

/-- Up to a marker that keeps nothing, nothing is seen as long as the way behind is finite. -/
private theorem Dark.unseen_iff {k : Keyframe Float Float} (dark : Dark config k)
    (short : config.places.opacity ≤ Config.maxPlaces) (ordered : Ordered opacity.keyframes)
    {before after : List (Keyframe Float Float)} (parts : opacity.keyframes = before ++ after)
    (stop : before.getLast? = some k) {next : Float}
    (held : after.head? = some { time := next, value := k.value, hold := true }) (begun : k.time ≤ time)
    (ahead : time < next) : Unseen config opacity time ↔ (time - k.time).isFinite = true := by
  have shown : opacity.sampleWith Blend.scalar time =
      k.value + (k.value - k.value) * ((time - k.time) / (next - k.time)) := by
    rw [sampleWith_within ordered Blend.scalar parts stop held begun ahead]
    exact if_neg fun same => not_le_of_lt (lt_of_le_of_lt begun ahead) (le_of_beq same)
  constructor
  · rintro ⟨value, found, nothing⟩
    obtain rfl := Except.ok.inj ((sample_scalar blended).symm.trans found)
    by_contra far
    have lost := Binary64.between_undefined k.value begun ahead (Bool.eq_false_iff.mpr far)
    rw [← shown] at lost
    have undefined : (config.roundOpacity _).isNaN = true := Binary64.roundPlaces_undefined config.places.opacity lost
    rw [(Binary64.le_iff.mp nothing).1] at undefined
    cases undefined
  · intro near
    have kept := Binary64.between_equal dark.finite begun ahead near
    refine ⟨_, sample_scalar blended, ?_⟩
    rw [shown]
    exact le_trans (ge_of_beq (Binary64.roundPlaces_congr short kept)) dark.nothing

end Unseen

/-- Before the first span, from the end of the last one and between two spans the opacity shows
nothing, in a gap as long as the time since the span before it ended is finite. -/
theorem unseen_outside (c : Compiler Float) (filled : c.Filled) (config : Config Float)
    (short : config.places.opacity ≤ Config.maxPlaces) (bitmapSize : Vec2 Float) (timeOffset : Float)
    (shift : timeOffset.isFinite = true) (visible : State Float → Bool) :
    let recordings := Span.recordings true (Span.ofStates visible none c.states)
    let opacity := (run config bitmapSize timeOffset visible c.states).tracks.opacity
    (∀ recorded ∈ recordings.head?, ∀ first ∈ recorded.head?, ∀ time, time < first.time + timeOffset →
      Unseen config opacity time) ∧
    (∀ recorded ∈ recordings.getLast?, ∀ last ∈ recorded.getLast?, ∀ time, last.time + timeOffset ≤ time →
      Unseen config opacity time) ∧
    ∀ front recorded next back, recordings = front ++ recorded :: next :: back →
      ∀ last ∈ recorded.getLast?, ∀ first ∈ next.head?, ∀ time, last.time + timeOffset ≤ time →
        time < first.time + timeOffset →
          (Unseen config opacity time ↔ (time - (last.time + timeOffset)).isFinite = true) := by
  intro recordings opacity
  have timed := filled.timed (Binary64.defined_of_finite shift)
  have finite : ∀ recorded ∈ recordings, ∀ s ∈ recorded, s.Finite := fun recorded within s member =>
    filled.sorted.1 s ((Span.recorded_sublist c.states).subset (List.mem_flatten_of_mem within member))
  obtain ⟨laid, order⟩ := run_assembled config bitmapSize timed visible
  have ordered : Ordered opacity.keyframes := order.opacity
  have blended : opacity.blend = some Blend.scalar := congrArg (·.opacity.blend) laid
  have shape : opacity.keyframes = opacities config bitmapSize timeOffset recordings :=
    congrArg (·.opacity.keyframes) laid
  refine ⟨?_, ?_, ?_⟩
  · intro recorded found first head time early
    obtain ⟨back, split⟩ := List.head?_eq_some_iff.mp found
    obtain ⟨k, start, same, dark⟩ := @opacities_first config bitmapSize timeOffset recorded back first
      (finite recorded (List.mem_of_mem_head? found)) short head
    rw [← split, ← shape] at start
    exact dark.unseen blended (sampleWith_before ordered _ start (same ▸ early))
  · intro recorded found last ending time late
    obtain ⟨front, split⟩ := List.getLast?_eq_some_iff.mp found
    obtain ⟨k, stop, same, dark⟩ := @opacities_last config bitmapSize timeOffset recorded front last
      (finite recorded (List.mem_of_mem_getLast? found)) short ending
    rw [← split, ← shape] at stop
    exact dark.unseen blended (sampleWith_behind ordered _ stop (same ▸ late))
  · intro front recorded next back split last ending first head time begun ahead
    have within : recorded ∈ recordings := split ▸ List.mem_append_right _ List.mem_cons_self
    obtain ⟨_, _, k, parts, stop, same, dark, held⟩ := @opacities_gap config bitmapSize timeOffset recorded next
      front back last first (finite recorded within) short ending head
    rw [← split, ← shape] at parts
    rw [← same] at begun ⊢
    exact dark.unseen_iff blended short ordered parts stop held begun ahead

/-- At the centre of the canvas. -/
def centred (time opacity : Float) : State Float := { State.neutral time with position := canvasCenter, opacity }

/-- Seen at both ends of time, and not between. -/
def farApart : Compiler Float where
  config := .standard
  states := [centred (-1.7e308) 1.0, centred (-1.6e308) 0.0, centred 1.7e308 1.0]

def drawn (s : State Float) : Bool := s.isVisible ⟨1.0, 1.0⟩ .centre farApart.config

private theorem farApart_recordings : Span.recordings true (Span.ofStates drawn none farApart.states) =
      [[centred (-1.7e308) 1.0, centred (-1.6e308) 0.0], [centred 1.7e308 1.0]] := by
  have shown : farApart.states.map drawn = [true, false, true] := by decide +kernel
  simp only [farApart, List.map_cons, List.map_nil, List.cons.injEq, and_true] at shown
  obtain ⟨first, second, third⟩ := shown
  simp [farApart, Span.ofStates, Span.recordings, Span.recorded, Span.seen, first, second, third]

theorem unseen_outside_farApart : farApart.Filled ∧
    Unseen farApart.config (run farApart.config ⟨1.0, 1.0⟩ 0.0 drawn farApart.states).tracks.opacity 0.0 := by
  have filled : farApart.Filled := Compiler.Filled.of_sorted _ (by decide +kernel) (by decide +kernel)
  have gap := (unseen_outside farApart filled farApart.config (by decide) ⟨1.0, 1.0⟩ 0.0 (by decide) drawn).2.2
  have unseen := gap [] _ _ [] farApart_recordings (centred (-1.6e308) 0.0) rfl (centred 1.7e308 1.0) rfl 0.0
    (by decide +kernel) (by decide +kernel)
  have near : ((0.0 : Float) - ((centred (-1.6e308) 0.0).time + 0.0)).isFinite = true := by decide +kernel
  exact ⟨filled, unseen.mpr near⟩

/-- In this gap the opacity is lost after a while, and an undefined opacity is not nothing. -/
theorem farApart_lost :
    Span.recordings true (Span.ofStates drawn none farApart.states) =
        [[centred (-1.7e308) 1.0, centred (-1.6e308) 0.0], [centred 1.7e308 1.0]] ∧
      (centred (-1.6e308) 0.0).time + 0.0 ≤ 1.0e308 ∧ 1.0e308 < (centred 1.7e308 1.0).time + 0.0 ∧
      ¬Unseen farApart.config (run farApart.config ⟨1.0, 1.0⟩ 0.0 drawn farApart.states).tracks.opacity 1.0e308 := by
  refine ⟨farApart_recordings, by decide +kernel, by decide +kernel, ?_⟩
  rintro ⟨value, found, nothing⟩
  have lost : ((run farApart.config ⟨1.0, 1.0⟩ 0.0 drawn farApart.states).tracks.opacity.sample 1.0e308).toOption.all
      (fun v => !decide (farApart.config.roundOpacity v ≤ 0.0)) = true := by
    decide +kernel
  rw [found] at lost
  simp [Except.toOption, nothing] at lost

end Capture
end Tween
