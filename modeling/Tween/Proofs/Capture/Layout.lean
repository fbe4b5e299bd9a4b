import Tween.Proofs.Capture.Spans
import Tween.Proofs.Channel.Joining
import Tween.Proofs.Compiler.Buffer

/-! What emission receives: the runs of all visible spans laid behind each other. Every insertion
on the way there searches for a place, and with states in time order the place is always the end,
also when spans meet at one instant. -/

namespace Tween
variable {α : Type}

namespace Tracks

structure Each (holds : ∀ {V : Type}, Channel α V → Prop) (tracks : Tracks α) : Prop where
  position : holds tracks.position
  scale : holds tracks.scale
  rotation : holds tracks.rotation
  color : holds tracks.color
  opacity : holds tracks.opacity
  flipH : holds tracks.flipH
  flipV : holds tracks.flipV
  additive : holds tracks.additive

def combine (f : ∀ {V : Type}, Channel α V → Channel α V → Channel α V) (first second : Tracks α) : Tracks α where
  position := f first.position second.position
  scale := f first.scale second.scale
  rotation := f first.rotation second.rotation
  color := f first.color second.color
  opacity := f first.opacity second.opacity
  flipH := f first.flipH second.flipH
  flipV := f first.flipV second.flipV
  additive := f first.additive second.additive

theorem Each.imp {holds implied : ∀ {V : Type}, Channel α V → Prop} {tracks : Tracks α} (each : tracks.Each holds)
    (implies : ∀ {V : Type} (c : Channel α V), holds c → implied c) : tracks.Each implied :=
  ⟨implies _ each.position, implies _ each.scale, implies _ each.rotation, implies _ each.color,
    implies _ each.opacity, implies _ each.flipH, implies _ each.flipV, implies _ each.additive⟩

theorem Each.combine {left right holds : ∀ {V : Type}, Channel α V → Prop} {first second : Tracks α}
    {f : ∀ {V : Type}, Channel α V → Channel α V → Channel α V} (firsts : first.Each left) (seconds : second.Each right)
    (implies : ∀ {V : Type} (c d : Channel α V), left c → right d → holds (f c d)) : (first.combine f second).Each holds :=
  ⟨implies _ _ firsts.position seconds.position, implies _ _ firsts.scale seconds.scale,
    implies _ _ firsts.rotation seconds.rotation, implies _ _ firsts.color seconds.color,
    implies _ _ firsts.opacity seconds.opacity, implies _ _ firsts.flipH seconds.flipH,
    implies _ _ firsts.flipV seconds.flipV, implies _ _ firsts.additive seconds.additive⟩

theorem Each.and {left right : ∀ {V : Type}, Channel α V → Prop} {tracks : Tracks α} (first : tracks.Each left)
    (second : tracks.Each right) : tracks.Each fun c => left c ∧ right c :=
  ⟨⟨first.position, second.position⟩, ⟨first.scale, second.scale⟩, ⟨first.rotation, second.rotation⟩,
    ⟨first.color, second.color⟩, ⟨first.opacity, second.opacity⟩, ⟨first.flipH, second.flipH⟩,
    ⟨first.flipV, second.flipV⟩, ⟨first.additive, second.additive⟩⟩

theorem foldl_combine (f : ∀ {V : Type}, Channel α V → Channel α V → Channel α V) (runs : List (Tracks α))
    (tracks : Tracks α) :
    runs.foldl (combine f) tracks =
      { position := (runs.map (·.position)).foldl f tracks.position
        scale := (runs.map (·.scale)).foldl f tracks.scale
        rotation := (runs.map (·.rotation)).foldl f tracks.rotation
        color := (runs.map (·.color)).foldl f tracks.color
        opacity := (runs.map (·.opacity)).foldl f tracks.opacity
        flipH := (runs.map (·.flipH)).foldl f tracks.flipH
        flipV := (runs.map (·.flipV)).foldl f tracks.flipV
        additive := (runs.map (·.additive)).foldl f tracks.additive } := by
  induction runs generalizing tracks with
  | nil => rfl
  | cons run runs ih => exact ih _

variable [Scalar α]

def recording (timeOffset : α) (states : List (State α)) : Tracks α where
  position := { empty.position with keyframes := states.map fun s => { time := s.time + timeOffset, value := s.position } }
  scale := { empty.scale with keyframes := states.map fun s => { time := s.time + timeOffset, value := s.scale } }
  rotation := { empty.rotation with keyframes := states.map fun s => { time := s.time + timeOffset, value := s.rotation } }
  color := { empty.color with keyframes := states.map fun s => { time := s.time + timeOffset, value := s.color } }
  opacity := { empty.opacity with keyframes := states.map fun s => { time := s.time + timeOffset, value := s.opacity } }
  flipH := { empty.flipH with keyframes := states.map fun s => { time := s.time + timeOffset, value := s.flipH } }
  flipV := { empty.flipV with keyframes := states.map fun s => { time := s.time + timeOffset, value := s.flipV } }
  additive := { empty.additive with keyframes := states.map fun s => { time := s.time + timeOffset, value := s.additive } }

private theorem recordAll_channels (timeOffset : α) (states : List (State α)) (tracks : Tracks α) :
    tracks.recordAll timeOffset states =
      { position := states.foldl (fun c s => c.add (s.time + timeOffset) s.position) tracks.position
        scale := states.foldl (fun c s => c.add (s.time + timeOffset) s.scale) tracks.scale
        rotation := states.foldl (fun c s => c.add (s.time + timeOffset) s.rotation) tracks.rotation
        color := states.foldl (fun c s => c.add (s.time + timeOffset) s.color) tracks.color
        opacity := states.foldl (fun c s => c.add (s.time + timeOffset) s.opacity) tracks.opacity
        flipH := states.foldl (fun c s => c.add (s.time + timeOffset) s.flipH) tracks.flipH
        flipV := states.foldl (fun c s => c.add (s.time + timeOffset) s.flipV) tracks.flipV
        additive := states.foldl (fun c s => c.add (s.time + timeOffset) s.additive) tracks.additive } := by
  induction states generalizing tracks with
  | nil => rfl
  | cons state states ih => exact ih _

end Tracks

namespace Capture
variable [Scalar α]

/-- From nothing at the start of a run that is seen at once, unless the run before ended there. -/
def entry (config : Config α) (precedingEnd : Option α) (first : Keyframe α α) : List (Keyframe α α) :=
  if 0.0 < config.roundOpacity first.value ∧ (precedingEnd == some first.time) = false
  then [{ time := first.time, value := 0.0 }] else []

/-- To nothing at the end of a run that is seen to the last. -/
def exit (config : Config α) (last : Keyframe α α) : List (Keyframe α α) :=
  if 0.0 < config.roundOpacity last.value then [{ time := last.time, value := 0.0 }] else []

def enclosed (config : Config α) (precedingEnd : Option α) (keyframes : List (Keyframe α α)) : List (Keyframe α α) :=
  match keyframes.head?, keyframes.getLast? with
  | some first, some last => entry config precedingEnd first ++ keyframes ++ exit config last
  | _, _ => keyframes

/-- The tracks of one span on their own: the recorded states simplified, the opacity enclosed. -/
def single (config : Config α) (bitmapSize : Vec2 α) (timeOffset : α) (precedingEnd : Option α)
    (recorded : List (State α)) : Tracks α :=
  let thin := simplified config bitmapSize (.recording timeOffset recorded)
  { thin with opacity := { thin.opacity with keyframes := enclosed config precedingEnd thin.opacity.keyframes } }

/-- The tracks of all spans, each on its own. -/
def runs (config : Config α) (bitmapSize : Vec2 α) (timeOffset : α) (precedingEnd : Option α) :
    List (List (State α)) → List (Tracks α)
  | [] => []
  | recorded :: recordings =>
    let run := single config bitmapSize timeOffset precedingEnd recorded
    run :: runs config bitmapSize timeOffset run.opacity.endTime recordings

/-- Runs behind each other in all channels. -/
def assembled (runs : List (Tracks α)) : Tracks α where
  position := { Tracks.empty.position with keyframes := Channel.joined (runs.map (·.position.keyframes)) }
  scale := { Tracks.empty.scale with keyframes := Channel.joined (runs.map (·.scale.keyframes)) }
  rotation := { Tracks.empty.rotation with keyframes := Channel.joined (runs.map (·.rotation.keyframes)) }
  color := { Tracks.empty.color with keyframes := Channel.joined (runs.map (·.color.keyframes)) }
  opacity := { Tracks.empty.opacity with keyframes := Channel.joined (runs.map (·.opacity.keyframes)) }
  flipH := { Tracks.empty.flipH with keyframes := Channel.joined (runs.map (·.flipH.keyframes)) }
  flipV := { Tracks.empty.flipV with keyframes := Channel.joined (runs.map (·.flipV.keyframes)) }
  additive := { Tracks.empty.additive with keyframes := Channel.joined (runs.map (·.additive.keyframes)) }

private theorem assembled_eq {runs : List (Tracks α)} (present : ∀ run ∈ runs, run.Each (·.keyframes ≠ [])) :
    runs.foldl (Tracks.combine Channel.extended) .empty = assembled runs := by
  have channel {V : Type} (of : Tracks α → Channel α V) (present : ∀ run ∈ runs, (of run).keyframes ≠ [])
      (blend : Option (Blend α V)) (rest : V) :
      (runs.map of).foldl Channel.extended { blend, rest } =
        { keyframes := Channel.joined (runs.map fun run => (of run).keyframes), blend, rest } := by
    rw [Channel.foldl_extended, List.map_map]
    · rfl
    · simpa using present
  rw [Tracks.foldl_combine, assembled]
  simp only [Tracks.empty, Channel.withBlend]
  rw [channel (·.position) fun run member => (present run member).position,
    channel (·.scale) fun run member => (present run member).scale,
    channel (·.rotation) fun run member => (present run member).rotation,
    channel (·.color) fun run member => (present run member).color,
    channel (·.opacity) fun run member => (present run member).opacity,
    channel (·.flipH) fun run member => (present run member).flipH,
    channel (·.flipV) fun run member => (present run member).flipV,
    channel (·.additive) fun run member => (present run member).additive]

section Order
open Scalar OrderLaws Channel
variable [OrderLaws α] (config : Config α) (bitmapSize : Vec2 α) {timeOffset : α}

/-- The times of the states, moved by the offset, are defined and never go back. -/
structure Timed (timeOffset : α) (states : List (State α)) : Prop where
  defined : ∀ s ∈ states, s.time + timeOffset ≤ s.time + timeOffset
  ordered : states.Pairwise fun s t => s.time + timeOffset ≤ t.time + timeOffset

omit [OrderLaws α] in
theorem Timed.sublist {states more : List (State α)} (timed : Timed timeOffset more) (fewer : states.Sublist more) :
    Timed timeOffset states :=
  ⟨fun s member => timed.defined s (fewer.subset member), timed.ordered.sublist fewer⟩

private theorem foldl_add {V : Type} (value : State α → V) {states : List (State α)} (timed : Timed timeOffset states)
    {c : Channel α V} (empty : c.keyframes = []) :
    states.foldl (fun c s => c.add (s.time + timeOffset) (value s)) c =
      { c with keyframes := states.map fun s => { time := s.time + timeOffset, value := value s } } := by
  let source : Channel α V :=
    { c with keyframes := states.map fun s => { time := s.time + timeOffset, value := value s } }
  have ordered : Ordered source.keyframes := List.pairwise_map.mpr timed.ordered
  have received : c.receive source = _ := receive_behind ordered fun first _ last found => by
    rw [last?, empty] at found
    cases found
  rw [empty, List.nil_append] at received
  rw [← received, receive, List.foldl_map]
  rfl

private theorem recordAll_recording {states : List (State α)} (timed : Timed timeOffset states) :
    Tracks.empty.recordAll timeOffset states = .recording timeOffset states := by
  rw [Tracks.recordAll_channels, Tracks.recording, foldl_add (·.position) timed rfl, foldl_add (·.scale) timed rfl,
    foldl_add (·.rotation) timed rfl, foldl_add (·.color) timed rfl, foldl_add (·.opacity) timed rfl,
    foldl_add (·.flipH) timed rfl, foldl_add (·.flipV) timed rfl, foldl_add (·.additive) timed rfl]

omit [OrderLaws α] in
private theorem recording_covers {states : List (State α)} (timed : Timed timeOffset states) {first last : State α}
    (head : states.head? = some first) (ending : states.getLast? = some last) :
    (Tracks.recording timeOffset states).Each (Covers (first.time + timeOffset) (last.time + timeOffset)) := by
  have covers {V : Type} (c : Channel α V) (value : State α → V) : Covers (first.time + timeOffset) (last.time + timeOffset)
      { c with keyframes := states.map fun s => { time := s.time + timeOffset, value := value s } } := by
    refine ⟨List.pairwise_map.mpr timed.ordered, ⟨{ time := first.time + timeOffset, value := value first }, ?_, rfl⟩,
      ⟨{ time := last.time + timeOffset, value := value last }, ?_, rfl⟩⟩
    · rw [first?, List.head?_map, head]; rfl
    · rw [last?, List.getLast?_map, ending]; rfl
  exact ⟨covers _ _, covers _ _, covers _ _, covers _ _, covers _ _, covers _ _, covers _ _, covers _ _⟩

omit [OrderLaws α] in
private theorem simplified_covers {tracks : Tracks α} {start stop : α} (covers : tracks.Each (Covers start stop)) :
    (simplified config bitmapSize tracks).Each (Covers start stop) :=
  ⟨covers.position.trimmed (simplify_trimmed _ _ _), covers.scale.trimmed (simplify_trimmed _ _ _),
    covers.rotation.trimmed (simplify_trimmed _ _ _), covers.color.trimmed (simplify_trimmed _ _ _),
    covers.opacity.trimmed (simplify_trimmed _ _ _), covers.flipH.trimmed (simplify_trimmed _ _ _),
    covers.flipV.trimmed (simplify_trimmed _ _ _), covers.additive.trimmed (simplify_trimmed _ _ _)⟩

omit [OrderLaws α] in
private theorem entry_covers {opacity : Channel α α} {start stop : α} (covers : Covers start stop opacity)
    (defined : start ≤ start) (precedingEnd : Option α) {first : Keyframe α α} (same : first.time = start) :
    Covers start stop { opacity with keyframes := entry config precedingEnd first ++ opacity.keyframes } := by
  unfold entry
  split
  · refine ⟨List.pairwise_cons.mpr ⟨?_, covers.ordered⟩, ⟨_, rfl, same⟩, ?_⟩
    · intro k member
      exact same ▸ covers.earliest defined member
    · obtain ⟨last, found, stops⟩ := covers.last
      exact ⟨last, by rw [last?, List.getLast?_append, show opacity.keyframes.getLast? = _ from found]; rfl, stops⟩
  · exact covers

private theorem exit_covers {opacity : Channel α α} {start stop : α} (covers : Covers start stop opacity)
    (defined : stop ≤ stop) {last : Keyframe α α} (same : last.time = stop) :
    Covers start stop { opacity with keyframes := opacity.keyframes ++ exit config last } := by
  unfold exit
  split
  · refine ⟨covers.ordered.append (covers.reaches (same ▸ defined)), ?_, ⟨_, List.getLast?_concat, same⟩⟩
    · obtain ⟨first, found, starts⟩ := covers.first
      exact ⟨first, by rw [first?, List.head?_append, show opacity.keyframes.head? = _ from found]; rfl, starts⟩
  · rw [List.append_nil]
    exact covers

section Faded
variable {opacity : Channel α α} {start stop : α} (covers : Covers start stop opacity) (starts : start ≤ start)
  (stops : stop ≤ stop) (precedingEnd : Option α)
include covers starts stops

private theorem enclosed_covers :
    Covers start stop { opacity with keyframes := enclosed config precedingEnd opacity.keyframes } := by
  obtain ⟨first, head, begins⟩ := covers.first
  obtain ⟨last, final, ends⟩ := covers.last
  have entered := entry_covers config covers starts precedingEnd begins
  simp only [enclosed, show opacity.keyframes.head? = some first from head,
    show opacity.keyframes.getLast? = some last from final]
  exact exit_covers config entered stops ends

/-- The keyframes at the ends need no search: they go in front of all others and behind them. -/
private theorem faded_enclosed :
    faded config precedingEnd opacity = { opacity with keyframes := enclosed config precedingEnd opacity.keyframes } := by
  obtain ⟨first, found, rfl⟩ := covers.first
  obtain ⟨last, ending, rfl⟩ := covers.last
  have head : opacity.keyframes.head? = some first := found
  have final : opacity.keyframes.getLast? = some last := ending
  have entered := entry_covers config covers starts precedingEnd rfl
  have enters : (if 0.0 < config.roundOpacity opacity.startValue ∧ (precedingEnd == some first.time) = false
      then opacity.insert { time := first.time, value := 0.0 } true else opacity) =
        { opacity with keyframes := entry config precedingEnd first ++ opacity.keyframes } := by
    rw [startValue, found, Option.map_some, Option.getD_some, entry]
    split
    · exact insert_front fun k member => covers.earliest starts member
    · rfl
  have value : Channel.endValue { opacity with keyframes := entry config precedingEnd first ++ opacity.keyframes } =
      last.value := by
    rw [endValue, last?, List.getLast?_append, final]
    rfl
  rw [faded, startTime, endTime, found, ending]
  simp only [Option.map_some]
  rw [enters, value, enclosed, head, final]
  dsimp only
  rw [exit]
  split
  · exact insert_behind (entered.reaches stops)
  · rw [List.append_nil]

end Faded

private theorem receive_tracks {tracks run : Tracks α} {start stop : α} (later : tracks.Each (Reaches · start))
    (covers : run.Each (Covers start stop)) : (tracks.hold start).receive run = tracks.combine extended run := by
  rw [Tracks.receive, Tracks.combine]
  simp only [Tracks.hold]
  rw [receive_run later.position covers.position, receive_run later.scale covers.scale,
    receive_run later.rotation covers.rotation, receive_run later.color covers.color,
    receive_run later.opacity covers.opacity, receive_run later.flipH covers.flipH,
    receive_run later.flipV covers.flipV, receive_run later.additive covers.additive]

section Single
variable {states : List (State α)} {first last : State α}

private theorem single_covers (timed : Timed timeOffset states) (head : states.head? = some first)
    (ending : states.getLast? = some last) (precedingEnd : Option α) :
    (single config bitmapSize timeOffset precedingEnd states).Each
      (Covers (first.time + timeOffset) (last.time + timeOffset)) := by
  have covers := simplified_covers config bitmapSize (recording_covers timed head ending)
  have starts := timed.defined first (List.mem_of_mem_head? head)
  have stops := timed.defined last (List.mem_of_mem_getLast? ending)
  exact { covers with opacity := enclosed_covers config covers.opacity starts stops precedingEnd }

/-- Closing a span only appends, whatever its place was searched for. -/
private theorem close_single (timed : Timed timeOffset states) (head : states.head? = some first)
    (ending : states.getLast? = some last) {tracks : Tracks α}
    (later : tracks.Each (Reaches · (first.time + timeOffset))) :
    close config bitmapSize tracks (Tracks.empty.recordAll timeOffset states) =
      tracks.combine extended (single config bitmapSize timeOffset tracks.opacity.endTime states) := by
  have recorded := recording_covers timed head ending
  have covers := simplified_covers config bitmapSize recorded
  have starts := timed.defined first (List.mem_of_mem_head? head)
  have stops := timed.defined last (List.mem_of_mem_getLast? ending)
  have begun : (Tracks.recording timeOffset states).position.startTime = some (first.time + timeOffset) := by
    obtain ⟨k, found, same⟩ := recorded.position.first
    rw [startTime, found, ← same]
    rfl
  have closed := receive_tracks later (single_covers config bitmapSize timed head ending
    tracks.opacity.endTime)
  rw [← closed, close, closeSpan, recordAll_recording timed]
  simp only [begun]
  rw [faded_enclosed config covers.opacity starts stops tracks.opacity.endTime]
  rfl

end Single

/-- The spans of recorded states in time order only append, and what they append is in order. -/
private theorem lay_runs (recordings : List (List (State α))) (present : ∀ recorded ∈ recordings, recorded ≠ [])
    (timed : Timed timeOffset recordings.flatten) (tracks : Tracks α) (ordered : tracks.Each (Ordered ·.keyframes))
    (later : ∀ s ∈ recordings.flatten, tracks.Each (Reaches · (s.time + timeOffset))) :
    lay config bitmapSize timeOffset tracks recordings =
        (runs config bitmapSize timeOffset tracks.opacity.endTime recordings).foldl (Tracks.combine extended) tracks ∧
      (lay config bitmapSize timeOffset tracks recordings).Each (Ordered ·.keyframes) ∧
      ∀ run ∈ runs config bitmapSize timeOffset tracks.opacity.endTime recordings, run.Each (·.keyframes ≠ []) := by
  -- The tracks stay ordered and end no later than anything still to come, so every run only goes behind.
  induction recordings generalizing tracks with
  | nil => exact ⟨rfl, ordered, fun run member => absurd member List.not_mem_nil⟩
  | cons recorded recordings ih =>
    have here := present recorded List.mem_cons_self
    have own : Timed timeOffset recorded := timed.sublist (List.sublist_append_left _ _)
    have head := List.head?_eq_some_head here
    have ending := List.getLast?_eq_some_getLast here
    have reached := later (recorded.head here) (List.mem_append_left _ (List.head_mem here))
    have covers := single_covers config bitmapSize own head ending tracks.opacity.endTime
    have closed := close_single config bitmapSize own head ending reached
    have ends :
        (tracks.combine extended (single config bitmapSize timeOffset tracks.opacity.endTime recorded)).opacity.endTime =
          (single config bitmapSize timeOffset tracks.opacity.endTime recorded).opacity.endTime :=
      congrArg (Option.map fun k : Keyframe α α => k.time) (covers.opacity.extended_last tracks.opacity)
    have grown : (tracks.combine extended (single config bitmapSize timeOffset tracks.opacity.endTime recorded)).Each
        (Ordered ·.keyframes) := by
      exact (ordered.and reached).combine covers fun c run before covers => covers.extended_ordered before.1 before.2
    obtain ⟨laid, order, nonempty⟩ := ih (fun recorded member => present recorded (List.mem_cons_of_mem _ member))
      (timed.sublist (List.sublist_append_right _ _)) _ grown (by
        intro s behind
        have last : (recorded.getLast here).time + timeOffset ≤ s.time + timeOffset :=
          (List.pairwise_append.mp timed.ordered).2.2 _ (List.getLast_mem here) s behind
        exact reached.combine covers fun c run _ covers other final =>
          covers.reaches last other (covers.extended_last c ▸ final))
    rw [lay, List.foldl_cons, closed, ← lay]
    rw [ends] at laid nonempty
    refine ⟨laid, order, ?_⟩
    rintro run member
    cases member with
    | head => exact covers.imp fun c covers => covers.ne_nil
    | tail _ member => exact nonempty run member

omit [Scalar α] [OrderLaws α] in
theorem recordings_present (leading : Bool) (spans : List (Span α)) :
    ∀ recorded ∈ Span.recordings leading spans, recorded ≠ [] := by
  induction spans generalizing leading with
  | nil => exact nofun
  | cons span spans ih =>
    intro recorded member
    cases member with
    | head => simp [Span.recorded, Span.seen]
    | tail _ member => exact ih false recorded member

theorem run_assembled {states : List (State α)} (timed : Timed timeOffset states) (visible : State α → Bool) :
    (run config bitmapSize timeOffset visible states).tracks =
        assembled (runs config bitmapSize timeOffset none (Span.recordings true (Span.ofStates visible none states))) ∧
      (run config bitmapSize timeOffset visible states).tracks.Each (Ordered ·.keyframes) := by
  have recorded : Timed timeOffset (Span.recordings true (Span.ofStates visible none states)).flatten :=
    timed.sublist (Span.recorded_sublist states)
  have fresh : (Tracks.empty : Tracks α).Each (·.keyframes = []) := ⟨rfl, rfl, rfl, rfl, rfl, rfl, rfl, rfl⟩
  obtain ⟨laid, ordered, nonempty⟩ := lay_runs config bitmapSize _ (recordings_present true _) recorded .empty
    (fresh.imp fun c empty => by rw [empty]; exact List.Pairwise.nil)
    (fun s _ => fresh.imp fun c empty last found => by rw [last?, empty] at found; cases found)
  rw [(run_eq states).1]
  exact ⟨laid.trans (assembled_eq nonempty), ordered⟩

end Order

end Capture

theorem Compiler.Filled.timed {c : Compiler Float} (filled : c.Filled) {timeOffset : Float}
    (shift : timeOffset.isNaN = false) : Capture.Timed timeOffset c.states := by
  obtain ⟨accepted, sorted⟩ := filled.sorted
  refine ⟨fun s member => ?_, sorted.imp_of_mem fun first second ordered => ?_⟩
  · have time := (accepted s member).time
    exact Binary64.add_le_add_right (accepted s member).defined time time shift
  · exact Binary64.add_le_add_right ordered (accepted _ first).time (accepted _ second).time shift

namespace Capture

/-- Whatever is visible, the tracks are the maximal visible spans of the buffer, each simplified on
its own and laid behind the one before with a marker between them. Every visible state is recorded
once, and of the others those at the borders of a span. -/
theorem tracks_of_spans (c : Compiler Float) (filled : c.Filled) (config : Config Float) (bitmapSize : Vec2 Float)
    (timeOffset : Float) (finite : timeOffset.isFinite = true) (visible : State Float → Bool) :
    let spans := Span.ofStates visible none c.states
    let recordings := Span.recordings true spans
    let capture := run config bitmapSize timeOffset visible c.states
    capture.begun = !spans.isEmpty ∧
      capture.tracks = assembled (runs config bitmapSize timeOffset none recordings) ∧
      (∀ span ∈ spans, span.Maximal visible c.states) ∧
      recordings.flatten.Sublist c.states ∧
      recordings.flatten.filter visible = c.states.filter visible :=
  have timed := filled.timed (Binary64.defined_of_finite finite)
  ⟨(run_eq c.states).2, (run_assembled config bitmapSize timed visible).1, Span.ofStates_maximal c.states,
    Span.recorded_sublist c.states, Span.recorded_visible c.states⟩

/-- Three states, the middle one hidden by whoever asks. -/
def blink : Compiler Float := { config := .standard, states := [.neutral 0.0, .neutral 1.0, .neutral 2.0] }

theorem tracks_of_spans_blink : blink.Filled ∧
    (run .standard ⟨1.0, 1.0⟩ 0.0 (fun s => !(s.time == 1.0)) blink.states).tracks =
      assembled (runs .standard ⟨1.0, 1.0⟩ 0.0 none [[.neutral 0.0, .neutral 1.0], [.neutral 2.0]]) := by
  have filled : blink.Filled := Compiler.Filled.of_sorted _ (by decide) (by decide)
  have tracks := (tracks_of_spans blink filled .standard ⟨1.0, 1.0⟩ 0.0 (by decide) fun s => !(s.time == 1.0)).2.1
  refine ⟨filled, tracks.trans ?_⟩
  have zero : (!((0.0 : Float) == 1.0)) = true := by decide
  have one : (!((1.0 : Float) == 1.0)) = false := by decide
  have two : (!((2.0 : Float) == 1.0)) = true := by decide
  simp [blink, Span.ofStates, Span.recordings, Span.recorded, Span.seen, State.neutral, zero, one, two]

end Capture
end Tween
