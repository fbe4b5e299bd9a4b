import Tween.Compiler.Capture
import Tween.Compiler.Span
import Tween.Proofs.Channel.Members

/-! Reading states one by one and keeping flags comes to the same as cutting them into maximal
visible runs first. The flags say where in a run the reader is; nothing here needs the states to
be in any order. -/

namespace Tween
variable {α : Type}

/-- The recorded states of spans in order. Only the first one has a way in. -/
def Span.recordings (leading : Bool) : List (Span α) → List (List (State α))
  | [] => []
  | span :: spans => span.recorded leading :: recordings false spans

theorem Span.ofStates_isEmpty (visible : State α → Bool) (before : Option (State α)) (states : List (State α)) :
    (ofStates visible before states).isEmpty = !states.any visible := by
  induction states generalizing before with
  | nil => simp [ofStates]
  | cons state states ih =>
    rw [ofStates, List.any_cons]
    cases visible state with
    | true => rfl
    | false => exact ih (some state)

variable [Scalar α]

def Tracks.recordAll (timeOffset : α) (tracks : Tracks α) (states : List (State α)) : Tracks α :=
  states.foldl (fun tracks state => tracks.record state (state.time + timeOffset)) tracks

def Tracks.Begun (tracks : Tracks α) : Prop := tracks.position.startTime ≠ none

private theorem Tracks.begun_record (tracks : Tracks α) (state : State α) (time : α) :
    (tracks.record state time).Begun := by
  intro none
  simp only [Channel.startTime, Channel.first?, Option.map_eq_none_iff, List.head?_eq_none_iff] at none
  exact List.ne_nil_of_mem (Channel.mem_insert.mpr (Or.inl rfl)) none

namespace Capture
variable (config : Config α) (bitmapSize : Vec2 α) (timeOffset : α) (visible : State α → Bool)

def close (tracks span : Tracks α) : Tracks α :=
  (closeSpan config bitmapSize ⟨span, tracks, none, true, true⟩).tracks

def finish (capture : Capture α) : Capture α :=
  if capture.inSpan then closeSpan config bitmapSize capture else capture

def lay (tracks : Tracks α) (recordings : List (List (State α))) : Tracks α :=
  recordings.foldl (fun tracks recorded => close config bitmapSize tracks (Tracks.empty.recordAll timeOffset recorded))
    tracks

variable {config bitmapSize timeOffset visible}

/-- What closing keeps, whatever has been recorded, is kept when all is laid. -/
theorem lay_preserves {kept : Tracks α → Prop} {recordings : List (List (State α))}
    (closing : ∀ recorded ∈ recordings, ∀ tracks, kept tracks →
      kept (close config bitmapSize tracks (Tracks.empty.recordAll timeOffset recorded)))
    {tracks : Tracks α} (start : kept tracks) : kept (lay config bitmapSize timeOffset tracks recordings) := by
  induction recordings generalizing tracks with
  | nil => exact start
  | cons recorded recordings ih =>
    have first := closing recorded List.mem_cons_self tracks start
    exact ih (fun recorded member => closing recorded (List.mem_cons_of_mem _ member)) first

private theorem closeSpan_begun {capture : Capture α} (begun : capture.span.Begun) :
    closeSpan config bitmapSize capture =
      { capture with span := .empty, tracks := close config bitmapSize capture.tracks capture.span } := by
  unfold close closeSpan
  dsimp only
  cases start : capture.span.position.startTime with
  | none => exact absurd start begun
  | some start => rfl

section Step
variable {capture : Capture α} {state : State α}

private theorem step_idle (hidden : visible state = false) (outside : capture.inSpan = false) :
    step config bitmapSize timeOffset visible capture state =
      { capture with previous := some state, inSpan := false } := by
  simp [step, hidden, outside]

private theorem step_enter (seen : visible state = true) (outside : capture.inSpan = false) :
    step config bitmapSize timeOffset visible capture state =
      { capture with
        span := capture.span.recordAll timeOffset ((if !capture.begun then capture.previous.toList else []) ++ [state])
        previous := some state, inSpan := true, begun := true } := by
  cases begun : capture.begun <;> cases previous : capture.previous <;>
    simp [step, seen, outside, begun, previous, Tracks.recordAll]

private theorem step_inside (seen : visible state = true) (inside : capture.inSpan = true) :
    step config bitmapSize timeOffset visible capture state =
      { capture with span := capture.span.recordAll timeOffset [state], previous := some state, inSpan := true } := by
  simp [step, seen, inside, Tracks.recordAll]

private theorem step_leave (hidden : visible state = false) (inside : capture.inSpan = true) :
    step config bitmapSize timeOffset visible capture state =
      { closeSpan config bitmapSize { capture with span := capture.span.recordAll timeOffset [state] } with
        previous := some state, inSpan := false } := by
  simp [step, hidden, inside, Tracks.recordAll]

end Step

private theorem recordAll_append (tracks : Tracks α) (front back : List (State α)) :
    (tracks.recordAll timeOffset front).recordAll timeOffset back = tracks.recordAll timeOffset (front ++ back) :=
  List.foldl_append.symm

private theorem begun_recordAll (tracks : Tracks α) (front : List (State α)) (state : State α) :
    (tracks.recordAll timeOffset (front ++ [state])).Begun := by
  rw [← recordAll_append]
  exact Tracks.begun_record _ _ _

/-- Outside of a run nothing is open; inside of one something has been recorded. -/
private structure Sound (capture : Capture α) : Prop where
  outside : capture.inSpan = false → capture.span = .empty
  inside : capture.inSpan = true → capture.begun = true ∧ capture.span.Begun

variable (config bitmapSize timeOffset visible) in
/-- The tracks that a capture comes to with the rest of the states: first what belongs to the run it
is in, then the spans behind that. -/
private def owed (capture : Capture α) (states : List (State α)) : Tracks α :=
  if capture.inSpan then
    let behind := states.dropWhile visible
    lay config bitmapSize timeOffset
      (close config bitmapSize capture.tracks
        (capture.span.recordAll timeOffset (states.takeWhile visible ++ behind.head?.toList)))
      (Span.recordings false (Span.ofStates visible none behind))
  else
    lay config bitmapSize timeOffset capture.tracks
      (Span.recordings (!capture.begun) (Span.ofStates visible capture.previous states))

section Owed
variable {capture : Capture α} {state : State α}

private theorem step_sound (sound : capture.Sound) (state : State α) :
    (step config bitmapSize timeOffset visible capture state).Sound ∧
      (step config bitmapSize timeOffset visible capture state).begun = (capture.begun || visible state) := by
  match seen : visible state, inside : capture.inSpan with
  | false, false =>
    rw [step_idle seen inside]
    exact ⟨⟨fun _ => sound.outside inside, nofun⟩, (Bool.or_false _).symm⟩
  | false, true =>
    rw [step_leave seen inside, closeSpan_begun (begun_recordAll _ [] state)]
    exact ⟨⟨fun _ => rfl, nofun⟩, (Bool.or_false _).symm⟩
  | true, false =>
    rw [step_enter seen inside]
    exact ⟨⟨nofun, fun _ => ⟨rfl, begun_recordAll _ _ _⟩⟩, (Bool.or_true _).symm⟩
  | true, true =>
    rw [step_inside seen inside]
    have begun := (sound.inside inside).1
    exact ⟨⟨nofun, fun _ => ⟨begun, begun_recordAll _ [] state⟩⟩, by simp [begun]⟩

/-- What a step does is no longer owed. -/
private theorem owed_step (sound : capture.Sound) (states : List (State α)) :
    owed config bitmapSize timeOffset visible (step config bitmapSize timeOffset visible capture state) states =
      owed config bitmapSize timeOffset visible capture (state :: states) := by
  match seen : visible state, inside : capture.inSpan with
  | false, false =>
    rw [step_idle seen inside]
    simp [owed, inside, Span.ofStates, seen]
  | false, true =>
    have begun := (sound.inside inside).1
    rw [step_leave seen inside, closeSpan_begun (begun_recordAll _ [] state)]
    simp [owed, inside, begun, seen, Span.ofStates]
  | true, false =>
    have fresh := sound.outside inside
    rw [step_enter seen inside]
    simp [owed, inside, Span.ofStates, seen, Span.recordings, lay, recordAll_append, Span.recorded, Span.seen, fresh]
  | true, true =>
    rw [step_inside seen inside]
    simp [owed, inside, seen, recordAll_append]

private theorem finish_sound (sound : capture.Sound) :
    (finish config bitmapSize capture).tracks = owed config bitmapSize timeOffset visible capture [] ∧
      (finish config bitmapSize capture).begun = capture.begun := by
  cases inside : capture.inSpan with
  | false => simp [finish, owed, inside, Span.ofStates, Span.recordings, lay]
  | true =>
    have begun := (sound.inside inside).2
    simp [finish, owed, inside, Span.ofStates, Span.recordings, lay, Tracks.recordAll, closeSpan_begun begun]

end Owed

private theorem finish_foldl {capture : Capture α} (sound : capture.Sound) (states : List (State α)) :
    let final := finish config bitmapSize (states.foldl (step config bitmapSize timeOffset visible) capture)
    final.tracks = owed config bitmapSize timeOffset visible capture states ∧
      final.begun = (capture.begun || states.any visible) := by
  induction states generalizing capture with
  | nil => simpa using finish_sound sound
  | cons state states ih =>
    obtain ⟨kept, begun⟩ := step_sound sound state
    obtain ⟨tracks, started⟩ := ih kept
    refine ⟨tracks.trans (owed_step sound states), started.trans ?_⟩
    rw [begun, List.any_cons, Bool.or_assoc]

/-- A run of the reader lays the recorded states of all visible spans behind each other. -/
theorem run_eq (states : List (State α)) :
    (run config bitmapSize timeOffset visible states).tracks =
        lay config bitmapSize timeOffset .empty (Span.recordings true (Span.ofStates visible none states)) ∧
      (run config bitmapSize timeOffset visible states).begun = !(Span.ofStates visible none states).isEmpty := by
  rw [Span.ofStates_isEmpty, Bool.not_not]
  exact finish_foldl ⟨fun _ => rfl, fun inside => absurd inside Bool.false_ne_true⟩ states

end Capture
end Tween
