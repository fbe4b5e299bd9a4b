import Tween.Compiler

/-! A compiler with the channels that it works in. They are kept between passes and emptied instead of
replaced: those of a span when it is closed, and all of them at the end of a pass, whatever became of
the emission. -/

namespace Tween

namespace Capture
variable {α : Type} [Scalar α]

/-- Closes the open span and leaves its channels to the next one. -/
def handOver (config : Config α) (bitmapSize : Vec2 α) (capture : Capture α) : Capture α :=
  match capture.span.position.startTime with
  | none => capture
  | some start =>
    let span := simplified config bitmapSize capture.span
    let span := { span with opacity := faded config capture.tracks.opacity.endTime span.opacity }
    { capture with span := span.clear, tracks := (capture.tracks.hold start).receive span }

/-- What a state adds to the channels of the span. -/
def take (timeOffset : α) (visible : State α → Bool) (capture : Capture α) (state : State α) : Capture α :=
  let record (capture : Capture α) (state : State α) : Capture α :=
    { capture with span := capture.span.record state (state.time + timeOffset) }
  let now := visible state
  let capture :=
    if now && !capture.inSpan && !capture.begun then
      { (capture.previous.elim capture (record capture)) with begun := true }
    else capture
  if now || capture.inSpan then record capture state else capture

/-- One more state, with a choice of how a span is closed. -/
def stepWith (close : Capture α → Capture α) (timeOffset : α) (visible : State α → Bool)
    (capture : Capture α) (state : State α) : Capture α :=
  let now := visible state
  let capture := capture.take timeOffset visible state
  let capture := if !now && capture.inSpan then close capture else capture
  { capture with previous := some state, inSpan := now }

def runWith (close : Capture α → Capture α) (timeOffset : α) (visible : State α → Bool) (states : List (State α))
    (capture : Capture α) : Capture α :=
  let capture := states.foldl (stepWith close timeOffset visible) capture
  if capture.inSpan then close capture else capture

end Capture

/-- `span` is for the visible span that is being captured, `tracks` for the spans before it. -/
structure Workbench (α : Type) extends Compiler α where
  span : Tracks α
  tracks : Tracks α

namespace Workbench
variable {α : Type} [Scalar α]

/-- A compiler that has just been set up. -/
def fresh (config : Config α) : Workbench α := { config, span := .empty, tracks := .empty }

/-- A state that is refused changes nothing. -/
def add (bench : Workbench α) (state : State α) : Except (Problem α) Unit × Workbench α :=
  match bench.toCompiler.add state with
  | .ok compiler => (.ok (), { bench with toCompiler := compiler })
  | .error problem => (.error problem, bench)

def pass {σ : Type} [Sink σ α] {m : Type → Type} [Monad m] (bench : Workbench α) (sink : σ)
    (sizes : String → Option (Vec2 α)) (options : PassOptions α) (wrapper : (σ → σ) → σ → m σ) :
    m (Bool × σ × Workbench α) := do
  let bitmapSize := Compiler.bitmapSize sizes sink
  let capture := Capture.runWith (Capture.handOver bench.config bitmapSize) options.timeOffset
    (bench.isVisible sink sizes) bench.states { Capture.initial with span := bench.span, tracks := bench.tracks }
  let sink ←
    if capture.begun then
      let emission : Emission α := { config := bench.config, tracks := capture.tracks, bitmapSize, options }
      wrapper emission.run sink
    else pure sink
  return (capture.begun, sink,
    { config := bench.config, states := [], span := capture.span.clear, tracks := capture.tracks.clear })

/-! What a caller does with a compiler, and what it sees of it. -/

variable {ι : Type}

/-- Passes may go to sinks of several kinds. A wrapper runs the emission as often as it likes, and on
any sink. -/
inductive Operation (m : Type → Type) (σ : ι → Type) (α : Type) where
  | add (state : State α)
  | configure (change : Config α → Config α)
  | pass (kind : ι) (sink : σ kind) (sizes : String → Option (Vec2 α)) (options : PassOptions α)
      (wrapper : (σ kind → σ kind) → σ kind → m (σ kind))
  | inspect

inductive Answer (σ : ι → Type) (α : Type) where
  | added (result : Except (Problem α) Unit)
  | configured
  | passed (kind : ι) (begun : Bool) (sink : σ kind)
  | inspected (config : Config α) (count : Nat) (start stop : Option (State α))

variable {m : Type → Type} [Monad m] {σ : ι → Type} [∀ kind, Sink (σ kind) α]

def perform : Operation m σ α → StateT (Workbench α) m (Answer σ α)
  | .add state => modifyGet fun bench => (bench.add state).map .added id
  | .configure change => do
    modify fun bench => { bench with config := change bench.config }
    return .configured
  | .pass kind sink sizes options wrapper => do
    let bench ← get
    let (begun, sink, bench) ← StateT.lift (bench.pass sink sizes options wrapper)
    set bench
    return .passed kind begun sink
  | .inspect => do
    let bench ← get
    return .inspected bench.config bench.states.length bench.startState? bench.endState?

def performAll (operations : List (Operation m σ α)) : StateT (Workbench α) m (List (Answer σ α)) :=
  operations.mapM perform

end Workbench
end Tween
