import Tween.Binary64.Scalar
import Tween.Compiler.Workbench

/-! A pass leaves nothing behind for the next object. Working on a channel changes its keyframes and
nothing else, so that emptying it makes it as it was when it was set up. -/

namespace Tween

namespace Channel
variable {α V : Type} [Scalar α]

theorem clear_hold? (c : Channel α V) (time : α) : ((c.hold? time).getD c).clear = c.clear := by
  unfold hold?
  cases c.last? <;> rfl

theorem clear_receive (target source : Channel α V) : (target.receive source).clear = target.clear := by
  unfold receive
  induction source.keyframes generalizing target with
  | nil => rfl
  | cons k keyframes ih => exact ih (target.insert k false)

theorem clear_simplify [BEq V] (c : Channel α V) (tolerance : α) (deviation : Deviation α V) :
    (c.simplify tolerance deviation).clear = c.clear := by
  unfold simplify
  split <;> rfl

end Channel

namespace Tracks
variable {α : Type} [Scalar α] (tracks : Tracks α)

theorem clear_hold (time : α) : (tracks.hold time).clear = tracks.clear := by
  simp only [clear, hold, Channel.clear_hold?]

theorem clear_receive (source : Tracks α) : (tracks.receive source).clear = tracks.clear := by
  simp only [clear, receive, Channel.clear_receive]

end Tracks

namespace Capture
variable {α : Type} [Scalar α]

theorem clear_simplified (config : Config α) (bitmapSize : Vec2 α) (tracks : Tracks α) :
    (simplified config bitmapSize tracks).clear = tracks.clear := by
  simp only [Tracks.clear, simplified, Channel.simplify1, Channel.simplify2, Channel.simplify3, Channel.clear_simplify]

theorem clear_faded (config : Config α) (precedingEnd : Option α) (opacity : Channel α α) :
    (faded config precedingEnd opacity).clear = opacity.clear := by
  unfold faded
  split
  · dsimp only
    split <;> split <;> rfl
  · rfl

private theorem clear_handed (config : Config α) (bitmapSize : Vec2 α) (precedingEnd : Option α) (span : Tracks α) :
    ({ simplified config bitmapSize span with
      opacity := faded config precedingEnd (simplified config bitmapSize span).opacity } : Tracks α).clear =
      span.clear := by
  rw [← clear_simplified config bitmapSize span]
  simp only [Tracks.clear, clear_faded]

/-- Apart from keyframes, all channels are those of a new compiler. -/
structure Kept (capture : Capture α) : Prop where
  span : capture.span.clear = .empty
  tracks : capture.tracks.clear = .empty

section
variable {capture : Capture α} (kept : capture.Kept)
include kept

theorem Kept.handOver (config : Config α) (bitmapSize : Vec2 α) : (capture.handOver config bitmapSize).Kept := by
  unfold Capture.handOver
  split
  next => exact kept
  next start _ =>
    refine ⟨?_, ?_⟩
    · exact (clear_handed config bitmapSize _ capture.span).trans kept.span
    · dsimp only
      rw [Tracks.clear_receive, Tracks.clear_hold, kept.tracks]

/-- What is left of a span that was handed over is what a new one starts with. -/
theorem Kept.handOver_eq (config : Config α) (bitmapSize : Vec2 α) :
    capture.handOver config bitmapSize = capture.closeSpan config bitmapSize := by
  unfold Capture.handOver closeSpan
  cases capture.span.position.startTime with
  | none => rfl
  | some start =>
    dsimp only
    rw [clear_handed, kept.span]

theorem Kept.take (timeOffset : α) (visible : State α → Bool) (state : State α) :
    (capture.take timeOffset visible state).Kept := by
  have recorded {capture : Capture α} (kept : capture.Kept) (state : State α) :
      ({ capture with span := capture.span.record state (state.time + timeOffset) } : Capture α).Kept :=
    ⟨kept.span, kept.tracks⟩
  have entered : ({ (capture.previous.elim capture fun previous =>
      { capture with span := capture.span.record previous (previous.time + timeOffset) }) with
      begun := true } : Capture α).Kept := by
    cases capture.previous with
    | none => exact ⟨kept.span, kept.tracks⟩
    | some previous => exact ⟨(recorded kept previous).span, (recorded kept previous).tracks⟩
  unfold Capture.take
  dsimp only
  split
  next =>
    split
    next => exact recorded entered state
    next => exact entered
  next =>
    split
    next => exact recorded kept state
    next => exact kept

end

section
variable (config : Config α) (bitmapSize : Vec2 α) (timeOffset : α) (visible : State α → Bool)

theorem Kept.step {capture : Capture α} (kept : capture.Kept) (state : State α) :
    (capture.stepWith (Capture.handOver config bitmapSize) timeOffset visible state).Kept ∧
      capture.stepWith (Capture.handOver config bitmapSize) timeOffset visible state =
        capture.step config bitmapSize timeOffset visible state := by
  have taken := kept.take timeOffset visible state
  have same : capture.step config bitmapSize timeOffset visible state =
    capture.stepWith (closeSpan config bitmapSize) timeOffset visible state := rfl
  rw [same]
  unfold stepWith
  dsimp only
  split
  next =>
    have handed := taken.handOver config bitmapSize
    rw [taken.handOver_eq] at handed ⊢
    exact ⟨⟨handed.span, handed.tracks⟩, rfl⟩
  next => exact ⟨⟨taken.span, taken.tracks⟩, rfl⟩

private theorem fold_kept (states : List (State α)) {capture : Capture α} (kept : capture.Kept) :
    (states.foldl (stepWith (handOver config bitmapSize) timeOffset visible) capture).Kept ∧
      states.foldl (stepWith (handOver config bitmapSize) timeOffset visible) capture =
        states.foldl (step config bitmapSize timeOffset visible) capture := by
  induction states generalizing capture with
  | nil => exact ⟨kept, rfl⟩
  | cons state states ih =>
    obtain ⟨after, same⟩ := kept.step config bitmapSize timeOffset visible state
    rw [List.foldl_cons, List.foldl_cons, ← same]
    exact ih after

/-- A capture on kept channels is the capture on new ones, and it keeps them. -/
theorem runWith_eq (states : List (State α)) :
    (runWith (handOver config bitmapSize) timeOffset visible states initial).Kept ∧
      runWith (handOver config bitmapSize) timeOffset visible states initial =
        run config bitmapSize timeOffset visible states := by
  obtain ⟨kept, same⟩ := fold_kept config bitmapSize timeOffset visible states (show initial.Kept from ⟨rfl, rfl⟩)
  unfold runWith run
  dsimp only
  rw [← same]
  split
  next =>
    have handed := kept.handOver config bitmapSize
    rw [kept.handOver_eq] at handed ⊢
    exact ⟨handed, rfl⟩
  next => exact ⟨kept, rfl⟩

end

end Capture

namespace Workbench
variable {α : Type} [Scalar α]

/-- A workbench with nothing in its channels. -/
def cleared (c : Compiler α) : Workbench α := { toCompiler := c, span := .empty, tracks := .empty }

@[simp]
theorem cleared_toCompiler (c : Compiler α) : (cleared c).toCompiler = c := rfl

theorem add_cleared (c : Compiler α) (state : State α) :
    ((cleared c).add state).2 = cleared ((cleared c).add state).2.toCompiler := by
  unfold add
  cases (cleared c).toCompiler.add state <;> rfl

section
variable {m : Type → Type} [Monad m] [LawfulMonad m] {σ : Type} [Sink σ α]

/-- A pass does what the compiler does, and clears up. -/
theorem pass_cleared (c : Compiler α) (sink : σ) (sizes : String → Option (Vec2 α)) (options : PassOptions α)
    (wrapper : (σ → σ) → σ → m σ) :
    (cleared c).pass sink sizes options wrapper =
      (fun (begun, sink, c) => (begun, sink, cleared c)) <$> c.compileWith sink sizes options wrapper := by
  obtain ⟨⟨span, tracks⟩, same⟩ := Capture.runWith_eq c.config (Compiler.bitmapSize sizes sink) options.timeOffset
    (c.isVisible sink sizes) c.states
  have start : ({ Capture.initial with span := (cleared c).span, tracks := (cleared c).tracks } : Capture α) =
      .initial := rfl
  unfold pass Compiler.compileWith Compiler.capture
  rw [start, cleared_toCompiler]
  dsimp only
  rw [span, tracks, same]
  cases (Capture.run c.config (Compiler.bitmapSize sizes sink) options.timeOffset (c.isVisible sink sizes) c.states).begun
  · simp [cleared]
  · simp [cleared]

/-- Nothing but the settings is left after a pass, whether or not it called its wrapper. -/
theorem pass_fresh (c : Compiler α) (sink : σ) (sizes : String → Option (Vec2 α)) (options : PassOptions α)
    (wrapper : (σ → σ) → σ → m σ) :
    (cleared c).pass sink sizes options wrapper =
      (fun (begun, sink, bench) => (begun, sink, fresh bench.config)) <$>
        (cleared c).pass sink sizes options wrapper := by
  rw [pass_cleared, Compiler.compileWith]
  cases (c.capture sink sizes options.timeOffset).begun
  · simp [fresh, cleared]
  · simp [fresh, cleared]

end

section
variable {m : Type → Type} [Monad m] [LawfulMonad m] {ι : Type} {σ : ι → Type} [∀ kind, Sink (σ kind) α]

private theorem perform_pass_run (c : Compiler α) (kind : ι) (sink : σ kind) (sizes : String → Option (Vec2 α))
    (options : PassOptions α) (wrapper : (σ kind → σ kind) → σ kind → m (σ kind)) :
    (perform (.pass kind sink sizes options wrapper)).run (cleared c) =
      (fun (begun, sink, bench) => (Answer.passed kind begun sink, bench)) <$>
        (cleared c).pass sink sizes options wrapper := by
  simp [perform, StateT.run_lift]

theorem perform_pass (c : Compiler α) (kind : ι) (sink : σ kind) (sizes : String → Option (Vec2 α))
    (options : PassOptions α) (wrapper : (σ kind → σ kind) → σ kind → m (σ kind)) :
    (perform (.pass kind sink sizes options wrapper)).run (cleared c) =
      (fun (answer, bench) => (answer, fresh bench.config)) <$>
        (perform (.pass kind sink sizes options wrapper)).run (cleared c) := by
  rw [perform_pass_run, pass_fresh]
  simp only [Functor.map_map]
  rfl

theorem perform_cleared (operation : Operation m σ α) (c : Compiler α) :
    (perform operation).run (cleared c) =
      (fun (answer, bench) => (answer, cleared bench.toCompiler)) <$> (perform operation).run (cleared c) := by
  cases operation with
  | add state => simp [perform, ← add_cleared]
  | configure change => simp [perform, cleared]
  | inspect => simp [perform, cleared]
  | pass kind sink sizes options wrapper =>
    rw [perform_pass]
    simp only [Functor.map_map]
    rfl

theorem performAll_cleared (operations : List (Operation m σ α)) (c : Compiler α) :
    (performAll operations).run (cleared c) =
      (fun (answers, bench) => (answers, cleared bench.toCompiler)) <$> (performAll operations).run (cleared c) := by
  unfold performAll
  induction operations generalizing c with
  | nil => simp [cleared]
  | cons operation operations ih =>
    rw [List.mapM_cons]
    simp only [StateT.run_bind, StateT.run_pure, map_bind, map_pure]
    rw [perform_cleared]
    simp only [bind_map_left]
    refine bind_congr fun (answer, bench) => ?_
    dsimp only
    rw [ih]
    simp only [bind_map_left]
    rfl

/-- A pass leaves the compiler as it would be new, with the settings that it has at that moment. So
after any history, whatever is done next may as well be done with a new one: nobody can tell by
the answers, by the commands on any sink, nor by what is done to the compiler itself. -/
theorem carries_nothing_over {β : Type} (config : Config α) (history : List (Operation m σ α)) (kind : ι)
    (sink : σ kind) (sizes : String → Option (Vec2 α)) (options : PassOptions α)
    (wrapper : (σ kind → σ kind) → σ kind → m (σ kind))
    (later : List (Answer σ α) → StateT (Workbench α) m β) :
    (performAll (history ++ [Operation.pass kind sink sizes options wrapper]) >>= later).run (fresh config) =
      (do
        let answers ← performAll (history ++ [Operation.pass kind sink sizes options wrapper])
        modify fun bench => fresh bench.config
        later answers).run (fresh config) := by
  have start : fresh config = cleared { config } := rfl
  have split : performAll (history ++ [Operation.pass kind sink sizes options wrapper]) = do
      let answers ← performAll history
      let answer ← perform (Operation.pass kind sink sizes options wrapper)
      return answers ++ [answer] := by
    simp [performAll]
  rw [split, start]
  simp only [StateT.run_bind, bind_assoc, pure_bind]
  rw [performAll_cleared]
  simp only [bind_map_left]
  refine bind_congr fun (answers, bench) => ?_
  dsimp only
  rw [perform_pass]
  simp only [bind_map_left]
  refine bind_congr fun (answer, bench) => ?_
  rw [StateT.run_modify, pure_bind]
  rfl

end

/-- Two objects, the first emitted twice and the second not finished: a state of it is refused. -/
def twoObjects : List (Operation Id (fun _ : Unit => Script Float) Float) := [
  .add (.neutral 0.0),
  .pass () ⟨"star.png", .centre, ⟨320.0, 240.0⟩, []⟩ (fun _ => none) .standard fun emit sink => emit (emit sink),
  .configure fun config => { config with canvas := ⟨0.0, 0.0, 640.0, 480.0⟩ },
  .add { State.neutral 1.0 with position := ⟨320.0, 240.0⟩ },
  .add (.neutral (0.0 / 0.0))]

theorem carries_nothing_over_twoObjects :
    let unseen : Operation Id (fun _ : Unit => Script Float) Float :=
      .pass () ⟨"star.png", .centre, ⟨320.0, 240.0⟩, []⟩ (fun _ => none) .standard fun _ sink => sink
    ((performAll twoObjects).run (fresh .standard)).2.states.length = 1 ∧
      (performAll (twoObjects ++ [unseen]) >>= fun answers => (answers ++ ·) <$> performAll twoObjects).run
          (fresh .standard) =
        (do
          let answers ← performAll (twoObjects ++ [unseen])
          modify fun bench => fresh bench.config
          (answers ++ ·) <$> performAll twoObjects).run (fresh .standard) :=
  ⟨by decide +kernel,
    carries_nothing_over _ twoObjects () _ _ _ _ fun answers => (answers ++ ·) <$> performAll twoObjects⟩

end Workbench

end Tween
