import Tween.Proofs.Binary64.Products
import Tween.Proofs.Capture.Times

/-! Recordings without a defined offset. None of their keyframes has a defined time, so no distance
is defined either, nothing stands out, and it does not matter how much is tolerated. -/

namespace Tween
open Scalar OrderLaws

namespace Distance
open Binary64

private theorem beq_undefined {x : Float} (undefined : x.isNaN = true) (y : Float) : (x == y) = false := by
  refine Bool.eq_false_iff.mpr fun same => ?_
  rw [(Binary64.beq_iff.mp same).1] at undefined
  cases undefined

private theorem square_undefined {x : Float} (undefined : x.isNaN = true) : (x * x).isNaN = true :=
  mul_undefined (Or.inl undefined)

theorem toLine2_undefined (start middle : Vec2 Float) {stop : Vec2 Float} (undefined : stop.x.isNaN = true) :
    (toLine2 start middle stop).isNaN = true := by
  have base : (stop - start).x.isNaN = true := sub_undefined undefined _
  have length : (stop - start).norm.isNaN = true := sqrt_undefined (undefined_add (square_undefined base) _)
  unfold toLine2
  dsimp only
  rw [beq_undefined length, if_neg Bool.false_ne_true]
  exact div_undefined (abs_undefined (sub_undefined (mul_undefined (Or.inl base)) _)) _

theorem toLine3_undefined (start : Vec3 Float) {middle stop : Vec3 Float} (undefined : middle.x.isNaN = true)
    (undefined' : stop.x.isNaN = true) : (toLine3 start middle stop).isNaN = true := by
  have norms {v : Vec3 Float} (undefined : v.x.isNaN = true) : (v.dot v).isNaN = true :=
    undefined_add (undefined_add (square_undefined undefined) _) _
  have base : (stop - start).x.isNaN = true := sub_undefined undefined' _
  unfold toLine3
  dsimp only
  rw [beq_undefined (norms base), if_neg Bool.false_ne_true]
  refine sqrt_undefined (norms ?_)
  change (middle.x - start.x - _).isNaN = true
  exact sub_undefined (sub_undefined undefined _) _

theorem toLine4_undefined (start : Vec4 Float) {middle stop : Vec4 Float} (undefined : middle.x.isNaN = true)
    (undefined' : stop.x.isNaN = true) : (toLine4 start middle stop).isNaN = true := by
  have norms {v : Vec4 Float} (undefined : v.x.isNaN = true) : (v.dot v).isNaN = true :=
    undefined_add (undefined_add (square_undefined undefined) _) _
  have base : (stop - start).x.isNaN = true := sub_undefined undefined' _
  unfold toLine4
  dsimp only
  rw [beq_undefined (norms base), if_neg Bool.false_ne_true]
  refine sqrt_undefined (norms ?_)
  change (middle.x - start.x - _).isNaN = true
  exact sub_undefined (sub_undefined undefined _) _

end Distance

namespace Channel
variable {V : Type} {tolerance other : Float} {deviation : Deviation Float V}

def Timeless (c : Channel Float V) : Prop := c.At fun time => time.isNaN = true

private theorem peak_undefined {height : Keyframe Float V → Float} {interior : List (Keyframe Float V)}
    (undefined : ∀ k ∈ interior, (height k).isNaN = true) : peak? height interior = none := by
  induction interior with
  | nil => rfl
  | cons k after ih =>
    have low : ¬0.0 < height k := by
      intro above
      have defined := (Binary64.le_iff.mp (le_of_lt above)).2.1
      rw [undefined k List.mem_cons_self] at defined
      cases defined
    rw [peak?, ih fun k member => undefined k (List.mem_cons_of_mem _ member)]
    exact if_neg low

private theorem keptBehind_undefined {s : Stretch Float V}
    (undefined : ∀ k ∈ s.interior, (deviation s.first k s.last).isNaN = true) :
    keptBehind tolerance deviation [s] = [s.last] := by
  have whole : s.split? tolerance deviation = none := by
    rw [Stretch.split?, peak_undefined undefined]
    rfl
  rw [keptBehind_none [] whole, keptBehind]

/-- Without times only the ends are kept, whatever is tolerated. -/
private theorem simplify_timeless [BEq V] {c : Channel Float V} (timeless : c.Timeless)
    (undefined : ∀ a m z : Keyframe Float V, m.time.isNaN = true → z.time.isNaN = true → (deviation a m z).isNaN = true)
    (indifferent : tolerance = other ∨ 0.0 < tolerance ∧ 0.0 < other) :
    c.simplify tolerance deviation = c.simplify other deviation := by
  rcases indifferent with rfl | ⟨positive, positive'⟩
  · rfl
  unfold simplify
  split
  next first second third rest shape =>
    have timeless : ∀ k ∈ second :: third :: rest, k.time.isNaN = true := by
      intro k member
      exact timeless k (shape ▸ List.mem_cons_of_mem _ member)
    have inside : ∀ k ∈ (second :: third :: rest).dropLast,
        (deviation first k ((second :: third :: rest).getLast (List.cons_ne_nil _ _))).isNaN = true := by
      intro k member
      exact undefined _ _ _ (timeless k (List.mem_of_mem_dropLast member)) (timeless _ (List.getLast_mem _))
    dsimp only
    rw [if_neg (not_le_of_lt positive), if_neg (not_le_of_lt positive'), keptBehind_undefined inside,
      keptBehind_undefined inside]
  next => rfl

section Lines
variable [BEq V] {c : Channel Float V} (timeless : c.Timeless)
  (indifferent : tolerance = other ∨ 0.0 < tolerance ∧ 0.0 < other)
include timeless indifferent

theorem simplify1_timeless (project : V → Float) : c.simplify1 tolerance project = c.simplify1 other project := by
  let point (k : Keyframe Float V) : Vec2 Float := ⟨k.time, project k.value⟩
  refine simplify_timeless timeless (fun a m z _ undefined => ?_) indifferent
  exact @Distance.toLine2_undefined (point a) (point m) (point z) undefined

theorem simplify2_timeless (project : V → Vec2 Float) : c.simplify2 tolerance project = c.simplify2 other project := by
  let point (k : Keyframe Float V) : Vec3 Float := ⟨k.time, (project k.value).x, (project k.value).y⟩
  refine simplify_timeless timeless (fun a m z undefined undefined' => ?_) indifferent
  exact @Distance.toLine3_undefined (point a) (point m) (point z) undefined undefined'

theorem simplify3_timeless (project : V → Vec3 Float) : c.simplify3 tolerance project = c.simplify3 other project := by
  let point (k : Keyframe Float V) : Vec4 Float :=
    ⟨k.time, (project k.value).x, (project k.value).y, (project k.value).z⟩
  refine simplify_timeless timeless (fun a m z undefined undefined' => ?_) indifferent
  exact @Distance.toLine4_undefined (point a) (point m) (point z) undefined undefined'

end Lines

end Channel

namespace Capture
open Channel
variable {config other : Config Float} {bitmapSize : Vec2 Float} {timeOffset : Float}

/-- Settings between which an object without times cannot tell. -/
structure Indifferent (config other : Config Float) : Prop where
  settings : other = { config with tolerance := other.tolerance }
  tolerance (aspect : Aspect) : config.tolerance.get aspect = other.tolerance.get aspect ∨
    0.0 < config.tolerance.get aspect ∧ 0.0 < other.tolerance.get aspect

private theorem simplified_timeless (indifferent : Indifferent config other) {tracks : Tracks Float}
    (timeless : tracks.Each Timeless) : simplified config bitmapSize tracks = simplified other bitmapSize tracks := by
  have same := indifferent.tolerance
  have position : tracks.position.simplify2 config.tolerance.position id = _ :=
    simplify2_timeless timeless.position (same .position) id
  have scale : tracks.scale.simplify2 config.tolerance.scale (·.stretch bitmapSize) = _ :=
    simplify2_timeless timeless.scale (same .scale) _
  have rotation : tracks.rotation.simplify1 config.tolerance.rotation toDegrees = _ :=
    simplify1_timeless timeless.rotation (same .rotation) _
  have color : tracks.color.simplify3 config.tolerance.color Color.toByteScale = _ :=
    simplify3_timeless timeless.color (same .color) _
  have opacity : tracks.opacity.simplify1 config.tolerance.opacity (· * 100.0) = _ :=
    simplify1_timeless timeless.opacity (same .opacity) _
  rw [simplified, position, scale, rotation, color, opacity]
  rfl

private theorem close_timeless (indifferent : Indifferent config other) (tracks : Tracks Float) {span : Tracks Float}
    (timeless : span.Each Timeless) : close config bitmapSize tracks span = close other bitmapSize tracks span := by
  have rounded : other.roundOpacity = config.roundOpacity := by rw [indifferent.settings]; rfl
  have fades : faded config = faded other := by unfold faded; rw [rounded]
  rw [close, close, closeSpan, closeSpan]
  cases span.position.startTime with
  | none => rfl
  | some start => dsimp only; rw [simplified_timeless indifferent timeless, fades]

private theorem lay_timeless (indifferent : Indifferent config other) (undefined : timeOffset.isNaN = true)
    (tracks : Tracks Float) (recordings : List (List (State Float))) :
    lay config bitmapSize timeOffset tracks recordings = lay other bitmapSize timeOffset tracks recordings := by
  induction recordings generalizing tracks with
  | nil => rw [lay, lay, List.foldl_nil, List.foldl_nil]
  | cons recorded recordings ih =>
    have timeless : (Tracks.empty.recordAll timeOffset recorded).Each Timeless :=
      @recordAll_at Float _ (fun time => time.isNaN = true) _ _ (fun s _ => Binary64.add_undefined s.time undefined) _
        empty_at
    rw [lay, lay, List.foldl_cons, List.foldl_cons, close_timeless indifferent tracks timeless]
    exact ih _

/-- Without a defined offset both settings capture the same. -/
theorem run_timeless (indifferent : Indifferent config other) (undefined : timeOffset.isNaN = true)
    (visible : State Float → Bool) (states : List (State Float)) :
    (run config bitmapSize timeOffset visible states).tracks =
      (run other bitmapSize timeOffset visible states).tracks := by
  rw [(run_eq states).1, (run_eq states).1]
  exact lay_timeless indifferent undefined .empty _

end Capture
end Tween
