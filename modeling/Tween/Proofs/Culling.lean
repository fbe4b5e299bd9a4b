import Mathlib.Analysis.Convex.Segment
import Tween.Proofs.Exact.Beginning
import Tween.Proofs.Exact.Rounding
import Tween.Visibility

/-! What is left out because it lies off the canvas. The box around an object reaches a side of the
canvas exactly if one of its corners does, and if any point of the object does, then a corner does,
whichever way the object is turned. An object that is not turned fills its box. -/

namespace Tween

section Specification
variable {α : Type} [Scalar α]

/-- Whether a point is on the canvas, borders included. -/
def Canvas.Holds (canvas : Canvas α) (p : Vec2 α) : Prop :=
  canvas.left ≤ p.x ∧ p.x ≤ canvas.right ∧ canvas.top ≤ p.y ∧ p.y ≤ canvas.bottom

theorem Canvas.touches_iff (canvas : Canvas α) (box : Box α) : canvas.touches box = true ↔
    (canvas.left ≤ box.upper.x ∧ box.lower.x ≤ canvas.right) ∧
      canvas.top ≤ box.upper.y ∧ box.lower.y ≤ canvas.bottom := by
  simp [Canvas.touches, and_assoc]

namespace State

/-- The point of a bitmap at fractions `u` and `v` of its sides: taken from the anchor, turned, and
moved to the position. -/
def spot (size anchor position : Vec2 α) (cos sin u v : α) : Vec2 α :=
  let x := u * size.x - anchor.x
  let y := v * size.y - anchor.y
  ⟨cos * x - sin * y + position.x, sin * x + cos * y + position.y⟩

/-- Some point of the object, with rounded values, is on the canvas. -/
def Overlaps (s : State α) (bitmapSize : Vec2 α) (origin : Origin) (config : Config α) : Prop :=
  let size := bitmapSize.stretch (config.roundScale s.scale)
  let rotation := config.roundRotation s.rotation
  ∃ u v : α, (0.0 ≤ u ∧ u ≤ 1.0) ∧ (0.0 ≤ v ∧ v ≤ 1.0) ∧
    config.canvas.Holds (spot size (origin.offset.stretch size) (config.roundPosition s.position)
      (Scalar.cos rotation) (Scalar.sin rotation) u v)

/-- There is something to see of an object, wherever it is. -/
structure Extant (s : State α) (config : Config α) : Prop where
  lit : ¬(s.additive = true ∧ (config.roundColor s.color == Color.black) = true)
  solid : ¬config.roundOpacity s.opacity ≤ 0.0
  wide : ¬(config.roundScale s.scale).x ≤ 0.0
  tall : ¬(config.roundScale s.scale).y ≤ 0.0

theorem Extant.isVisible {s : State α} {config : Config α} (extant : s.Extant config) (bitmapSize : Vec2 α)
    (origin : Origin) :
    s.isVisible bitmapSize origin config = config.canvas.touches (s.footprint bitmapSize origin config) := by
  have unlit : ¬(s.additive && config.roundColor s.color == Color.black) = true := by
    simpa using extant.lit
  simp only [State.isVisible]
  rw [if_neg unlit, if_neg extant.solid, if_neg (not_or.mpr ⟨extant.wide, extant.tall⟩)]

end State
end Specification

def Box.including (box : Box ℝ) (p : Vec2 ℝ) : Box ℝ where
  lower := ⟨min box.lower.x p.x, min box.lower.y p.y⟩
  upper := ⟨max box.upper.x p.x, max box.upper.y p.y⟩

theorem Box.around_including (point : Vec2 ℝ) (more : List (Vec2 ℝ)) :
    Box.around point more = more.foldl Box.including ⟨point, point⟩ := by
  have step (box : Box ℝ) (p : Vec2 ℝ) : box.including p =
      { lower := ⟨if box.lower.x ≤ p.x then box.lower.x else p.x, if box.lower.y ≤ p.y then box.lower.y else p.y⟩
        upper := ⟨if p.x ≤ box.upper.x then box.upper.x else p.x, if p.y ≤ box.upper.y then box.upper.y else p.y⟩ } := by
    simp only [Box.including, min_def, max_comm box.upper.x, max_comm box.upper.y, max_def]
  rw [Box.around]
  congr 1
  funext box p
  exact (step box p).symm

private theorem Canvas.touches_grown (canvas : Canvas ℝ) (box : Box ℝ) (more : List (Vec2 ℝ)) :
    canvas.touches (more.foldl Box.including box) = true ↔
      ((canvas.left ≤ box.upper.x ∨ ∃ p ∈ more, canvas.left ≤ p.x) ∧
          (box.lower.x ≤ canvas.right ∨ ∃ p ∈ more, p.x ≤ canvas.right)) ∧
        (canvas.top ≤ box.upper.y ∨ ∃ p ∈ more, canvas.top ≤ p.y) ∧
          (box.lower.y ≤ canvas.bottom ∨ ∃ p ∈ more, p.y ≤ canvas.bottom) := by
  induction more generalizing box with
  | nil => simp [Canvas.touches_iff, and_assoc]
  | cons p more ih =>
    rw [List.foldl_cons, ih]
    simp only [Box.including, le_max_iff, min_le_iff, List.exists_mem_cons_iff, or_assoc]

theorem Canvas.touches_around (canvas : Canvas ℝ) (point : Vec2 ℝ) (more : List (Vec2 ℝ)) :
    canvas.touches (Box.around point more) = true ↔
      ((∃ p ∈ point :: more, canvas.left ≤ p.x) ∧ ∃ p ∈ point :: more, p.x ≤ canvas.right) ∧
        (∃ p ∈ point :: more, canvas.top ≤ p.y) ∧ ∃ p ∈ point :: more, p.y ≤ canvas.bottom := by
  rw [Box.around_including, Canvas.touches_grown]
  simp only [List.exists_mem_cons_iff]

namespace State

private theorem end_reaches {bound a b u : ℝ} (start : 0 ≤ u) (stop : u ≤ 1) (reached : bound ≤ a + u * b) :
    bound ≤ a ∨ bound ≤ a + b := by
  rcases le_total b 0 with falls | rises
  · exact .inl (reached.trans (add_le_of_nonpos_right (mul_nonpos_of_nonneg_of_nonpos start falls)))
  · exact .inr (reached.trans (add_le_add_right (mul_le_of_le_one_left rises stop) a))

/-- Holds of one of the numbers that the corners of a parallelogram have along an axis. -/
def AtCorner (side : ℝ → Prop) (first across down : ℝ) : Prop :=
  side first ∨ side (first + across) ∨ side (first + down) ∨ side (first + across + down)

theorem atCorner_row {side : ℝ → Prop} {first across : ℝ} :
    AtCorner side first across 0 ↔ side first ∨ side (first + across) := by
  simp only [AtCorner, add_zero]
  tauto

theorem atCorner_column {side : ℝ → Prop} {first down : ℝ} :
    AtCorner side first 0 down ↔ side first ∨ side (first + down) := by
  simp only [AtCorner, add_zero]
  tauto

/-- What is linear along either side of a parallelogram is largest in a corner. -/
private theorem corner_reaches {bound a b c u v : ℝ} (across : 0 ≤ u ∧ u ≤ 1) (down : 0 ≤ v ∧ v ≤ 1)
    (reached : bound ≤ a + u * b + v * c) : AtCorner (bound ≤ ·) a b c := by
  rcases end_reaches down.1 down.2 reached with upper | lower
  · rcases end_reaches across.1 across.2 upper with left | right
    · exact .inl left
    · exact .inr (.inl right)
  · rw [add_right_comm] at lower
    rcases end_reaches across.1 across.2 lower with left | right
    · exact .inr (.inr (.inl left))
    · exact .inr (.inr (.inr (by rwa [add_right_comm])))

private theorem corner_reached {bound a b c u v : ℝ} (across : 0 ≤ u ∧ u ≤ 1) (down : 0 ≤ v ∧ v ≤ 1)
    (reached : a + u * b + v * c ≤ bound) : AtCorner (· ≤ bound) a b c := by
  have mirrored : -bound ≤ -a + u * -b + v * -c := by linarith
  have corner := corner_reaches across down mirrored
  simpa only [AtCorner, ← neg_add, neg_le_neg_iff] using corner

variable (canvas : Canvas ℝ) (size anchor position : Vec2 ℝ) (cos sin : ℝ)

/-- A point of the object is as far from its first corner along either side as its fractions say. -/
theorem spot_eq (u v : ℝ) :
    let first := (corners size anchor position cos sin).1
    spot size anchor position cos sin u v =
      ⟨first.x + u * (cos * size.x) + v * -(sin * size.y), first.y + u * (sin * size.x) + v * (cos * size.y)⟩ := by
  have zero : (0.0 : ℝ) = 0 := by norm_num
  refine congrArg₂ Vec2.mk ?_ ?_
  · change cos * (u * size.x - anchor.x) - sin * (v * size.y - anchor.y) + position.x =
      cos * (0.0 - anchor.x) + -sin * (0.0 - anchor.y) + position.x + u * (cos * size.x) + v * -(sin * size.y)
    rw [zero]
    ring
  · change sin * (u * size.x - anchor.x) + cos * (v * size.y - anchor.y) + position.y =
      sin * (0.0 - anchor.x) + cos * (0.0 - anchor.y) + position.y + u * (sin * size.x) + v * (cos * size.y)
    rw [zero]
    ring

private theorem place_eq {u v x y : ℝ} (along : u * size.x = x) (below : v * size.y = y) :
    (⟨x, y⟩ - anchor : Vec2 ℝ).turnedBy cos sin + position = spot size anchor position cos sin u v := by
  subst along below
  refine congrArg (Vec2.mk · _) ?_
  change cos * (u * size.x - anchor.x) + -sin * (v * size.y - anchor.y) + position.x =
    cos * (u * size.x - anchor.x) - sin * (v * size.y - anchor.y) + position.x
  ring

theorem corners_spots : (corners size anchor position cos sin).2 =
    [spot size anchor position cos sin 1 0, spot size anchor position cos sin 0 1,
      spot size anchor position cos sin 1 1] := by
  have no (side : ℝ) : 0 * side = 0.0 := by norm_num
  have whole (side : ℝ) : 1 * side = side := one_mul side
  rw [← place_eq size anchor position cos sin (whole _) (no _), ← place_eq size anchor position cos sin (no _) (whole _),
    ← place_eq size anchor position cos sin (whole _) (whole _)]
  rfl

theorem touches_corners (corners : Vec2 ℝ × List (Vec2 ℝ))
    (placed : corners = State.corners size anchor position cos sin) :
    canvas.touches (Box.around corners.1 corners.2) = true ↔
      (AtCorner (canvas.left ≤ ·) corners.1.x (cos * size.x) (-(sin * size.y)) ∧
          AtCorner (· ≤ canvas.right) corners.1.x (cos * size.x) (-(sin * size.y))) ∧
        AtCorner (canvas.top ≤ ·) corners.1.y (sin * size.x) (cos * size.y) ∧
          AtCorner (· ≤ canvas.bottom) corners.1.y (sin * size.x) (cos * size.y) := by
  subst placed
  rw [Canvas.touches_around, corners_spots]
  simp only [spot_eq, List.exists_mem_cons_iff, List.not_mem_nil, false_and, exists_false, or_false, one_mul,
    zero_mul, add_zero]
  exact Iff.rfl

variable {canvas size anchor position cos sin}

theorem touches_of_spot {u v : ℝ} (across : 0 ≤ u ∧ u ≤ 1) (down : 0 ≤ v ∧ v ≤ 1)
    (held : canvas.Holds (spot size anchor position cos sin u v)) :
    let corners := corners size anchor position cos sin
    canvas.touches (Box.around corners.1 corners.2) = true := by
  intro corners
  rw [spot_eq] at held
  obtain ⟨left, right, top, bottom⟩ := held
  refine (touches_corners canvas _ _ _ _ _ corners rfl).mpr ?_
  exact ⟨⟨corner_reaches across down left, corner_reached across down right⟩,
    corner_reaches across down top, corner_reached across down bottom⟩

/-- Between two numbers that lie on either side of an interval, or in it, some number lies in it. -/
private theorem between_meets {lower upper start length : ℝ} (ordered : lower ≤ upper)
    (above : lower ≤ start ∨ lower ≤ start + length) (below : start ≤ upper ∨ start + length ≤ upper) :
    ∃ u, (0 ≤ u ∧ u ≤ 1) ∧ lower ≤ start + u * length ∧ start + u * length ≤ upper := by
  rw [← le_max_iff] at above
  rw [← min_le_iff] at below
  have meets : max lower (min start (start + length)) ∈ segment ℝ start (start + length) := by
    rw [segment_eq_uIcc]
    exact ⟨le_max_right _ _, max_le above min_le_max⟩
  rw [segment_eq_image', add_sub_cancel_left] at meets
  obtain ⟨u, within, found⟩ := meets
  change start + u * length = _ at found
  refine ⟨u, within, ?_⟩
  rw [found]
  exact ⟨le_max_left _ _, max_le ordered below⟩

theorem spot_of_touches (wide : canvas.left ≤ canvas.right) (tall : canvas.top ≤ canvas.bottom)
    (touches : let corners := corners size anchor position 1 0
      canvas.touches (Box.around corners.1 corners.2) = true) :
    ∃ u v : ℝ, (0 ≤ u ∧ u ≤ 1) ∧ (0 ≤ v ∧ v ≤ 1) ∧ canvas.Holds (spot size anchor position 1 0 u v) := by
  obtain ⟨⟨left, right⟩, top, bottom⟩ := (touches_corners canvas _ _ _ _ _ _ rfl).mp touches
  simp only [one_mul, zero_mul, neg_zero, atCorner_row, atCorner_column] at left right top bottom
  obtain ⟨u, across, row⟩ := between_meets wide left right
  obtain ⟨v, down, column⟩ := between_meets tall top bottom
  refine ⟨u, v, across, down, ?_⟩
  rw [spot_eq]
  simp only [one_mul, zero_mul, neg_zero, mul_zero, add_zero]
  exact ⟨row.1, row.2, column.1, column.2⟩

/-- Nothing is left out that has a point on the canvas, whatever the cosine and the sine of its rotation
are taken for. An object that is not turned is kept only if it has such a point. -/
theorem visible_of_overlaps (functions : Functions ℝ) :
    letI := Scalar.ofField functions
    ∀ (s : State ℝ) (bitmapSize : Vec2 ℝ) (origin : Origin) (config : Config ℝ), s.Extant config →
      (s.Overlaps bitmapSize origin config → s.isVisible bitmapSize origin config = true) ∧
        (functions.cos (config.roundRotation s.rotation) = 1 → functions.sin (config.roundRotation s.rotation) = 0 →
          config.canvas.left ≤ config.canvas.right → config.canvas.top ≤ config.canvas.bottom →
          s.isVisible bitmapSize origin config = true → s.Overlaps bitmapSize origin config) := by
  intro s bitmapSize origin config extant
  have unit (u : ℝ) : (0.0 ≤ u ∧ u ≤ 1.0) ↔ 0 ≤ u ∧ u ≤ 1 := by norm_num
  rw [@Extant.isVisible ℝ (.ofField functions) s config extant]
  constructor
  · rintro ⟨u, v, across, down, held⟩
    exact touches_of_spot ((unit u).mp across) ((unit v).mp down) held
  · intro straight level wide tall touches
    simp only [footprint] at touches
    change Canvas.touches _ (Box.around (corners _ _ _ (functions.cos _) (functions.sin _)).1
      (corners _ _ _ (functions.cos _) (functions.sin _)).2) = true at touches
    rw [straight, level] at touches
    obtain ⟨u, v, across, down, held⟩ := spot_of_touches wide tall touches
    refine ⟨u, v, (unit u).mpr across, (unit v).mpr down, ?_⟩
    change Canvas.Holds _ (spot _ _ _ (functions.cos _) (functions.sin _) u v)
    rw [straight, level]
    exact held

noncomputable def wholes : Config ℝ := { Config.standard with places := ⟨0, 0, 0, 0, 0⟩ }

/-- An object whose centre is as far from the left border as half of a bitmap twenty wide. -/
noncomputable def grazing : State ℝ := { State.neutral 0 with position := ⟨(-117 : ℤ), (10 : ℤ)⟩ }

private theorem roundPlaces_whole {x : ℝ} (n : ℤ) (whole : x = n) : roundPlaces x 0 = x := by
  have last : lastPlace 0 = 1 := by
    have exponent : placesExponent 0 = 0 := by decide
    rw [lastPlace, exponent, neg_zero, zpow_zero]
  have kept := (roundPlaces_rounding 0).fixed n
  rw [last, mul_one, ← whole] at kept
  exact kept

theorem visible_of_overlaps_grazing :
    grazing.Extant wholes ∧ Scalar.cos (wholes.roundRotation grazing.rotation) = 1 ∧
      Scalar.sin (wholes.roundRotation grazing.rotation) = 0 ∧ wholes.canvas.left ≤ wholes.canvas.right ∧
      wholes.canvas.top ≤ wholes.canvas.bottom ∧ grazing.Overlaps ⟨20, 20⟩ .centre wholes ∧
      grazing.isVisible ⟨20, 20⟩ .centre wholes = true := by
  have one : roundPlaces (1.0 : ℝ) 0 = 1.0 := roundPlaces_whole 1 (by norm_num)
  have opacity : wholes.roundOpacity grazing.opacity = 1.0 := one
  have scale : wholes.roundScale grazing.scale = ⟨1.0, 1.0⟩ := congrArg₂ Vec2.mk one one
  have still : grazing.rotation = 0 := by norm_num [grazing, neutral]
  have rotation : wholes.roundRotation grazing.rotation = 0 := by
    rw [← still]
    exact roundPlaces_whole 0 (by simpa using still)
  have position : wholes.roundPosition grazing.position = grazing.position :=
    congrArg₂ Vec2.mk (roundPlaces_whole _ rfl) (roundPlaces_whole _ rfl)
  have extant : grazing.Extant wholes := by
    refine ⟨fun lit => Bool.false_ne_true lit.1, ?_, ?_, ?_⟩
    all_goals norm_num [opacity, scale]
  have cos : Scalar.cos (wholes.roundRotation grazing.rotation) = 1 := by rw [rotation]; exact Real.cos_zero
  have sin : Scalar.sin (wholes.roundRotation grazing.rotation) = 0 := by rw [rotation]; exact Real.sin_zero
  have level : wholes.canvas.left ≤ wholes.canvas.right := by norm_num [wholes, Config.standard, Canvas.wide]
  have upright : wholes.canvas.top ≤ wholes.canvas.bottom := by norm_num [wholes, Config.standard, Canvas.wide]
  have overlaps : grazing.Overlaps ⟨20, 20⟩ .centre wholes := by
    refine ⟨1, 1 / 2, by norm_num, by norm_num, ?_⟩
    rw [cos, sin, position, scale]
    norm_num [spot, Canvas.Holds, wholes, Config.standard, Canvas.wide, Origin.offset, Vec2.stretch, grazing]
  obtain ⟨kept, needed⟩ := visible_of_overlaps _ grazing ⟨20, 20⟩ .centre wholes extant
  exact ⟨extant, cos, sin, level, upright, needed cos sin level upright (kept overlaps), kept overlaps⟩

end State
end Tween
