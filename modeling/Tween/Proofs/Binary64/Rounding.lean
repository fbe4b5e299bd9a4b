import Tween.Proofs.Binary64.Products
import Tween.State

/-! Equal doubles round alike. Only the two zeros are equal without being the same, and up to the
permitted number of places both round to themselves. -/

namespace Tween
namespace Binary64
open Float.Model (Format UnpackedFloat)
open Float.Model.UnpackedFloat

theorem beq_defined {x : Float} (defined : x.isNaN = false) : (x == x) = true := beq_iff.mpr ⟨defined, defined, rfl⟩

theorem beq_self {x : Float} (finite : x.isFinite = true) : (x == x) = true := beq_defined (defined_of_finite finite)

theorem isFinite_vec2 {v : Vec2 Float} : v.isFinite = true ↔ Float.isFinite v.x = true ∧ Float.isFinite v.y = true :=
  Bool.and_eq_true_iff

theorem isFinite_color {c : Color Float} : c.isFinite = true ↔
    (Float.isFinite c.red = true ∧ Float.isFinite c.green = true) ∧ Float.isFinite c.blue = true :=
  Bool.and_eq_true_iff.trans (and_congr_left fun _ => Bool.and_eq_true_iff)

theorem beq_self_vec2 {v : Vec2 Float} (finite : v.isFinite = true) : (v == v) = true := by
  obtain ⟨x, y⟩ := isFinite_vec2.mp finite
  exact Vec2.beq_iff.mpr ⟨beq_self x, beq_self y⟩

theorem beq_self_color {c : Color Float} (finite : c.isFinite = true) : (c == c) = true := by
  obtain ⟨⟨red, green⟩, blue⟩ := isFinite_color.mp finite
  exact Color.beq_iff.mpr ⟨beq_self red, beq_self green, beq_self blue⟩

private def IsZero (x : Float) : Prop := ∃ s, x.toModel.unpack = .zero s

private theorem parts_of_compare {u v : UnpackedFloat} (same : u.compare v = some .eq) :
    u = v ∨ ∃ s s', u = .zero s ∧ v = .zero s' := by
  have exponents {e f : Int} {m n : Nat} (same : (compare e f).then (compare m n) = .eq) : e = f ∧ m = n := by
    rw [Ordering.then_eq_eq, compare_eq_iff_eq, compare_eq_iff_eq] at same
    exact same
  cases u with
  | notANumber => cases same
  | infinity s =>
    cases v with
    | infinity s' => cases s <;> cases s' <;> first | exact Or.inl rfl | cases same
    | notANumber | zero _ | finite _ _ _ _ => cases s <;> cases same
  | zero s =>
    cases v with
    | zero s' => exact Or.inr ⟨s, s', rfl, rfl⟩
    | infinity s' | finite s' _ _ _ => cases s' <;> cases same
    | notANumber => cases same
  | finite s m e hm =>
    cases v with
    | notANumber => cases s <;> cases same
    | infinity s' => cases s <;> cases s' <;> cases same
    | zero s' => cases s <;> cases same
    | finite s' n f hn =>
      cases s <;> cases s'
      · obtain ⟨rfl, rfl⟩ := exponents (Ordering.swap_eq_eq.mp (Option.some.inj same))
        exact Or.inl rfl
      · cases same
      · cases same
      · obtain ⟨rfl, rfl⟩ := exponents (Option.some.inj same)
        exact Or.inl rfl

private theorem parts_of_beq {x y : Float} (same : (x == y) = true) :
    x.toModel.unpack = y.toModel.unpack ∨ (IsZero x ∧ IsZero y) := by
  have equal : (x.toModel.unpack.compare y.toModel.unpack == some .eq) = true := same
  rcases parts_of_compare (eq_of_beq equal) with parts | ⟨s, s', first, second⟩
  · exact Or.inl parts
  · exact Or.inr ⟨⟨s, first⟩, ⟨s', second⟩⟩

private theorem mul_parts {x y : Float} (same : x.toModel.unpack = y.toModel.unpack) (f : Float) : x * f = y * f := by
  have product (x : Float) : x * f = ⟨Float.Model.pack (mul .binary64 x.toModel.unpack f.toModel.unpack)⟩ := rfl
  rw [product, product, same]

private theorem mul_zero {x : Float} (zero : IsZero x) (f : Float) : x * f = 0.0 * f ∨ x * f = -0.0 * f := by
  obtain ⟨s, parts⟩ := zero
  cases s with
  | positive => exact Or.inl (mul_parts (parts.trans rfl) f)
  | negative => exact Or.inr (mul_parts (parts.trans rfl) f)

private theorem roundPlaces_zeros :
    ∀ n < 16, roundPlaces (0.0 : Float) (UInt32.ofNat n) = 0.0 ∧ roundPlaces (-0.0 : Float) (UInt32.ofNat n) = -0.0 := by
  decide +kernel

variable {places : UInt32}

theorem roundPlaces_zero (short : places ≤ Config.maxPlaces) :
    roundPlaces (0.0 : Float) places = 0.0 ∧ roundPlaces (-0.0 : Float) places = -0.0 := by
  have bound : places.toNat < 16 := Nat.lt_succ_of_le (UInt32.le_iff_toNat_le.mp short)
  have zeros := roundPlaces_zeros places.toNat bound
  rwa [UInt32.ofNat_toNat] at zeros

private theorem factors : ∀ n < 16, let factor : Float := Scalar.powerOfTen (placesExponent (UInt32.ofNat n))
    factor.isFinite = true ∧ (factor == 0.0) = false ∧ (factor = 1.0 ∨ 2.0 ≤ factor) := by
  decide +kernel

/-- The power of ten of a valid number of places is one or far greater. -/
private theorem factor_cases (short : places ≤ Config.maxPlaces) :
    let factor : Float := Scalar.powerOfTen (placesExponent places)
    factor.isFinite = true ∧ (factor == 0.0) = false ∧ (factor = 1.0 ∨ 2.0 ≤ factor) := by
  have bound : places.toNat < 16 := Nat.lt_succ_of_le (UInt32.le_iff_toNat_le.mp short)
  have cases := factors places.toNat bound
  rwa [UInt32.ofNat_toNat] at cases

/-- Rounding may end in an infinity but never leaves the numbers. -/
theorem roundPlaces_defined (short : places ≤ Config.maxPlaces) {x : Float} (defined : x.isNaN = false) :
    (roundPlaces x places).isNaN = false := by
  obtain ⟨finite, nonzero, _⟩ := factor_cases short
  exact div_defined (round_defined (mul_defined defined finite nonzero)) finite nonzero

/-- Only the product with the power of ten can overflow. -/
theorem roundPlaces_finite_iff (short : places ≤ Config.maxPlaces) (x : Float) :
    (roundPlaces x places).isFinite = true ↔
      (x * Scalar.powerOfTen (placesExponent places)).isFinite = true := by
  obtain ⟨finite, _, size⟩ := factor_cases short
  change (round (x * Scalar.powerOfTen (placesExponent places)) / _).isFinite = true ↔ _
  generalize (Scalar.powerOfTen (placesExponent places) : Float) = factor at *
  cases product : (x * factor).isFinite with
  | false =>
    rw [round_infinite product, infinite_div product finite]
  | true =>
    have rounded := round_finite product
    refine iff_of_true ?_ rfl
    rcases size with rfl | two
    · exact div_one_finite rounded
    · exact div_finite_of_two_le rounded finite two

theorem roundPlaces_undefined (places : UInt32) {x : Float} (undefined : x.isNaN = true) :
    (roundPlaces x places).isNaN = true := by
  refine div_undefined ?_ _
  have product := @mul_undefined x (Scalar.powerOfTen (placesExponent places)) (Or.inl undefined)
  exact (congrArg Float.isNaN (round_undefined product)).trans product

/-- With any number of places nothing is rounded to nothing, or to no number at all. -/
theorem roundPlaces_nothing (places : UInt32) : ¬0.0 < roundPlaces (0.0 : Float) places := by
  have rounded : round (0.0 : Float) = 0.0 ∧ round (-0.0 : Float) = -0.0 := by decide +kernel
  have whole (x y : Float) (same : 0.0 * y = x) (zero : (round x == 0.0) = true) :
      ¬0.0 < round (0.0 * y) / y := by
    rw [same]
    intro above
    rcases div_nothing zero y with nothing | undefined
    · exact Scalar.OrderLaws.not_le_of_lt above (Scalar.OrderLaws.le_of_beq nothing)
    · exact Bool.false_ne_true ((lt_iff.mp above).2.1.symm.trans undefined)
  change ¬0.0 < round (0.0 * Scalar.powerOfTen (placesExponent places)) / _
  rcases zero_mul_cases (Scalar.powerOfTen (placesExponent places)) with same | same | undefined
  · exact whole _ _ same (by rw [rounded.1]; decide)
  · exact whole _ _ same (by rw [rounded.2]; decide)
  · intro above
    have none := div_undefined ((congrArg Float.isNaN (round_undefined undefined)).trans undefined)
      (Scalar.powerOfTen (placesExponent places))
    exact Bool.false_ne_true ((lt_iff.mp above).2.1.symm.trans none)

/-- The digits of a product with either zero, or with the same double. -/
private theorem product_cases {x y : Float} (same : (x == y) = true) (f : Float) :
    x * f = y * f ∨ ((x * f = 0.0 * f ∨ x * f = -0.0 * f) ∧ (y * f = 0.0 * f ∨ y * f = -0.0 * f)) :=
  (parts_of_beq same).imp (mul_parts · f) fun ⟨first, second⟩ => ⟨mul_zero first f, mul_zero second f⟩

theorem roundPlaces_congr (short : places ≤ Config.maxPlaces) {x y : Float} (same : (x == y) = true) :
    (roundPlaces x places == roundPlaces y places) = true := by
  obtain ⟨up, down⟩ := roundPlaces_zero short
  have defined := roundPlaces_defined short (beq_iff.mp same).1
  rw [roundPlaces] at up down defined ⊢
  rw [roundPlaces]
  rcases product_cases same (Scalar.powerOfTen (placesExponent places)) with products | ⟨first | first, second | second⟩
  · rw [← products]
    exact beq_defined defined
  all_goals
    rw [first, second]
    simp only [up, down]
    decide

/-- A colour component in byte scale, rounded, and back. -/
theorem roundByte_defined (short : places ≤ Config.maxPlaces) {x : Float} (defined : x.isNaN = false) :
    (roundPlaces (x * 255.0) places / 255.0).isNaN = false :=
  div_defined (roundPlaces_defined short (mul_defined defined (by decide) (by decide))) (by decide) (by decide)

theorem roundByte_finite_iff (short : places ≤ Config.maxPlaces) (x : Float) :
    (roundPlaces (x * 255.0) places / 255.0).isFinite = true ↔
      (x * 255.0 * Scalar.powerOfTen (placesExponent places)).isFinite = true := by
  rw [← roundPlaces_finite_iff short]
  cases rounded : (roundPlaces (x * 255.0) places).isFinite with
  | false => rw [infinite_div rounded (by decide)]
  | true => exact iff_of_true (div_finite_of_two_le rounded (by decide) (by decide)) rfl

private theorem roundByte_congr (short : places ≤ Config.maxPlaces) {x y : Float} (same : (x == y) = true) :
    (roundPlaces (x * 255.0) places / 255.0 == roundPlaces (y * 255.0) places / 255.0) = true := by
  have up : (0.0 : Float) * 255.0 = 0.0 := by decide
  have down : (-0.0 : Float) * 255.0 = -0.0 := by decide
  rcases product_cases same 255.0 with products | ⟨first | first, second | second⟩
  · rw [← products]
    exact beq_defined (roundByte_defined short (beq_iff.mp same).1)
  all_goals
    rw [first, second]
    simp only [up, down, (roundPlaces_zero short).1, (roundPlaces_zero short).2]
    decide

end Binary64

namespace Config
open Binary64
variable {config : Config Float}

theorem places_short (valid : config.fault? = none) (aspect : Aspect) : config.places.get aspect ≤ maxPlaces := by
  have none := (Option.or_eq_none_iff.mp (Option.or_eq_none_iff.mp valid).2).1
  have all : aspect ∈ Aspect.all := by cases aspect <;> decide
  have short := List.findSome?_eq_none_iff.mp none aspect all
  simpa using short

/-- Nothing overflows when the state is moved in time and its values are rounded. -/
structure Moderate (config : Config Float) (timeOffset : Float) (s : State Float) : Prop where
  time : (s.time + timeOffset).isFinite = true
  position : (config.roundPosition s.position).isFinite = true
  scale : (config.roundScale s.scale).isFinite = true
  rotation : Float.isFinite (config.roundRotation s.rotation) = true
  color : (config.roundColor s.color).isFinite = true
  opacity : Float.isFinite (config.roundOpacity s.opacity) = true

instance (config : Config Float) (timeOffset : Float) (s : State Float) : Decidable (config.Moderate timeOffset s) :=
  decidable_of_iff ((s.time + timeOffset).isFinite ∧ (config.roundPosition s.position).isFinite ∧
      (config.roundScale s.scale).isFinite ∧ Float.isFinite (config.roundRotation s.rotation) ∧
      (config.roundColor s.color).isFinite ∧ Float.isFinite (config.roundOpacity s.opacity))
    ⟨fun ⟨time, position, scale, rotation, color, opacity⟩ => ⟨time, position, scale, rotation, color, opacity⟩,
      fun ⟨time, position, scale, rotation, color, opacity⟩ => ⟨time, position, scale, rotation, color, opacity⟩⟩

/-- A value with its last decimal place in front of the point. -/
def magnified (config : Config Float) (aspect : Aspect) (x : Float) : Float :=
  x * Scalar.powerOfTen (placesExponent (config.places.get aspect))

/-- The products on the way to the rounded values of the state do not overflow, and neither does
its time. -/
structure Fits (config : Config Float) (timeOffset : Float) (s : State Float) : Prop where
  time : (s.time + timeOffset).isFinite = true
  position : (s.position.map (config.magnified .position)).isFinite = true
  scale : (s.scale.map (config.magnified .scale)).isFinite = true
  rotation : Float.isFinite (config.magnified .rotation s.rotation) = true
  red : Float.isFinite (config.magnified .color (s.color.red * 255.0)) = true
  green : Float.isFinite (config.magnified .color (s.color.green * 255.0)) = true
  blue : Float.isFinite (config.magnified .color (s.color.blue * 255.0)) = true
  opacity : Float.isFinite (config.magnified .opacity s.opacity) = true

instance (config : Config Float) (timeOffset : Float) (s : State Float) : Decidable (config.Fits timeOffset s) :=
  decidable_of_iff ((s.time + timeOffset).isFinite ∧ (s.position.map (config.magnified .position)).isFinite ∧
      (s.scale.map (config.magnified .scale)).isFinite ∧ Float.isFinite (config.magnified .rotation s.rotation) ∧
      Float.isFinite (config.magnified .color (s.color.red * 255.0)) ∧
      Float.isFinite (config.magnified .color (s.color.green * 255.0)) ∧
      Float.isFinite (config.magnified .color (s.color.blue * 255.0)) ∧
      Float.isFinite (config.magnified .opacity s.opacity))
    ⟨fun ⟨time, position, scale, rotation, red, green, blue, opacity⟩ =>
        ⟨time, position, scale, rotation, red, green, blue, opacity⟩,
      fun ⟨time, position, scale, rotation, red, green, blue, opacity⟩ =>
        ⟨time, position, scale, rotation, red, green, blue, opacity⟩⟩

/-- Rounding overflows in none but these products. -/
theorem moderate_iff_fits (valid : config.fault? = none) {timeOffset : Float} {s : State Float} :
    config.Moderate timeOffset s ↔ config.Fits timeOffset s := by
  have number (aspect : Aspect) (x : Float) :
      (roundPlaces x (config.places.get aspect)).isFinite = true ↔ (config.magnified aspect x).isFinite = true :=
    roundPlaces_finite_iff (places_short valid aspect) x
  have byte (x : Float) : (roundPlaces (x * 255.0) config.places.color / 255.0).isFinite = true ↔
      (config.magnified .color (x * 255.0)).isFinite = true := roundByte_finite_iff (places_short valid .color) x
  have vector (aspect : Aspect) (v : Vec2 Float) :
      (v.map (roundPlaces · (config.places.get aspect))).isFinite = true ↔
        (v.map (config.magnified aspect)).isFinite = true := by
    rw [isFinite_vec2, isFinite_vec2]
    exact and_congr (number aspect v.x) (number aspect v.y)
  constructor
  · rintro ⟨time, position, scale, rotation, color, opacity⟩
    obtain ⟨⟨red, green⟩, blue⟩ := isFinite_color.mp color
    exact ⟨time, (vector .position _).mp position, (vector .scale _).mp scale, (number .rotation _).mp rotation,
      (byte _).mp red, (byte _).mp green, (byte _).mp blue, (number .opacity _).mp opacity⟩
  · rintro ⟨time, position, scale, rotation, red, green, blue, opacity⟩
    have color := And.intro (And.intro ((byte _).mpr red) ((byte _).mpr green)) ((byte _).mpr blue)
    exact ⟨time, (vector .position _).mpr position, (vector .scale _).mpr scale, (number .rotation _).mpr rotation,
      isFinite_color.mpr color, (number .opacity _).mpr opacity⟩

section Congr
variable (valid : config.fault? = none)
include valid

private theorem vec_congr (aspect : Aspect) {v w : Vec2 Float} (same : (v == w) = true) :
    (v.map (roundPlaces · (config.places.get aspect)) == w.map (roundPlaces · (config.places.get aspect))) = true := by
  obtain ⟨x, y⟩ := Vec2.beq_iff.mp same
  have short := places_short valid aspect
  exact Vec2.beq_iff.mpr ⟨roundPlaces_congr short x, roundPlaces_congr short y⟩

theorem roundPosition_congr {v w : Vec2 Float} (same : (v == w) = true) :
    (config.roundPosition v == config.roundPosition w) = true := vec_congr valid .position same

theorem roundScale_congr {v w : Vec2 Float} (same : (v == w) = true) :
    (config.roundScale v == config.roundScale w) = true := vec_congr valid .scale same

theorem roundRotation_congr {x y : Float} (same : (x == y) = true) :
    (config.roundRotation x == config.roundRotation y) = true :=
  roundPlaces_congr (places_short valid .rotation) same

theorem roundOpacity_congr {x y : Float} (same : (x == y) = true) :
    (config.roundOpacity x == config.roundOpacity y) = true :=
  roundPlaces_congr (places_short valid .opacity) same

theorem roundOpacity_zero : config.roundOpacity 0.0 = 0.0 := (roundPlaces_zero (places_short valid .opacity)).1

theorem roundColor_congr {c d : Color Float} (same : (c == d) = true) :
    (config.roundColor c == config.roundColor d) = true := by
  obtain ⟨red, green, blue⟩ := Color.beq_iff.mp same
  have short := places_short valid .color
  exact Color.beq_iff.mpr ⟨roundByte_congr short red, roundByte_congr short green, roundByte_congr short blue⟩

end Congr

end Config
end Tween
