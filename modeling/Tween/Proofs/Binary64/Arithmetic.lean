import Tween.Blend
import Tween.Config
import Tween.Proofs.Binary64.Sum

/-! What the rest of the library needs to know about the arithmetic of doubles: adding keeps the
order, and at its start a way has made no progress. -/

namespace Tween.Binary64
open Float.Model (Format UnpackedFloat)
open Float.Model.UnpackedFloat

theorem defined_of_finite {x : Float} (finite : x.isFinite = true) : x.isNaN = false := by
  change x.toModel.unpack.isNaN = false
  change x.toModel.unpack.isFinite = true at finite
  cases parts : x.toModel.unpack with
  | notANumber => exact Bool.noConfusion (parts ▸ finite)
  | infinity _ | zero _ | finite _ _ _ _ => rfl

theorem unitsOf_add {x y : Float} (finite : x.isFinite = true) (finite' : y.isFinite = true) :
    (x + y).isNaN = false ∧ unitsOf (x + y) = held (unitsOf x + unitsOf y) :=
  add_units (regular x) (regular y) finite finite'

private theorem sub_eq_add_neg (u v : UnpackedFloat) : sub .binary64 u v = add .binary64 u v.neg := by
  have opposite (s : Sign) (n : Int) : (-s).apply n = -s.apply n := by
    cases s
    · exact (Int.neg_neg n).symm
    · rfl
  cases u with
  | notANumber | infinity _ | zero _ => cases v <;> rfl
  | finite s m e hm =>
    cases v with
    | notANumber | infinity _ | zero _ => rfl
    | finite s' n f hn =>
      change normalize .binary64 (s.apply _ - s'.apply (decreaseExponent n f (min e f)).1) _ _ =
        normalize .binary64 (s.apply _ + (-s').apply (decreaseExponent n f (min e f)).1) _ _
      rw [opposite, Int.sub_eq_add_neg]

private theorem neg_units {u : UnpackedFloat} (form : Regular u) (finite : u.isFinite = true) :
    Regular u.neg ∧ u.neg.isFinite = true ∧ units u.neg = -units u := by
  cases u with
  | notANumber | infinity _ => contradiction
  | zero s => exact ⟨trivial, rfl, rfl⟩
  | finite s m e hm =>
    refine ⟨form, rfl, ?_⟩
    cases s
    · exact (Int.neg_neg _).symm
    · rfl

theorem unitsOf_sub {x y : Float} (finite : x.isFinite = true) (finite' : y.isFinite = true) :
    (x - y).isNaN = false ∧ unitsOf (x - y) = held (unitsOf x - unitsOf y) := by
  obtain ⟨negated, bounded, opposite⟩ := neg_units (regular y) finite'
  have sum := add_units (regular x) negated finite bounded
  rw [opposite, ← sub_eq_add_neg] at sum
  exact sum

theorem add_parts (x c : Float) :
    (x + c).toModel.unpack = unpack .binary64 (pack .binary64 (add .binary64 x.toModel.unpack c.toModel.unpack)) := rfl

theorem add_undefined (x : Float) {c : Float} (undefined : c.isNaN = true) : (x + c).isNaN = true := by
  change c.toModel.unpack.isNaN = true at undefined
  change (x + c).toModel.unpack.isNaN = true
  rw [add_parts]
  cases parts : c.toModel.unpack with
  | notANumber =>
    have none : add .binary64 x.toModel.unpack .notANumber = .notANumber := by cases x.toModel.unpack <;> rfl
    rw [none, unpack_pack (u := .notANumber) trivial]
    rfl
  | infinity _ | zero _ | finite _ _ _ _ => exact Bool.noConfusion (parts ▸ undefined)

private theorem add_infinite {x c : Float} {s : Sign} (finite : x.isFinite = true)
    (infinite : c.toModel.unpack = .infinity s) : (x + c).toModel.unpack = .infinity s := by
  change x.toModel.unpack.isFinite = true at finite
  rw [add_parts, infinite]
  cases parts : x.toModel.unpack with
  | notANumber | infinity _ => exact Bool.noConfusion (parts ▸ finite)
  | zero _ | finite _ _ _ _ => exact unpack_pack (u := .infinity s) trivial

/-- Moving finite numbers keeps their order, even if they end up infinite. -/
theorem add_le_add_right {x y c : Float} (ordered : x ≤ y) (finite : x.isFinite = true) (finite' : y.isFinite = true)
    (shift : c.isNaN = false) : x + c ≤ y + c := by
  cases kind : c.isFinite with
  | true =>
    obtain ⟨defined, sum⟩ := unitsOf_add finite kind
    obtain ⟨defined', sum'⟩ := unitsOf_add finite' kind
    refine le_iff.mpr ⟨defined, defined', ?_⟩
    rw [sum, sum']
    exact held_mono (Int.add_le_add_right (le_iff.mp ordered).2.2 _)
  | false =>
    obtain ⟨s, infinite⟩ : ∃ s, c.toModel.unpack = .infinity s := by
      change c.toModel.unpack.isFinite = false at kind
      change c.toModel.unpack.isNaN = false at shift
      cases parts : c.toModel.unpack with
      | infinity s => exact ⟨s, rfl⟩
      | notANumber => exact Bool.noConfusion (parts ▸ shift)
      | zero _ | finite _ _ _ _ => exact Bool.noConfusion (parts ▸ kind)
    have defined (x : Float) (finite : x.isFinite = true) : (x + c).isNaN = false := by
      change (x + c).toModel.unpack.isNaN = false
      rw [add_infinite finite infinite]
      rfl
    refine le_iff.mpr ⟨defined x finite, defined y finite', ?_⟩
    rw [unitsOf, unitsOf, add_infinite finite infinite, add_infinite finite' infinite]

private theorem parts_of_units_zero {x : Float} (defined : x.isNaN = false) (zero : unitsOf x = 0) :
    ∃ s, x.toModel.unpack = .zero s := by
  change x.toModel.unpack.isNaN = false at defined
  rw [unitsOf] at zero
  have top := overflow_pos
  cases parts : x.toModel.unpack with
  | notANumber => exact Bool.noConfusion (parts ▸ defined)
  | infinity s =>
    rw [parts] at zero
    cases s <;> simp only [units_infinity, Sign.apply] at zero <;> omega
  | zero s => exact ⟨s, rfl⟩
  | finite s m e hm =>
    rw [parts] at zero
    have sign := units_sign (e := e) hm
    cases s <;> omega

theorem unitsOf_zero {x : Float} (zero : (x == 0.0) = true) : unitsOf x = 0 := (beq_iff.mp zero).2.2.trans rfl

theorem parts_of_zero {x : Float} (zero : (x == 0.0) = true) : ∃ s, x.toModel.unpack = .zero s :=
  parts_of_units_zero (beq_iff.mp zero).1 (unitsOf_zero zero)

theorem sub_equal {x y : Float} (finite : x.isFinite = true) (finite' : y.isFinite = true) (same : (x == y) = true) :
    (x - y == 0.0) = true := by
  obtain ⟨defined, units⟩ := unitsOf_sub finite finite'
  refine beq_iff.mpr ⟨defined, rfl, units.trans ?_⟩
  rw [(beq_iff.mp same).2.2, Int.sub_self]
  simp only [held, nearest, shiftRounded]
  rfl

theorem sub_self {x : Float} (finite : x.isFinite = true) : (x - x == 0.0) = true :=
  sub_equal finite finite (beq_iff.mpr ⟨defined_of_finite finite, defined_of_finite finite, rfl⟩)

theorem held_one : held 1 = 1 := by
  have bound : 1 ≤ overflow := overflow_pos
  have := nearest_of_short (show 1 < 2 ^ 53 by decide) 0
  simp only [Nat.pow_zero, Nat.mul_one] at this
  change ((min (nearest 1) overflow : Nat) : Int) = 1
  rw [this, Nat.min_eq_left bound]
  rfl

/-- At the start of the way from one time to a later one there is no progress. -/
theorem progress_start {start stop : Float} (finite : start.isFinite = true) (finite' : stop.isFinite = true)
    (later : start < stop) : ((start - start) / (stop - start) == 0.0) = true := by
  obtain ⟨way, wayUnits⟩ := unitsOf_sub finite' finite
  obtain ⟨s, zero⟩ := parts_of_zero (sub_self finite)
  have positive : 0 < unitsOf (stop - start) := by
    have := held_mono (show 1 ≤ unitsOf stop - unitsOf start by have := (lt_iff.mp later).2.2; omega)
    rw [held_one] at this
    omega
  have quotient : ((start - start) / (stop - start)).toModel.unpack =
      unpack .binary64 (pack .binary64 (div .binary64 (start - start).toModel.unpack (stop - start).toModel.unpack)) := rfl
  change (((start - start) / (stop - start)).toModel.unpack.compare (0.0 : Float).toModel.unpack == some .eq) = true
  rw [quotient, zero]
  change (stop - start).toModel.unpack.isNaN = false at way
  rw [unitsOf] at positive
  cases parts : (stop - start).toModel.unpack with
  | notANumber => exact Bool.noConfusion (parts ▸ way)
  | zero _ => simp [parts] at positive
  | infinity s' | finite s' _ _ _ =>
    exact unpack_pack_of (P := fun parts => (parts.compare _ == some .eq) = true) trivial rfl

end Tween.Binary64
