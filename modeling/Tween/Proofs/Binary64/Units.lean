import Tween.Binary64.Scalar
import Tween.Proofs.ScalarOrder
import Mathlib.Tactic.Ring
import Mathlib.Tactic.Positivity
import Mathlib.Order.Compare

/-! Finite doubles as whole multiples of the least positive one. Packing and unpacking lose
nothing on them, and comparison of doubles is comparison of these whole numbers. -/

namespace Tween.Binary64
open Float.Model (Format UnpackedFloat)
open Float.Model.UnpackedFloat

/-- One step above the greatest finite double, where rounding leaves the format. -/
@[irreducible] def overflow : Nat := 2 ^ 2098

theorem overflow_pos : 0 < overflow := by
  unfold overflow
  positivity

/-- How often the least positive double is contained. Infinities stand at the overflow. -/
def units : UnpackedFloat → Int
  | .notANumber => 0
  | .infinity s => s.apply overflow
  | .zero _ => 0
  | .finite s m e _ => s.apply (m * 2 ^ (e + 1074).toNat : Nat)

@[simp] theorem units_notANumber : units .notANumber = 0 := rfl

@[simp] theorem units_infinity (s : Sign) : units (.infinity s) = s.apply overflow := rfl

@[simp] theorem units_zero (s : Sign) : units (.zero s) = 0 := rfl

theorem units_finite {s : Sign} {m : Nat} {e : Int} {hm : 0 < m} :
    units (.finite s m e hm) = s.apply (m * 2 ^ (e + 1074).toNat : Nat) := rfl

/-- What unpacking a double gives: the leading bit is there unless the exponent is the least. -/
def Regular : UnpackedFloat → Prop
  | .finite _ m e _ => m < 2 ^ 53 ∧ -1074 ≤ e ∧ e ≤ 971 ∧ (2 ^ 52 ≤ m ∨ e = -1074)
  | _ => True

private theorem one_append {width : Nat} (v : BitVec width) : (1#1 ++ v).toNat = 2 ^ width + v.toNat := by
  rw [BitVec.toNat_append, ← Nat.shiftLeft_add_eq_or_of_lt v.isLt]
  simp [Nat.shiftLeft_eq]

private theorem sign_packed (s : Sign) (e : BitVec 11) (m : BitVec 52) :
    Sign.ofBitVec (unpackSign (packComponents .binary64 s e m)) = s := by
  unfold unpackSign packComponents
  simp only [BitVec.extractLsb]
  rw [BitVec.extractLsb'_append_eq_of_le (by omega), BitVec.extractLsb'_append_eq_of_le (by omega)]
  cases s <;> rfl

private theorem log2_of_leading {m : Nat} (low : 2 ^ 52 ≤ m) (high : m < 2 ^ 53) : m.log2 = 52 := by
  have lower := (Nat.le_log2 (by omega)).mpr low
  have upper := (Nat.log2_lt (by omega)).mpr high
  omega

private theorem ne_of_toNat {width : Nat} {v w : BitVec width} {n : Nat} (value : v.toNat = n) (differ : n ≠ w.toNat) :
    v ≠ w := by
  rintro rfl
  exact differ value.symm

private theorem finite_congr {s : Sign} {m n : Nat} {e f : Int} {hm : 0 < m} {hn : 0 < n} (mantissa : m = n)
    (exponent : e = f) : finite s m e hm = finite s n f hn := by
  subst mantissa exponent
  rfl

section
variable {bits : BitVec Format.binary64.numBits} {s : Sign} {w : BitVec 11} {v : BitVec 52}
  (sign : Sign.ofBitVec (unpackSign bits) = s) (exponent : unpackExponent bits = w) (mantissa : unpackMantissa bits = v)
include sign exponent mantissa

private theorem unpack_leading (notTop : w ≠ -1#11) (notZero : w ≠ 0#11) :
    ∃ positive, unpack .binary64 bits = .finite s (1#1 ++ v).toNat (w.toNat - 1075) positive := by
  subst sign exponent mantissa
  unfold unpack
  dsimp only
  rw [if_neg notTop, if_neg notZero]
  exact ⟨by rw [one_append]; positivity, rfl⟩

private theorem unpack_least (zero : w = 0#11) (notZero : v ≠ 0#52) :
    ∃ positive, unpack .binary64 bits = .finite s v.toNat (-1074) positive := by
  subst sign mantissa
  unfold unpack
  dsimp only
  rw [exponent, zero, if_neg (by decide), if_pos rfl, dif_neg notZero]
  exact ⟨Nat.pos_of_ne_zero fun none => notZero (BitVec.eq_of_toNat_eq none), rfl⟩

end

theorem unpack_regular (bits : BitVec Format.binary64.numBits) : Regular (unpack .binary64 bits) := by
  have field : (unpackExponent bits).toNat < 2048 := (unpackExponent bits).isLt
  have fraction : (unpackMantissa bits).toNat < 2 ^ 52 := (unpackMantissa bits).isLt
  by_cases top : unpackExponent bits = -1#11
  · unfold unpack
    dsimp only
    rw [if_pos top]
    split <;> trivial
  by_cases zero : unpackExponent bits = 0#11
  · by_cases none : unpackMantissa bits = 0#52
    · unfold unpack
      dsimp only
      rw [if_neg top, if_pos zero, dif_pos none]
      trivial
    · obtain ⟨_, unpacked⟩ := unpack_least rfl zero rfl rfl none
      rw [unpacked]
      exact ⟨by omega, by omega, by omega, Or.inr rfl⟩
  · obtain ⟨_, unpacked⟩ := unpack_leading rfl rfl rfl top zero
    have positive : (unpackExponent bits).toNat ≠ 0 := fun none => zero (BitVec.eq_of_toNat_eq none)
    have below : (unpackExponent bits).toNat ≠ 2047 := fun full => top (BitVec.eq_of_toNat_eq full)
    have mantissa : (1#1 ++ unpackMantissa bits).toNat = 2 ^ 52 + (unpackMantissa bits).toNat := one_append _
    rw [unpacked]
    exact ⟨by omega, by omega, by omega, Or.inl (by omega)⟩

private theorem unpack_normal {s : Sign} {m : Nat} {e : Int} {positive : 0 < m} (low : 2 ^ 52 ≤ m) (high : m < 2 ^ 53)
    (least : -1074 ≤ e) (greatest : e ≤ 971) :
    unpack .binary64 (packComponents .binary64 s (BitVec.ofNat 11 (e + 1075).toNat) (BitVec.ofNat 52 m)) =
      .finite s m e positive := by
  have field : (BitVec.ofNat 11 (e + 1075).toNat).toNat = (e + 1075).toNat := by
    rw [BitVec.toNat_ofNat, Nat.mod_eq_of_lt (by omega)]
  have notTop : BitVec.ofNat 11 (e + 1075).toNat ≠ -1#11 :=
    ne_of_toNat field (show (e + 1075).toNat ≠ 2047 by omega)
  have notZero : BitVec.ofNat 11 (e + 1075).toNat ≠ 0#11 := ne_of_toNat field (show (e + 1075).toNat ≠ 0 by omega)
  have mantissa : (1#1 ++ BitVec.ofNat 52 m).toNat = m := by
    rw [one_append, BitVec.toNat_ofNat]
    omega
  obtain ⟨_, unpacked⟩ := unpack_leading (sign_packed s _ _) unpackExponent_packComponents unpackMantissa_packComponents
    notTop notZero
  rw [unpacked]
  refine finite_congr mantissa ?_
  rw [field]
  omega

private theorem unpack_subnormal {s : Sign} {m : Nat} {positive : 0 < m} (short : m < 2 ^ 52) :
    unpack .binary64 (packComponents .binary64 s 0#11 (BitVec.ofNat 52 m)) = .finite s m (-1074) positive := by
  have mantissa : (BitVec.ofNat 52 m).toNat = m := by
    rw [BitVec.toNat_ofNat, Nat.mod_eq_of_lt short]
  have notZero : BitVec.ofNat 52 m ≠ 0#52 := ne_of_toNat mantissa (show m ≠ 0 by omega)
  obtain ⟨_, unpacked⟩ := unpack_least (sign_packed s _ _) unpackExponent_packComponents unpackMantissa_packComponents
    rfl notZero
  rw [unpacked]
  exact finite_congr mantissa rfl

theorem unpack_pack {u : UnpackedFloat} (regular : Regular u) :
    unpack .binary64 (pack .binary64 u) = u := by
  cases u with
  | notANumber => rfl
  | infinity s => cases s <;> rfl
  | zero s => cases s <;> rfl
  | finite s m e positive =>
    obtain ⟨high, least, greatest, leading⟩ := regular
    have exponent : (e + Format.binary64.exponentBias + Format.binary64.mantissaBitsWithoutImplicit).toNat
        = (e + 1075).toNat := by
      have bias : ((Format.binary64.exponentBias : Nat) : Int) = 1023 := rfl
      simp only [bias]
      omega
    delta pack
    dsimp only
    rw [exponent, if_neg (by omega)]
    by_cases low : 2 ^ 52 ≤ m
    · rw [if_pos (by rw [log2_of_leading low high]; rfl)]
      exact unpack_normal low high least greatest
    · obtain rfl : e = -1074 := leading.resolve_left low
      have short : ¬m.log2 + 1 = Format.binary64.mantissaBits := by
        have := (Nat.log2_lt (by omega)).mpr (show m < 2 ^ 52 by omega)
        change ¬m.log2 + 1 = 53
        omega
      rw [if_neg short]
      exact unpack_subnormal (by omega)

/-- What holds of a regular number holds of the double that it is packed into. -/
theorem unpack_pack_of {P : UnpackedFloat → Prop} {u : UnpackedFloat} (regular : Regular u) (holds : P u) :
    P (unpack .binary64 (pack .binary64 u)) := by
  rwa [unpack_pack regular]

/-- A higher exponent outweighs every mantissa, because it has the leading bit. -/
private theorem exponent_outweighs {m n j k : Nat} (high : m < 2 ^ 53) (leading : 2 ^ 52 ≤ n) (less : j < k) :
    m * 2 ^ j < n * 2 ^ k :=
  calc m * 2 ^ j < 2 ^ 53 * 2 ^ j := Nat.mul_lt_mul_of_pos_right high (by positivity)
    _ = 2 ^ 52 * 2 ^ (j + 1) := by ring
    _ ≤ n * 2 ^ k := Nat.mul_le_mul leading (Nat.pow_le_pow_right (by omega) less)

private theorem compare_magnitudes {s s' : Sign} {m n : Nat} {e f : Int} {hm : 0 < m} {hn : 0 < n}
    (first : Regular (.finite s m e hm)) (second : Regular (.finite s' n f hn)) :
    (compare e f).then (compare m n) = compare (m * 2 ^ (e + 1074).toNat) (n * 2 ^ (f + 1074).toNat) := by
  obtain ⟨high, least, _, leading⟩ := first
  obtain ⟨high', least', _, leading'⟩ := second
  rcases lt_trichotomy e f with less | rfl | greater
  · rw [compare_lt_iff_lt.mpr less, compare_lt_iff_lt.mpr (exponent_outweighs high (by omega) (by omega))]
    rfl
  · rw [compare_eq_iff_eq.mpr rfl]
    have scale : 0 < 2 ^ (e + 1074).toNat := by positivity
    rcases lt_trichotomy m n with less | rfl | greater
    · rw [compare_lt_iff_lt.mpr less, compare_lt_iff_lt.mpr (Nat.mul_lt_mul_of_pos_right less scale)]
      rfl
    · rw [compare_eq_iff_eq.mpr rfl, compare_eq_iff_eq.mpr rfl]
      rfl
    · rw [compare_gt_iff_gt.mpr greater, compare_gt_iff_gt.mpr (Nat.mul_lt_mul_of_pos_right greater scale)]
      rfl
  · rw [compare_gt_iff_gt.mpr greater, compare_gt_iff_gt.mpr (exponent_outweighs high' (by omega) (by omega))]
    rfl

theorem finite_lt_overflow {s : Sign} {m : Nat} {e : Int} {hm : 0 < m} (regular : Regular (.finite s m e hm)) :
    m * 2 ^ (e + 1074).toNat < overflow := by
  obtain ⟨high, least, greatest, _⟩ := regular
  unfold overflow
  calc m * 2 ^ (e + 1074).toNat < 2 ^ 53 * 2 ^ (e + 1074).toNat :=
        Nat.mul_lt_mul_of_pos_right high (by positivity)
    _ = 2 ^ (53 + (e + 1074).toNat) := by rw [Nat.pow_add]
    _ ≤ 2 ^ 2098 := pow_le_pow_right₀ (by omega) (by omega)

theorem units_bounds {u : UnpackedFloat} (regular : Regular u) (finite : u.isFinite = true) :
    -(overflow : Int) < units u ∧ units u < overflow := by
  have top := overflow_pos
  cases u with
  | notANumber => contradiction
  | infinity s => contradiction
  | zero s => rw [units_zero]; omega
  | finite s m e hm =>
    have bound := finite_lt_overflow regular
    rw [units_finite]
    cases s <;> simp only [Sign.apply] <;> omega

theorem units_sign {m : Nat} {e : Int} (hm : 0 < m) :
    0 < units (.finite .positive m e hm) ∧ units (.finite .negative m e hm) < 0 := by
  have scale : 0 < m * 2 ^ (e + 1074).toNat := by positivity
  rw [units_finite, units_finite]
  simp only [Sign.apply]
  omega

private theorem compare_cast (m n : Nat) : compare (m : Int) (n : Int) = compare m n := by
  rcases lt_trichotomy m n with less | rfl | greater
  · rw [compare_lt_iff_lt.mpr less, compare_lt_iff_lt.mpr (Int.ofNat_lt.mpr less)]
  · rw [compare_eq_iff_eq.mpr rfl, compare_eq_iff_eq.mpr rfl]
  · rw [compare_gt_iff_gt.mpr greater, compare_gt_iff_gt.mpr (Int.ofNat_lt.mpr greater)]

private theorem compare_neg (a b : Int) : compare (-a) (-b) = (compare a b).swap := by
  rw [Int.compare_swap]
  rcases lt_trichotomy a b with less | rfl | greater
  · rw [compare_gt_iff_gt.mpr less, compare_gt_iff_gt.mpr (by omega)]
  · rw [compare_eq_iff_eq.mpr rfl, compare_eq_iff_eq.mpr rfl]
  · rw [compare_lt_iff_lt.mpr greater, compare_lt_iff_lt.mpr (by omega)]

private theorem some_less {a b : Int} (less : a < b) : some Ordering.lt = some (compare a b) := by
  rw [compare_lt_iff_lt.mpr less]

private theorem some_greater {a b : Int} (greater : b < a) : some Ordering.gt = some (compare a b) := by
  rw [compare_gt_iff_gt.mpr greater]

private theorem some_same (a : Int) : some Ordering.eq = some (compare a a) := by
  rw [compare_eq_iff_eq.mpr rfl]

private theorem compare_infinities (s s' : Sign) :
    (infinity s).compare (infinity s') = some (compare (units (infinity s)) (units (infinity s'))) := by
  have top := overflow_pos
  cases s <;> cases s'
  · exact some_same _
  · exact some_less (by simp only [units_infinity, Sign.apply]; omega)
  · exact some_greater (by simp only [units_infinity, Sign.apply]; omega)
  · exact some_same _

/-- Numbers of one sign compare by their magnitudes, negative ones the other way. -/
private theorem compare_finite {s s' : Sign} {m n : Nat} {e f : Int} {hm : 0 < m} {hn : 0 < n}
    (first : Regular (.finite s m e hm)) (second : Regular (.finite s' n f hn)) :
    (finite s m e hm).compare (finite s' n f hn) = some (compare (units (finite s m e hm)) (units (finite s' n f hn))) := by
  have sign := units_sign (e := e) hm
  have sign' := units_sign (e := f) hn
  have magnitudes := compare_magnitudes first second
  cases s <;> cases s'
  · change some ((compare e f).then (compare m n)).swap = some (compare (-((_ : Nat) : Int)) (-((_ : Nat) : Int)))
    rw [compare_neg, compare_cast, magnitudes]
  · exact some_less (sign.2.trans sign'.1)
  · exact some_greater (sign'.2.trans sign.1)
  · change some ((compare e f).then (compare m n)) = some (compare ((_ : Nat) : Int) ((_ : Nat) : Int))
    rw [compare_cast, magnitudes]

/-- Doubles compare as the whole numbers they stand for. -/
theorem compare_units {u v : UnpackedFloat} (first : Regular u) (second : Regular v)
    (defined : u.isNaN = false) (defined' : v.isNaN = false) :
    u.compare v = some (compare (units u) (units v)) := by
  cases u with
  | notANumber => contradiction
  | infinity s =>
    cases v with
    | notANumber => contradiction
    | infinity s' => exact compare_infinities s s'
    | zero _ | finite _ _ _ _ =>
      have bounds := units_bounds second rfl
      cases s
      · exact some_less bounds.1
      · exact some_greater bounds.2
  | zero s =>
    cases v with
    | notANumber => contradiction
    | infinity s' =>
      have bounds := units_bounds first rfl
      cases s'
      · exact some_greater bounds.1
      · exact some_less bounds.2
    | zero s' => exact some_same _
    | finite s' n f hn =>
      have sign := units_sign (e := f) hn
      cases s'
      · exact some_greater sign.2
      · exact some_less sign.1
  | finite s m e hm =>
    cases v with
    | notANumber => contradiction
    | infinity s' =>
      have bounds := units_bounds first rfl
      cases s'
      · cases s <;> exact some_greater bounds.1
      · cases s <;> exact some_less bounds.2
    | zero s' =>
      have sign := units_sign (e := e) hm
      cases s
      · exact some_less sign.2
      · exact some_greater sign.1
    | finite s' n f hn => exact compare_finite first second

/-- The whole multiple of the least positive double that a double is. -/
def unitsOf (x : Float) : Int := units x.toModel.unpack

theorem regular (x : Float) : Regular x.toModel.unpack := unpack_regular _

private theorem le_parts {x y : Float} :
    x ≤ y ↔ (x.toModel.unpack.compare y.toModel.unpack).any (·.isLE) = true :=
  decide_eq_true_iff (p := x.toModel ≤ y.toModel)

private theorem lt_parts {x y : Float} : x < y ↔ (x.toModel.unpack.compare y.toModel.unpack == some .lt) = true :=
  decide_eq_true_iff (p := x.toModel < y.toModel)

/-- Comparison of doubles in terms of comparison of whole numbers; an undefined double compares with none. -/
private theorem compare_parts (x y : Float) :
    (x.isNaN = false ∧ y.isNaN = false ∧
      x.toModel.unpack.compare y.toModel.unpack = some (compare (unitsOf x) (unitsOf y))) ∨
    ((x.isNaN = true ∨ y.isNaN = true) ∧ x.toModel.unpack.compare y.toModel.unpack = none) := by
  cases defined : x.toModel.unpack.isNaN with
  | true =>
    refine Or.inr ⟨Or.inl defined, ?_⟩
    cases parts : x.toModel.unpack with
    | notANumber => rfl
    | infinity _ | zero _ | finite _ _ _ _ => exact Bool.noConfusion (parts ▸ defined)
  | false =>
    cases defined' : y.toModel.unpack.isNaN with
    | true =>
      refine Or.inr ⟨Or.inr defined', ?_⟩
      cases parts : y.toModel.unpack with
      | notANumber => cases x.toModel.unpack <;> rfl
      | infinity _ | zero _ | finite _ _ _ _ => exact Bool.noConfusion (parts ▸ defined')
    | false => exact Or.inl ⟨defined, defined', compare_units (regular x) (regular y) defined defined'⟩

private theorem contradict {x y : Float} (undefined : x.isNaN = true ∨ y.isNaN = true) {holds : Prop} :
    ¬(x.isNaN = false ∧ y.isNaN = false ∧ holds) := by
  rintro ⟨defined, defined', _⟩
  rcases undefined with undefined | undefined
  · exact Bool.false_ne_true (defined.symm.trans undefined)
  · exact Bool.false_ne_true (defined'.symm.trans undefined)

theorem le_iff {x y : Float} : x ≤ y ↔ x.isNaN = false ∧ y.isNaN = false ∧ unitsOf x ≤ unitsOf y := by
  rw [le_parts]
  rcases compare_parts x y with ⟨defined, defined', same⟩ | ⟨undefined, none⟩
  · rw [same, and_iff_right defined, and_iff_right defined']
    exact Int.isLE_compare
  · rw [none]
    exact iff_of_false nofun (contradict undefined)

theorem lt_iff {x y : Float} : x < y ↔ x.isNaN = false ∧ y.isNaN = false ∧ unitsOf x < unitsOf y := by
  rw [lt_parts]
  rcases compare_parts x y with ⟨defined, defined', same⟩ | ⟨undefined, none⟩
  · rw [same, and_iff_right defined, and_iff_right defined']
    simp only [beq_iff_eq, Option.some.injEq, Int.compare_eq_lt]
  · rw [none]
    exact iff_of_false nofun (contradict undefined)

theorem beq_iff {x y : Float} :
    (x == y) = true ↔ x.isNaN = false ∧ y.isNaN = false ∧ unitsOf x = unitsOf y := by
  change (x.toModel.unpack.compare y.toModel.unpack == some .eq) = true ↔ _
  rcases compare_parts x y with ⟨defined, defined', same⟩ | ⟨undefined, none⟩
  · rw [same, and_iff_right defined, and_iff_right defined']
    simp only [beq_iff_eq, Option.some.injEq, compare_eq_iff_eq]
  · rw [none]
    exact iff_of_false nofun (contradict undefined)


instance : Scalar.OrderLaws Float where
  le_trans first second := by
    rw [le_iff] at *
    exact ⟨first.1, second.2.1, first.2.2.trans second.2.2⟩
  le_total {x y} left right := by
    rw [le_iff] at left right
    rw [le_iff, le_iff]
    exact (Int.le_total (unitsOf x) (unitsOf y)).imp (⟨left.1, right.1, ·⟩) (⟨right.1, left.1, ·⟩)
  le_defined {x y} ordered := by
    rw [le_iff] at ordered
    rw [le_iff, le_iff]
    exact ⟨⟨ordered.1, ordered.1, Int.le_refl _⟩, ⟨ordered.2.1, ordered.2.1, Int.le_refl _⟩⟩
  lt_iff {x y} := by
    rw [lt_iff, le_iff, le_iff]
    constructor
    · exact fun ⟨left, right, less⟩ => ⟨⟨left, right, less.le⟩, fun back => absurd back.2.2 (by omega)⟩
    · exact fun ⟨⟨left, right, _⟩, greater⟩ =>
        ⟨left, right, Int.not_le.mp fun back => greater ⟨right, left, back⟩⟩
  beq_iff {x y} := by
    rw [beq_iff, le_iff, le_iff]
    constructor
    · exact fun ⟨left, right, same⟩ => ⟨⟨left, right, same.le⟩, ⟨right, left, same.ge⟩⟩
    · exact fun ⟨⟨left, right, up⟩, ⟨_, _, down⟩⟩ => ⟨left, right, le_antisymm up down⟩

end Tween.Binary64
