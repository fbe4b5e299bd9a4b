import Mathlib.Data.Nat.Log
import Tween.Proofs.Binary64.Arithmetic

/-! Products and quotients of doubles, as far as they are needed: when they are defined, when they
are finite, and that nothing times a finite number adds nothing. -/

namespace Tween.Binary64
open Float.Model (Format UnpackedFloat totalExponent)
open Float.Model.UnpackedFloat

private theorem unpack_below {bits : BitVec Format.binary64.numBits} (below : unpackExponent bits ≠ -1#11) :
    (unpack .binary64 bits).isFinite = true := by
  unfold unpack
  dsimp only
  rw [if_neg below]
  by_cases zero : unpackExponent bits = 0#11
  · by_cases none : unpackMantissa bits = 0#52
    · rw [if_pos zero, dif_pos none]
      rfl
    · rw [if_pos zero, dif_neg none]
      rfl
  · rw [if_neg zero]
    rfl

private theorem unpack_components (s : Sign) {e : BitVec 11} (m : BitVec 52) (below : e ≠ -1#11) :
    (unpack .binary64 (packComponents .binary64 s e m)).isFinite = true :=
  unpack_below (by rwa [unpackExponent_packComponents])

/-- A finite number stays finite or becomes an infinity of its sign; the exponent alone decides. -/
private theorem unpack_pack_finite (s : Sign) {m : Nat} {e : Int} (positive : 0 < m) :
    unpack .binary64 (pack .binary64 (.finite s m e positive)) = .infinity s ∧ 971 < e ∨
      (unpack .binary64 (pack .binary64 (.finite s m e positive))).isFinite = true := by
  have bias : ((Format.binary64.exponentBias : Nat) : Int) = 1023 := rfl
  have width : ((Format.binary64.mantissaBitsWithoutImplicit : Nat) : Int) = 52 := rfl
  unfold pack
  dsimp only
  rw [bias, width]
  split
  next reached => exact Or.inl ⟨unpack_pack (u := .infinity s) trivial, by omega⟩
  next inside =>
    right
    split
    · apply unpack_components
      intro all
      have field := congrArg BitVec.toNat all
      rw [BitVec.toNat_ofNat, Nat.mod_eq_of_lt (by omega)] at field
      have top : (-1#11).toNat = 2047 := by decide
      omega
    · exact unpack_components _ _ (by decide)

theorem unpack_pack_defined {u : UnpackedFloat} (defined : u.isNaN = false) :
    (unpack .binary64 (pack .binary64 u)).isNaN = false := by
  cases u with
  | notANumber => cases defined
  | infinity s => rw [unpack_pack (u := .infinity s) trivial]; rfl
  | zero s => rw [unpack_pack (u := .zero s) trivial]; rfl
  | finite s m e positive =>
    rcases unpack_pack_finite s positive (e := e) with ⟨infinite, _⟩ | finite
    · rw [infinite]
      rfl
    · generalize unpack .binary64 (pack .binary64 (.finite s m e positive)) = parts at finite
      cases parts with
      | notANumber => cases finite
      | infinity _ | zero _ | finite _ _ _ _ => rfl

private theorem mul_unpack (x y : Float) : (x * y).toModel.unpack =
    unpack .binary64 (pack .binary64 (mul .binary64 x.toModel.unpack y.toModel.unpack)) := rfl

private theorem div_unpack (x y : Float) : (x / y).toModel.unpack =
    unpack .binary64 (pack .binary64 (div .binary64 x.toModel.unpack y.toModel.unpack)) := rfl

private theorem finite_parts {y : Float} (finite : y.isFinite = true) (nonzero : (y == 0.0) = false) :
    ∃ s m e positive, y.toModel.unpack = .finite s m e positive := by
  change y.toModel.unpack.isFinite = true at finite
  change (y.toModel.unpack.compare (0.0 : Float).toModel.unpack == some .eq) = false at nonzero
  cases parts : y.toModel.unpack with
  | notANumber | infinity _ => exact Bool.noConfusion (parts ▸ finite)
  | zero s =>
    rw [parts] at nonzero
    cases s <;> cases nonzero
  | finite s m e positive => exact ⟨s, m, e, positive, rfl⟩

/-- Rounding gives a zero or a finite number. -/
private theorem finiteOrZero_defined (s : Sign) (n : Nat) (f : Int) : (finiteOrZero s n f).isNaN = false := by
  unfold finiteOrZero
  by_cases zero : n = 0
  · rw [dif_pos zero]
    rfl
  · rw [dif_neg zero]
    rfl

theorem mul_defined {x y : Float} (defined : x.isNaN = false) (finite : y.isFinite = true)
    (nonzero : (y == 0.0) = false) : (x * y).isNaN = false := by
  obtain ⟨s, m, e, positive, parts⟩ := finite_parts finite nonzero
  change x.toModel.unpack.isNaN = false at defined
  change (x * y).toModel.unpack.isNaN = false
  rw [mul_unpack, parts]
  apply unpack_pack_defined
  revert defined
  cases x.toModel.unpack with
  | notANumber => exact fun defined => defined
  | infinity _ | zero _ => exact fun _ => rfl
  | finite s' m' e' positive' =>
    intro _
    exact finiteOrZero_defined _ _ _

theorem div_defined {x y : Float} (defined : x.isNaN = false) (finite : y.isFinite = true)
    (nonzero : (y == 0.0) = false) : (x / y).isNaN = false := by
  obtain ⟨s, m, e, positive, parts⟩ := finite_parts finite nonzero
  change x.toModel.unpack.isNaN = false at defined
  change (x / y).toModel.unpack.isNaN = false
  rw [div_unpack, parts]
  apply unpack_pack_defined
  revert defined
  cases x.toModel.unpack with
  | notANumber => exact fun defined => defined
  | infinity _ | zero _ => exact fun _ => rfl
  | finite s' m' e' positive' =>
    intro _
    exact finiteOrZero_defined _ _ _

private theorem undefined_parts {x : Float} (undefined : x.isNaN = true) : x.toModel.unpack = .notANumber := by
  change x.toModel.unpack.isNaN = true at undefined
  cases parts : x.toModel.unpack with
  | notANumber => rfl
  | infinity _ | zero _ | finite _ _ _ _ => exact Bool.noConfusion (parts ▸ undefined)

theorem infinite_of_undefined {x : Float} (undefined : x.isNaN = true) : x.isFinite = false := by
  change x.toModel.unpack.isFinite = false
  rw [undefined_parts undefined]
  rfl

private theorem undefined_packed {x : Float}
    (packed : x.toModel.unpack = unpack .binary64 (pack .binary64 .notANumber)) : x.isNaN = true := by
  change x.toModel.unpack.isNaN = true
  rw [packed, unpack_pack (u := .notANumber) trivial]
  rfl

theorem mul_undefined {x y : Float} (undefined : x.isNaN = true ∨ y.isNaN = true) : (x * y).isNaN = true := by
  refine undefined_packed ((mul_unpack x y).trans ?_)
  rcases undefined with undefined | undefined <;> rw [undefined_parts undefined]
  · rfl
  · cases x.toModel.unpack <;> rfl

theorem div_undefined {x : Float} (undefined : x.isNaN = true) (y : Float) : (x / y).isNaN = true := by
  refine undefined_packed ((div_unpack x y).trans ?_)
  rw [undefined_parts undefined]
  rfl

theorem undefined_add {x : Float} (undefined : x.isNaN = true) (y : Float) : (x + y).isNaN = true := by
  refine undefined_packed ((add_parts x y).trans ?_)
  rw [undefined_parts undefined]
  rfl

theorem sub_parts (x y : Float) : (x - y).toModel.unpack =
    unpack .binary64 (pack .binary64 (sub .binary64 x.toModel.unpack y.toModel.unpack)) := rfl

theorem sub_undefined {x : Float} (undefined : x.isNaN = true) (y : Float) : (x - y).isNaN = true := by
  refine undefined_packed ((sub_parts x y).trans ?_)
  rw [undefined_parts undefined]
  rfl

private theorem sub_beyond {u v : UnpackedFloat} (beyond : ¬(u.isFinite = true ∧ v.isFinite = true)) :
    sub .binary64 u v = .notANumber ∨ ∃ s, sub .binary64 u v = .infinity s := by
  cases u with
  | notANumber => exact Or.inl rfl
  | infinity s =>
    cases v with
    | notANumber => exact Or.inl rfl
    | infinity s' => cases s <;> cases s' <;> first | exact Or.inl rfl | exact Or.inr ⟨_, rfl⟩
    | zero _ | finite _ _ _ _ => exact Or.inr ⟨s, rfl⟩
  | zero _ | finite _ _ _ _ =>
    cases v with
    | notANumber => exact Or.inl rfl
    | infinity s => exact Or.inr ⟨-s, rfl⟩
    | zero _ | finite _ _ _ _ => exact absurd ⟨rfl, rfl⟩ beyond

/-- Only two finite numbers have a finite difference. -/
theorem finite_of_sub {x y : Float} (finite : (x - y).isFinite = true) : x.isFinite = true ∧ y.isFinite = true := by
  by_contra beyond
  change (x - y).toModel.unpack.isFinite = true at finite
  rw [sub_parts] at finite
  rcases sub_beyond beyond with undefined | ⟨s, infinite⟩
  · rw [undefined, unpack_pack (u := .notANumber) trivial] at finite
    cases finite
  · rw [infinite, unpack_pack (u := .infinity s) trivial] at finite
    cases finite

private theorem sqrt_unpack (x : Float) :
    x.sqrt.toModel.unpack = unpack .binary64 (pack .binary64 (sqrt .binary64 x.toModel.unpack)) := rfl

theorem sqrt_undefined {x : Float} (undefined : x.isNaN = true) : x.sqrt.isNaN = true := by
  refine undefined_packed ((sqrt_unpack x).trans ?_)
  rw [undefined_parts undefined]
  rfl

private theorem abs_unpack (x : Float) :
    x.abs.toModel.unpack = unpack .binary64 (pack .binary64 x.toModel.unpack.abs) := rfl

theorem abs_undefined {x : Float} (undefined : x.isNaN = true) : x.abs.isNaN = true := by
  refine undefined_packed ((abs_unpack x).trans ?_)
  rw [undefined_parts undefined]
  rfl

theorem div_infinite {x y : Float} {s s' : Sign} (infinite : x.toModel.unpack = .infinity s)
    (infinite' : y.toModel.unpack = .infinity s') : (x / y).isNaN = true := by
  refine undefined_packed ((div_unpack x y).trans ?_)
  rw [infinite, infinite']
  rfl

/-- Bits whose exponent field is not full are a finite number. -/
private theorem ofBits_finite {bits : Nat} (low : bits % 2 ^ 63 < 2047 * 2 ^ 52) :
    (Float.ofBits (UInt64.ofNat bits)).isFinite = true := by
  change (unpack .binary64 (pack .binary64 (unpack .binary64 (UInt64.ofNat bits).toBitVec))).isFinite = true
  rw [unpack_pack (unpack_regular _)]
  have field : @unpackExponent .binary64 (UInt64.ofNat bits).toBitVec ≠ -1#11 := by
    intro full
    have value := congrArg BitVec.toNat full
    have top : (-1#11).toNat = 2047 := by decide
    have digits : (@unpackExponent .binary64 (UInt64.ofNat bits).toBitVec).toNat = bits / 2 ^ 52 % 2 ^ 11 := by
      have taken : (@unpackExponent .binary64 (UInt64.ofNat bits).toBitVec).toNat =
        (BitVec.extractLsb 62 52 (UInt64.ofNat bits).toBitVec).toNat := rfl
      rw [taken, BitVec.extractLsb_toNat, UInt64.toNat_toBitVec, UInt64.toNat_ofNat', Nat.shiftRight_eq_div_pow]
      omega
    omega
  exact unpack_below field

private theorem nearestInteger_le {m places : Nat} (short : m < 2 ^ 53) : nearestInteger m places ≤ 2 ^ 53 := by
  rw [nearestInteger]
  apply Nat.le_of_lt_succ
  have power : 1 ≤ 2 ^ places := Nat.one_le_two_pow
  rw [Nat.div_lt_iff_lt_mul (by positivity), Nat.pow_succ 2 places]
  omega

private theorem magnitude_short (x : Float) : (magnitude x).mantissa < 2 ^ 53 := by
  have fraction : fractionField x < 2 ^ 52 := by
    rw [fractionField, UInt64.toNat_and]
    exact Nat.and_lt_two_pow _ (by decide)
  rw [magnitude]
  split
  · exact fraction.trans (by decide)
  · show 2 ^ 52 + fractionField x < 2 ^ 53
    omega

private theorem aligned_le {m : Nat} (short : m ≤ 2 ^ 53) : m * 2 ^ (52 - m.log2) ≤ 2 ^ 53 := by
  have digits : m.log2 ≤ 53 := log2_le_of_lt (by omega)
  rcases digits.eq_or_lt with long | fewer
  · rw [long]
    omega
  · calc m * 2 ^ (52 - m.log2) ≤ 2 ^ (m.log2 + 1) * 2 ^ (52 - m.log2) := by
          gcongr
          exact Nat.lt_log2_self.le
      _ = 2 ^ 53 := by
          rw [← Nat.pow_add]
          congr 1
          omega

private theorem compose_finite (negative : Bool) {m : Nat} (short : m ≤ 2 ^ 53) :
    (compose negative m 0).isFinite = true := by
  rw [compose]
  apply ofBits_finite
  have bound : ∀ unsigned, unsigned < 2047 * 2 ^ 52 →
      ((if negative = true then 2 ^ 63 else 0) + unsigned) % 2 ^ 63 < 2047 * 2 ^ 52 := by
    intro unsigned below
    cases negative <;> simp only [Bool.false_eq_true, if_false, if_true] <;> omega
  apply bound
  split
  · decide
  next positive =>
    have digits : m.log2 < 54 := (Nat.log2_lt positive).mpr (by omega)
    have scaled := aligned_le short
    rw [if_neg (by omega)]
    omega

theorem round_infinite {x : Float} (infinite : x.isFinite = false) : round x = x := by
  rw [round, infinite]
  rfl

theorem round_finite {x : Float} (finite : x.isFinite = true) : (round x).isFinite = true := by
  rw [round]
  split
  · exact finite
  · exact compose_finite _ (nearestInteger_le (magnitude_short x))

theorem round_undefined {x : Float} (undefined : x.isNaN = true) : round x = x :=
  round_infinite (infinite_of_undefined undefined)

theorem round_defined {x : Float} (defined : x.isNaN = false) : (round x).isNaN = false := by
  cases finite : x.isFinite with
  | true => exact defined_of_finite (round_finite finite)
  | false =>
    rw [round_infinite finite]
    exact defined

private theorem shift_mantissa (em : ExtendedMantissa) (places : Nat) :
    (em >>> places).mantissa = em.mantissa / 2 ^ places := by
  change (places.repeat ExtendedMantissa.shiftRightOne em).mantissa = _
  induction places with
  | zero => simp [Nat.repeat]
  | succ places ih =>
    rw [Nat.repeat, ExtendedMantissa.shiftRightOne]
    dsimp only
    rw [ih, Nat.div_div_eq_div_mul, ← Nat.pow_succ]

private theorem rounded_le (em : ExtendedMantissa) : em.roundedMantissa ≤ em.mantissa + 1 := by
  rw [ExtendedMantissa.roundedMantissa]
  generalize em.accuracy = accuracy
  unfold Accuracy.roundToNearestEven
  split <;> omega

private theorem shift_exponent (m : Nat) (e : Int) (accuracy : Accuracy) :
    (shiftToTargetExponent .binary64 m e accuracy).2 = max e (max (m.log2 + 1 + e - 53) (-1074)) ∧
    (shiftToTargetExponent .binary64 m e accuracy).1.mantissa =
      m / 2 ^ (max (m.log2 + 1 + e - 53) (-1074) - e).toNat := by
  have target : Format.binary64.targetExponent (m.log2 + 1 + e) = max (m.log2 + 1 + e - 53) (-1074) := rfl
  simp only [shiftToTargetExponent, shiftToExponent, totalExponent, target]
  rw [shift_mantissa]
  constructor
  · omega
  · cases accuracy with
    | exact => rfl
    | inexact way => cases way <;> rfl

/-- Rounding ends at an exponent that leaves room for all digits, or at the next one. -/
private theorem roundWithAccuracy_exponent (s : Sign) {m : Nat} {e top : Int} (accuracy : Accuracy) (least : -1074 ≤ top)
    (below : e ≤ top) (fits : (m.log2 : Int) + e - 52 ≤ top) :
    ∃ n f, roundWithAccuracy .binary64 s m e accuracy = finiteOrZero s n f ∧ f ≤ top + 1 := by
  obtain ⟨exponent, mantissa⟩ := shift_exponent m e accuracy
  let places := (max ((m.log2 : Int) + 1 + e - 53) (-1074) - e).toNat
  let first := shiftToTargetExponent .binary64 m e accuracy
  have inside : first.2 ≤ top := by
    have : first.2 = _ := exponent
    omega
  have short : m / 2 ^ places < 2 ^ 53 := by
    rw [Nat.div_lt_iff_lt_mul (by positivity), ← Nat.pow_add]
    calc m < 2 ^ (m.log2 + 1) := Nat.lt_log2_self
      _ ≤ 2 ^ (53 + places) := Nat.pow_le_pow_right (by decide) (by omega)
  have rounded : first.1.roundedMantissa < 2 ^ 54 := by
    calc first.1.roundedMantissa ≤ m / 2 ^ places + 1 := mantissa ▸ rounded_le first.1
      _ < 2 ^ 54 := by omega
  have digits : first.1.roundedMantissa.log2 ≤ 53 := log2_le_of_lt rounded
  let second := shiftToTargetExponent .binary64 first.1.roundedMantissa first.2 .exact
  have last : second.2 = _ := (shift_exponent _ _ _).1
  exact ⟨second.1.mantissa, second.2, rfl, by omega⟩

private theorem finiteOrZero_finite (s : Sign) (n : Nat) {f : Int} (fits : f ≤ 971) :
    (unpack .binary64 (pack .binary64 (finiteOrZero s n f))).isFinite = true := by
  unfold finiteOrZero
  by_cases zero : n = 0
  · rw [dif_pos zero, unpack_pack (u := .zero s) trivial]
    rfl
  · rw [dif_neg zero]
    rcases unpack_pack_finite s (Nat.pos_of_ne_zero zero) (e := f) with ⟨_, high⟩ | finite
    · omega
    · exact finite

private theorem divCore_eq (m n : Nat) (e f : Int) : divCore .binary64 m e n f =
    let low := min (e - f) (max ((m.log2 : Int) + 1 + e - (n.log2 + 1 + f) - 53) (-1074))
    ((m * 2 ^ (e - f - low).toNat) / n, low, accuracyOfFraction ((m * 2 ^ (e - f - low).toNat) % n) n) := by
  have target : Format.binary64.targetExponent (totalExponent m e - totalExponent n f) =
    max ((m.log2 : Int) + 1 + e - (n.log2 + 1 + f) - 53) (-1074) := rfl
  rw [divCore, target]
  simp only [Nat.shiftLeft_eq]

/-- The leading digit of a quotient stands no higher than the difference of the leading digits. -/
private theorem divCore_order (m : Nat) {n : Nat} (e f : Int) (positive : 0 < n) :
    (divCore .binary64 m e n f).2.1 ≤ max ((m.log2 : Int) + e - (n.log2 + f) - 53) (-1074) ∧
      ((divCore .binary64 m e n f).1.log2 : Int) + (divCore .binary64 m e n f).2.1 ≤
        max ((m.log2 : Int) + e - (n.log2 + f)) (-1074) := by
  rw [divCore_eq]
  generalize h : min (e - f) (max ((m.log2 : Int) + 1 + e - (n.log2 + 1 + f) - 53) (-1074)) = low
  show low ≤ _ ∧ (((m * 2 ^ (e - f - low).toNat) / n).log2 : Int) + low ≤ _
  refine ⟨by omega, ?_⟩
  generalize shape : (e - f - low).toNat = places
  generalize quotient : m * 2 ^ places / n = q
  rcases Nat.eq_zero_or_pos q with rfl | present
  · have none : Nat.log2 0 = 0 := by decide
    rw [none]
    omega
  · have digits : q.log2 + n.log2 ≤ m.log2 + places := by
      have product : 2 ^ q.log2 * 2 ^ n.log2 ≤ m * 2 ^ places :=
        calc 2 ^ q.log2 * 2 ^ n.log2 ≤ q * n :=
              Nat.mul_le_mul (Nat.log2_self_le present.ne') (Nat.log2_self_le positive.ne')
          _ ≤ m * 2 ^ places := quotient ▸ Nat.div_mul_le_self _ _
      have bound : m * 2 ^ places < 2 ^ (m.log2 + 1 + places) := by
        rw [Nat.pow_add]
        exact Nat.mul_lt_mul_of_pos_right Nat.lt_log2_self (by positivity)
      rw [← Nat.pow_add] at product
      have := (Nat.pow_lt_pow_iff_right (show 1 < 2 by decide)).mp (product.trans_lt bound)
      omega
    omega

private theorem div_finite_finite (s s' : Sign) {m n : Nat} {e f : Int} (hm : 0 < m) (hn : 0 < n) :
    div .binary64 (.finite s m e hm) (.finite s' n f hn) =
      roundWithAccuracy .binary64 (s / s') (divCore .binary64 m e n f).1 (divCore .binary64 m e n f).2.1
        (divCore .binary64 m e n f).2.2 := rfl

private theorem div_parts_finite (s s' : Sign) {m n : Nat} {e f : Int} (hm : 0 < m) (hn : 0 < n)
    (below : (m.log2 : Int) + e - (n.log2 + f) ≤ 1022) :
    (unpack .binary64 (pack .binary64 (div .binary64 (.finite s m e hm) (.finite s' n f hn)))).isFinite = true := by
  obtain ⟨low, digits⟩ := divCore_order m e f hn
  have least : (-1074 : Int) ≤ 970 := by decide
  have lower : (divCore .binary64 m e n f).2.1 ≤ 970 := by omega
  have fits : ((divCore .binary64 m e n f).1.log2 : Int) + (divCore .binary64 m e n f).2.1 - 52 ≤ 970 := by omega
  obtain ⟨k, g, shape, fits⟩ :=
    roundWithAccuracy_exponent (s / s') (divCore .binary64 m e n f).2.2 least lower fits
  rw [div_finite_finite, shape]
  exact finiteOrZero_finite _ _ fits

private theorem log2_units {s : Sign} {m : Nat} {e : Int} {hm : 0 < m} (least : -1074 ≤ e) :
    ((units (.finite s m e hm)).natAbs.log2 : Int) = m.log2 + e + 1074 := by
  have magnitude : (units (.finite s m e hm)).natAbs = m * 2 ^ (e + 1074).toNat := by
    rw [units_finite]
    cases s <;> simp only [Sign.apply] <;> omega
  rw [magnitude, log2_scale hm]
  omega

/-- A quotient is finite as long as the divided number is not too many digits longer. -/
private theorem div_finite_of_digits {x y : Float} (finite : x.isFinite = true) (finite' : y.isFinite = true)
    (nonzero : unitsOf y ≠ 0) (digits : (unitsOf x).natAbs.log2 ≤ (unitsOf y).natAbs.log2 + 1022) :
    (x / y).isFinite = true := by
  have form := regular x
  have form' := regular y
  change x.toModel.unpack.isFinite = true at finite
  change y.toModel.unpack.isFinite = true at finite'
  change (x / y).toModel.unpack.isFinite = true
  rw [div_unpack]
  unfold unitsOf at nonzero digits
  generalize x.toModel.unpack = u at *
  generalize y.toModel.unpack = v at *
  cases v with
  | notANumber | infinity _ => cases finite'
  | zero _ => exact absurd rfl nonzero
  | finite s' n f hn =>
    cases u with
    | notANumber | infinity _ => cases finite
    | zero s => exact unpack_pack_of (P := (·.isFinite = true)) trivial rfl
    | finite s m e hm =>
      have length := @log2_units s m e hm form.2.1
      have length' := @log2_units s' n f hn form'.2.1
      exact div_parts_finite s s' hm hn (by omega)

private theorem div_by_infinity {x y : Float} (finite : x.isFinite = true) (defined : y.isNaN = false)
    (infinite : y.isFinite = false) : (x / y).isFinite = true := by
  change x.toModel.unpack.isFinite = true at finite
  change y.toModel.unpack.isNaN = false at defined
  change y.toModel.unpack.isFinite = false at infinite
  change (x / y).toModel.unpack.isFinite = true
  rw [div_unpack]
  generalize x.toModel.unpack = u at *
  generalize y.toModel.unpack = v at *
  cases v with
  | notANumber => cases defined
  | zero _ | finite _ _ _ _ => cases infinite
  | infinity s' =>
    cases u with
    | notANumber | infinity _ => cases finite
    | zero _ | finite _ _ _ _ => exact unpack_pack_of (P := (·.isFinite = true)) trivial rfl

/-- The quotient of a number by a greater one is finite. -/
theorem div_finite {x y : Float} (finite : x.isFinite = true) (positive : 0.0 < y) (least : 0.0 ≤ x) (most : x ≤ y) :
    (x / y).isFinite = true := by
  have start : unitsOf (0.0 : Float) = 0 := rfl
  have first := (le_iff.mp least).2.2
  obtain ⟨_, defined, second⟩ := le_iff.mp most
  have third := (lt_iff.mp positive).2.2
  rw [start] at first third
  cases bounded : y.isFinite with
  | false => exact div_by_infinity finite defined bounded
  | true =>
    have shorter : (unitsOf x).natAbs.log2 ≤ (unitsOf y).natAbs.log2 := by
      rw [Nat.log2_eq_log_two, Nat.log2_eq_log_two]
      exact Nat.log_mono_right (by omega)
    exact div_finite_of_digits finite bounded third.ne' (by omega)

/-- What is not finite does not become so by division. -/
theorem infinite_div {x y : Float} (infinite : x.isFinite = false) (finite : y.isFinite = true) :
    (x / y).isFinite = false := by
  change x.toModel.unpack.isFinite = false at infinite
  change y.toModel.unpack.isFinite = true at finite
  change (x / y).toModel.unpack.isFinite = false
  rw [div_unpack]
  generalize x.toModel.unpack = u at *
  generalize y.toModel.unpack = v at *
  cases u with
  | zero _ | finite _ _ _ _ => cases infinite
  | notANumber =>
    exact unpack_pack_of (P := (·.isFinite = false)) trivial rfl
  | infinity s =>
    cases v with
    | notANumber | infinity _ => cases finite
    | zero _ | finite _ _ _ _ =>
      exact unpack_pack_of (P := (·.isFinite = false)) trivial rfl

/-- Division by two or more takes a digit off, so rounding cannot overflow. -/
theorem div_finite_of_two_le {x y : Float} (finite : x.isFinite = true) (finite' : y.isFinite = true) (two : 2.0 ≤ y) :
    (x / y).isFinite = true := by
  have double : unitsOf (2.0 : Float) = (2 ^ 1075 : Nat) := by decide +kernel
  have reached := (le_iff.mp two).2.2
  rw [double] at reached
  have power : 0 < 2 ^ 1075 := by positivity
  have least : 1075 ≤ (unitsOf y).natAbs.log2 := (Nat.le_log2 (by omega)).mpr (by omega)
  have bounds : -(overflow : Int) < unitsOf x ∧ unitsOf x < overflow := units_bounds (regular x) finite
  unfold overflow at bounds
  have most : (unitsOf x).natAbs.log2 ≤ 2097 := log2_le_of_lt (by omega)
  exact div_finite_of_digits finite finite' (by omega) (by omega)

/-- Division by one only shifts digits. -/
private theorem divCore_one {m : Nat} {e : Int} (digits : m.log2 ≤ 52) (least : -1074 ≤ e) :
    ∃ low, -1074 ≤ low ∧ low ≤ e ∧ low ≤ max ((m.log2 : Int) + e - 52) (-1074) ∧
      divCore .binary64 m e (2 ^ 52) (-52) = (m * 2 ^ (e - low).toNat, low, .exact) := by
  have unit : (2 ^ 52 : Nat).log2 = 52 := Nat.log2_two_pow
  generalize lowest : min (e - -52) (max ((m.log2 : Int) + 1 + e - ((2 ^ 52 : Nat).log2 + 1 + -52) - 53) (-1074)) = low
  have inside : -1074 ≤ low ∧ low ≤ e ∧ low ≤ max ((m.log2 : Int) + e - 52) (-1074) := by omega
  have shifted : m * 2 ^ (e - -52 - low).toNat = m * 2 ^ (e - low).toNat * 2 ^ 52 := by
    rw [Nat.mul_assoc, ← Nat.pow_add]
    congr 2
    omega
  refine ⟨low, inside.1, inside.2.1, inside.2.2, ?_⟩
  rw [divCore_eq]
  simp only [lowest, shifted]
  rw [Nat.mul_div_cancel _ (by decide), Nat.mul_mod_left]
  rfl

/-- A rounded number has no greater exponent than a short one of the same value. -/
private theorem rounded_exponent {m n : Nat} {e f : Int} (rounded : Rounded n f) (hm : 0 < m) (digits : m.log2 ≤ 52)
    (least : -1074 ≤ e) (greatest : e ≤ 971) (value : n * 2 ^ (f + 1074).toNat = m * 2 ^ (e + 1074).toNat) : f ≤ 971 := by
  rcases rounded.leading with leading | lowest
  · have positive : 0 < n := Nat.lt_of_lt_of_le (by decide) leading
    have top : 52 ≤ n.log2 := (Nat.le_log2 positive.ne').mpr leading
    have same := congrArg Nat.log2 value
    rw [log2_scale positive, log2_scale hm] at same
    have := rounded.least
    omega
  · omega

theorem div_one_finite {x : Float} (finite : x.isFinite = true) : (x / 1.0).isFinite = true := by
  have form := regular x
  have one : (1.0 : Float).toModel.unpack = .finite .positive (2 ^ 52) (-52) (by decide) := rfl
  change x.toModel.unpack.isFinite = true at finite
  change (x / 1.0).toModel.unpack.isFinite = true
  rw [div_unpack, one]
  generalize x.toModel.unpack = u at *
  cases u with
  | notANumber | infinity _ => cases finite
  | zero s =>
    exact unpack_pack_of (P := (·.isFinite = true)) trivial rfl
  | finite s m e hm =>
    obtain ⟨short, least, greatest, _⟩ := form
    have digits : m.log2 ≤ 52 := log2_le_of_lt short
    obtain ⟨low, lowest, below, fits, core⟩ := divCore_one digits least
    have longer : 0 < m * 2 ^ (e - low).toNat := by positivity
    have length := log2_scale hm (e - low).toNat
    obtain ⟨n, f, rounded, value, shape⟩ := roundWithAccuracy_eq (s / .positive) longer (e := low) lowest (by omega)
    have whole : m * 2 ^ (e - low).toNat * 2 ^ (low + 1074).toNat = m * 2 ^ (e + 1074).toNat := by
      rw [Nat.mul_assoc, ← Nat.pow_add]
      congr 2
      omega
    rw [whole, nearest_of_short short] at value
    have quotient : div .binary64 (.finite s m e hm) (.finite .positive (2 ^ 52) (-52) (by decide)) =
        finiteOrZero (s / .positive) n f := by
      rw [← shape, div_finite_finite, core]
    rw [quotient]
    exact finiteOrZero_finite _ _ (rounded_exponent rounded hm digits least greatest value)

theorem mul_nothing {x y : Float} (finite : x.isFinite = true) (finite' : y.isFinite = true)
    (zero : (x == 0.0) = true ∨ (y == 0.0) = true) : (x * y == 0.0) = true := by
  change x.toModel.unpack.isFinite = true at finite
  change y.toModel.unpack.isFinite = true at finite'
  obtain ⟨s, product⟩ : ∃ s, mul .binary64 x.toModel.unpack y.toModel.unpack = .zero s := by
    rcases zero with zero | zero <;> obtain ⟨s, parts⟩ := parts_of_zero zero
    · rw [parts]
      cases other : y.toModel.unpack with
      | notANumber | infinity _ => exact Bool.noConfusion (other ▸ finite')
      | zero _ | finite _ _ _ _ => exact ⟨_, rfl⟩
    · rw [parts]
      cases other : x.toModel.unpack with
      | notANumber | infinity _ => exact Bool.noConfusion (other ▸ finite)
      | zero _ | finite _ _ _ _ => exact ⟨_, rfl⟩
  change ((x * y).toModel.unpack.compare (0.0 : Float).toModel.unpack == some .eq) = true
  rw [mul_unpack, product]
  exact unpack_pack_of (P := fun parts => (parts.compare _ == some .eq) = true) trivial rfl

private theorem packed_undefined : (⟨Float.Model.pack .notANumber⟩ : Float).isNaN = true := by decide

/-- A product with zero is a zero of either sign, unless the other number is not finite. -/
theorem zero_mul_cases (x : Float) : 0.0 * x = 0.0 ∨ 0.0 * x = -0.0 ∨ (0.0 * x).isNaN = true := by
  have product : 0.0 * x = ⟨Float.Model.pack (mul .binary64 (.zero .positive) x.toModel.unpack)⟩ := rfl
  rw [product]
  cases x.toModel.unpack with
  | notANumber | infinity _ => exact Or.inr (Or.inr packed_undefined)
  | zero s | finite s _ _ _ =>
    cases s with
    | negative => exact Or.inr (Or.inl rfl)
    | positive => exact Or.inl rfl

theorem div_nothing {x : Float} (zero : (x == 0.0) = true) (y : Float) :
    (x / y == 0.0) = true ∨ (x / y).isNaN = true := by
  obtain ⟨s, parts⟩ := parts_of_zero zero
  cases other : y.toModel.unpack with
  | notANumber | zero _ =>
    refine Or.inr (undefined_packed ?_)
    rw [div_unpack, parts, other]
    rfl
  | infinity _ | finite _ _ _ _ =>
    refine Or.inl ?_
    change ((x / y).toModel.unpack.compare (0.0 : Float).toModel.unpack == some .eq) = true
    rw [div_unpack, parts, other]
    exact unpack_pack_of (P := fun parts => (parts.compare _ == some .eq) = true) trivial rfl

theorem finite_of_nothing {x : Float} (zero : (x == 0.0) = true) : x.isFinite = true := by
  obtain ⟨s, parts⟩ := parts_of_zero zero
  change x.toModel.unpack.isFinite = true
  rw [parts]
  rfl

theorem add_nothing {x y : Float} (finite : x.isFinite = true) (zero : (y == 0.0) = true) : (x == x + y) = true := by
  obtain ⟨defined, sum⟩ := unitsOf_add finite (finite_of_nothing zero)
  refine beq_iff.mpr ⟨defined_of_finite finite, defined, ?_⟩
  rw [sum, unitsOf_zero zero, Int.add_zero]
  exact (held_units (regular x) finite).symm

end Tween.Binary64
