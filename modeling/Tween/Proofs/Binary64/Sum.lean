import Tween.Proofs.Binary64.Units

/-! Sums and differences of finite doubles: the whole numbers of units are added exactly and then
rounded to 53 binary digits. Rounding keeps the order, so adding one double to two others does. -/

namespace Tween.Binary64
open Float.Model (Format UnpackedFloat totalExponent)
open Float.Model.UnpackedFloat

/-- The whole number nearest to `n / 2 ^ places`; a half goes to the even neighbour. -/
def shiftRounded (n places : Nat) : Nat :=
  let rest := n % 2 ^ places
  if 2 * rest < 2 ^ places then n / 2 ^ places
  else if 2 * rest = 2 ^ places then n / 2 ^ places + n / 2 ^ places % 2
  else n / 2 ^ places + 1

/-- What the two extra bits of a shifted mantissa say about the part that was shifted out. -/
structure Residue (shifted : ExtendedMantissa) (n places : Nat) : Prop where
  mantissa : shifted.mantissa = n / 2 ^ places
  roundBit : shifted.roundBit = decide (2 ^ places ≤ 2 * (n % 2 ^ places))
  stickyBit : shifted.stickyBit = decide (n % 2 ^ places ≠ 0 ∧ 2 * (n % 2 ^ places) ≠ 2 ^ places)

private theorem residue_step {shifted : ExtendedMantissa} {n places : Nat} (holds : Residue shifted n places) :
    Residue shifted.shiftRightOne n (places + 1) := by
  have size : 2 ^ (places + 1) = 2 * 2 ^ places := by ring
  have below : n % 2 ^ places < 2 ^ places := Nat.mod_lt _ (by positivity)
  have rest : n % 2 ^ (places + 1) = n % 2 ^ places + 2 ^ places * (n / 2 ^ places % 2) := by
    rw [Nat.pow_succ, Nat.mod_mul]
  have bit : n / 2 ^ places % 2 = 0 ∨ n / 2 ^ places % 2 = 1 := by omega
  constructor
  · simp only [ExtendedMantissa.shiftRightOne, holds.mantissa]
    rw [Nat.div_div_eq_div_mul, ← Nat.pow_succ]
  · rw [rest, size, ExtendedMantissa.shiftRightOne, holds.mantissa]
    rcases bit with bit | bit <;> simp only [bit] <;> grind
  · rw [rest, size, ExtendedMantissa.shiftRightOne, holds.roundBit, holds.stickyBit]
    rcases bit with bit | bit <;> rw [bit] <;> grind

private theorem residue_shift (n places : Nat) :
    Residue (ExtendedMantissa.ofMantissaAndAccuracy n .exact >>> places) n places := by
  change Residue (places.repeat ExtendedMantissa.shiftRightOne _) n places
  induction places with
  | zero => constructor <;> simp [Nat.repeat, ExtendedMantissa.ofMantissaAndAccuracy, Nat.mod_one]
  | succ places ih => exact residue_step ih

private theorem Residue.rounded {shifted : ExtendedMantissa} {n places : Nat} (holds : Residue shifted n places) :
    shifted.roundedMantissa = shiftRounded n places := by
  obtain ⟨mantissa, roundBit, stickyBit⟩ := shifted
  obtain ⟨rfl, rfl, rfl⟩ := holds
  have positive : 0 < 2 ^ places := by positivity
  simp only [ExtendedMantissa.roundedMantissa, shiftRounded]
  by_cases half : 2 ^ places ≤ 2 * (n % 2 ^ places)
  · by_cases tie : 2 * (n % 2 ^ places) = 2 ^ places
    · simp [tie, ExtendedMantissa.accuracy, Accuracy.roundToNearestEven]
    · have nonzero : n % 2 ^ places ≠ 0 := by omega
      have above : ¬2 * (n % 2 ^ places) < 2 ^ places := by omega
      simp [half, tie, nonzero, above, ExtendedMantissa.accuracy, Accuracy.roundToNearestEven]
  · have under : 2 * (n % 2 ^ places) < 2 ^ places := by omega
    by_cases exact : n % 2 ^ places = 0
    · simp [exact, positive, ExtendedMantissa.accuracy, Accuracy.roundToNearestEven]
    · have tie : 2 * (n % 2 ^ places) ≠ 2 ^ places := by omega
      simp [half, exact, tie, under, ExtendedMantissa.accuracy, Accuracy.roundToNearestEven]

theorem shiftRounded_mono {m n : Nat} (places : Nat) (ordered : m ≤ n) :
    shiftRounded m places ≤ shiftRounded n places := by
  have quotients : m / 2 ^ places ≤ n / 2 ^ places := Nat.div_le_div_right ordered
  have positive : 0 < 2 ^ places := by positivity
  have whole := Nat.div_add_mod m (2 ^ places)
  have whole' := Nat.div_add_mod n (2 ^ places)
  by_cases same : m / 2 ^ places = n / 2 ^ places
  · rw [same] at whole
    have rests : m % 2 ^ places ≤ n % 2 ^ places := by omega
    simp only [shiftRounded, same]
    split_ifs <;> omega
  · simp only [shiftRounded]
    split_ifs <;> omega

theorem shiftRounded_bounds (n places : Nat) :
    n / 2 ^ places ≤ shiftRounded n places ∧ shiftRounded n places ≤ n / 2 ^ places + 1 := by
  simp only [shiftRounded]
  split
  · omega
  · split <;> omega

theorem shiftRounded_scale (n places more : Nat) :
    shiftRounded (n * 2 ^ more) (places + more) = shiftRounded n places := by
  have positive : 0 < 2 ^ more := by positivity
  have quotient : n * 2 ^ more / 2 ^ (places + more) = n / 2 ^ places := by
    rw [Nat.pow_add, Nat.mul_div_mul_right _ _ positive]
  have rest : n * 2 ^ more % 2 ^ (places + more) = n % 2 ^ places * 2 ^ more := by
    rw [Nat.pow_add, Nat.mul_mod_mul_right]
  have below : 2 * (n % 2 ^ places * 2 ^ more) < 2 ^ (places + more) ↔ 2 * (n % 2 ^ places) < 2 ^ places := by
    rw [Nat.pow_add, ← Nat.mul_assoc, Nat.mul_lt_mul_right positive]
  have tie : 2 * (n % 2 ^ places * 2 ^ more) = 2 ^ (places + more) ↔ 2 * (n % 2 ^ places) = 2 ^ places := by
    rw [Nat.pow_add, ← Nat.mul_assoc, Nat.mul_left_inj positive.ne']
  unfold shiftRounded
  simp only [quotient, rest, below, tie]

/-! Rounding to 53 binary digits. -/

/-- How many digits of `n` are rounded off. -/
def excess (n : Nat) : Nat := n.log2 + 1 - 53

def nearest (n : Nat) : Nat := shiftRounded n (excess n) * 2 ^ excess n

private theorem lt_excess (n : Nat) : n / 2 ^ excess n < 2 ^ 53 := by
  rw [Nat.div_lt_iff_lt_mul (by positivity), ← Nat.pow_add]
  calc n < 2 ^ (n.log2 + 1) := Nat.lt_log2_self
    _ ≤ 2 ^ (53 + excess n) := Nat.pow_le_pow_right (by omega) (by unfold excess; omega)

/-- Digits are rounded off only where the leading one stays. -/
private theorem leading_excess {n : Nat} (long : 0 < excess n) : 2 ^ 52 ≤ n / 2 ^ excess n := by
  have nonzero : n ≠ 0 := by
    rintro rfl
    simp [excess] at long
  rw [Nat.le_div_iff_mul_le (by positivity), ← Nat.pow_add]
  calc 2 ^ (52 + excess n) = 2 ^ n.log2 := by unfold excess at long ⊢; congr 1; omega
    _ ≤ n := Nat.log2_self_le nonzero

theorem nearest_mono {m n : Nat} (ordered : m ≤ n) : nearest m ≤ nearest n := by
  rcases Nat.eq_zero_or_pos m with rfl | positive
  · simp [nearest, excess, shiftRounded]
  have digits : m.log2 ≤ n.log2 :=
    (Nat.le_log2 (by omega)).mpr (Nat.le_trans (Nat.log2_self_le (by omega)) ordered)
  have places : excess m ≤ excess n := by unfold excess; omega
  rcases Nat.eq_or_lt_of_le places with same | fewer
  · unfold nearest
    rw [← same]
    exact Nat.mul_le_mul_right _ (shiftRounded_mono _ ordered)
  · -- The longer number has a digit above everything that the shorter one can round to.
    have upper : shiftRounded m (excess m) ≤ 2 ^ 53 :=
      (shiftRounded_bounds m _).2.trans (lt_excess m)
    have lower : 2 ^ 52 ≤ shiftRounded n (excess n) :=
      (leading_excess (by omega)).trans (shiftRounded_bounds n _).1
    calc nearest m ≤ 2 ^ 53 * 2 ^ excess m := Nat.mul_le_mul_right _ upper
      _ = 2 ^ 52 * 2 ^ (excess m + 1) := by ring
      _ ≤ shiftRounded n (excess n) * 2 ^ excess n :=
        Nat.mul_le_mul lower (Nat.pow_le_pow_right (by omega) fewer)

theorem log2_le_of_lt {n digits : Nat} (short : n < 2 ^ (digits + 1)) : n.log2 ≤ digits := by
  rcases Nat.eq_zero_or_pos n with rfl | positive
  · exact Nat.zero_le _
  · exact Nat.le_of_lt_succ ((Nat.log2_lt positive.ne').mpr short)

theorem log2_scale {m : Nat} (positive : 0 < m) (places : Nat) : (m * 2 ^ places).log2 = m.log2 + places := by
  have scaled : m * 2 ^ places ≠ 0 := (Nat.mul_pos positive (by positivity)).ne'
  apply Nat.le_antisymm
  · apply Nat.le_of_lt_succ
    rw [Nat.log2_lt scaled]
    calc m * 2 ^ places < 2 ^ (m.log2 + 1) * 2 ^ places :=
          Nat.mul_lt_mul_of_pos_right Nat.lt_log2_self (by positivity)
      _ = 2 ^ (m.log2 + places).succ := by rw [← Nat.pow_add]; congr 1; omega
  · rw [Nat.le_log2 scaled, Nat.pow_add]
    exact Nat.mul_le_mul_right _ (Nat.log2_self_le positive.ne')

private theorem shiftRounded_exact (n : Nat) {places fewer : Nat} (enough : fewer ≤ places) :
    shiftRounded (n * 2 ^ places) fewer * 2 ^ fewer = n * 2 ^ places := by
  obtain ⟨kept, rfl⟩ := Nat.exists_eq_add_of_le' enough
  rw [Nat.pow_add, ← Nat.mul_assoc]
  simp [shiftRounded]

/-- What has at most 53 digits is not rounded. -/
theorem nearest_of_short {m : Nat} (short : m < 2 ^ 53) (places : Nat) :
    nearest (m * 2 ^ places) = m * 2 ^ places := by
  rcases Nat.eq_zero_or_pos m with rfl | positive
  · simp [nearest, shiftRounded]
  have digits := (Nat.log2_lt positive.ne').mpr short
  apply shiftRounded_exact
  rw [excess, log2_scale positive]
  omega

/-- A number of units as a double can hold it: rounded, and cut off at the overflow. -/
def held : Int → Int
  | .ofNat n => (min (nearest n) overflow : Nat)
  | .negSucc n => -(min (nearest (n + 1)) overflow : Nat)

theorem held_mono {a b : Int} (ordered : a ≤ b) : held a ≤ held b := by
  have capped {m n : Nat} (less : m ≤ n) : min (nearest m) overflow ≤ min (nearest n) overflow := by
    have := nearest_mono less
    omega
  cases a with
  | ofNat m =>
    cases b with
    | ofNat n => exact Int.ofNat_le.mpr (capped (Int.ofNat_le.mp ordered))
    | negSucc n => exact absurd (Int.le_trans (Int.natCast_nonneg m) ordered) (Int.not_le.mpr (Int.negSucc_lt_zero n))
  | negSucc m =>
    cases b with
    | ofNat n => simp only [held]; omega
    | negSucc n =>
      have := capped (show n + 1 ≤ m + 1 by omega)
      simp only [held]
      omega

theorem held_sign (s : Sign) (n : Nat) : held (s.apply n) = s.apply (min (nearest n) overflow : Nat) := by
  cases s with
  | positive => rfl
  | negative =>
    cases n with
    | zero => simp [held, Sign.apply, nearest, shiftRounded]
    | succ n => rfl

theorem held_units {u : UnpackedFloat} (regular : Regular u) (finite : u.isFinite = true) :
    held (units u) = units u := by
  cases u with
  | notANumber => contradiction
  | infinity _ => contradiction
  | zero s => simp [held, nearest, shiftRounded]
  | finite s m e hm =>
    have bound := finite_lt_overflow regular
    rw [units_finite, held_sign, nearest_of_short regular.1, Nat.min_eq_left bound.le]

/-! The steps of the format's own rounding. -/

private theorem targetExponent_eq (total : Int) : Format.binary64.targetExponent total = max (total - 53) (-1074) := by
  have digits : (Format.binary64.mantissaBits : Int) = 53 := rfl
  have least : Format.binary64.minExponent = -1074 := rfl
  rw [Format.targetExponent, digits, least]

/-- A mantissa and an exponent that rounding and packing may meet. -/
structure Rounded (m : Nat) (e : Int) : Prop where
  short : m < 2 ^ 53
  least : -1074 ≤ e
  leading : 2 ^ 52 ≤ m ∨ e = -1074

private theorem shift_eq (m : Nat) (e : Int) :
    shiftToTargetExponent .binary64 m e .exact =
      let places := (max (m.log2 + 1 + e - 53) (-1074) - e).toNat
      (ExtendedMantissa.ofMantissaAndAccuracy m .exact >>> places, e + places) := by
  simp only [shiftToTargetExponent, shiftToExponent, targetExponent_eq, totalExponent]

def finiteOrZero (s : Sign) (m : Nat) (e : Int) : UnpackedFloat :=
  if h : m = 0 then .zero s else .finite s m e (Nat.pos_of_ne_zero h)

private theorem roundWithAccuracy_shifts (s : Sign) (m : Nat) (e : Int) :
    roundWithAccuracy .binary64 s m e .exact =
      let first := shiftToTargetExponent .binary64 m e .exact
      let second := shiftToTargetExponent .binary64 first.1.roundedMantissa first.2 .exact
      finiteOrZero s second.1.mantissa second.2 := rfl

/-- What is rounded already is not shifted again. -/
private theorem shift_rounded {n : Nat} {f : Int} (rounded : Rounded n f) :
    shiftToTargetExponent .binary64 n f .exact = (⟨n, false, false⟩, f) := by
  have digits : n.log2 ≤ 52 := log2_le_of_lt rounded.short
  have least := rounded.least
  rw [shift_eq, show (max ((n.log2 : Int) + 1 + f - 53) (-1074) - f).toNat = 0 by omega]
  simp [ExtendedMantissa.ofMantissaAndAccuracy, HShiftRight.hShiftRight, Nat.repeat]

/-- A mantissa that rounding made one digit longer is shifted by that digit. -/
private theorem shift_carry {f : Int} (least : -1074 ≤ f) :
    shiftToTargetExponent .binary64 (2 ^ 53) f .exact = (⟨2 ^ 52, false, false⟩, f + 1) := by
  have once : (max (((2 ^ 53 : Nat).log2 : Int) + 1 + f - 53) (-1074) - f).toNat = 1 := by
    rw [Nat.log2_two_pow]
    omega
  rw [shift_eq, once]
  rfl

/-- One shift to the target exponent is enough, but for a mantissa that rounding made one digit longer. -/
theorem roundWithAccuracy_eq (s : Sign) {m : Nat} {e : Int} (positive : 0 < m) (least : -1074 ≤ e)
    (low : e ≤ max (m.log2 + 1 + e - 53) (-1074)) :
    ∃ n f, Rounded n f ∧ n * 2 ^ (f + 1074).toNat = nearest (m * 2 ^ (e + 1074).toNat) ∧
      roundWithAccuracy .binary64 s m e .exact = finiteOrZero s n f := by
  let places := (max ((m.log2 : Int) + 1 + e - 53) (-1074) - e).toNat
  let scale := (e + 1074).toNat
  let f := e + places
  let n := shiftRounded m places
  have digits : excess (m * 2 ^ scale) = places + scale := by
    rw [excess, log2_scale positive]
    omega
  have value : nearest (m * 2 ^ scale) = n * 2 ^ (f + 1074).toNat := by
    rw [nearest, digits, shiftRounded_scale, show (f + 1074).toNat = places + scale by omega]
  have short := lt_excess (m * 2 ^ scale)
  have bounds := shiftRounded_bounds (m * 2 ^ scale) (excess (m * 2 ^ scale))
  rw [digits, shiftRounded_scale] at bounds
  rw [digits] at short
  have top : n ≤ 2 ^ 53 := by omega
  have leading : 2 ^ 52 ≤ n ∨ f = -1074 := by
    by_cases long : 0 < excess (m * 2 ^ scale)
    · have := leading_excess long
      rw [digits] at this
      exact Or.inl (this.trans bounds.1)
    · exact Or.inr (by omega)
  have shape {n' : Nat} {f' : Int} (second : shiftToTargetExponent .binary64 n f .exact
      = (⟨n', false, false⟩, f')) : roundWithAccuracy .binary64 s m e .exact = finiteOrZero s n' f' := by
    have first : (ExtendedMantissa.ofMantissaAndAccuracy m .exact >>> places).roundedMantissa = n :=
      (residue_shift m places).rounded
    rw [roundWithAccuracy_shifts, shift_eq m e]
    simp only
    rw [show (ExtendedMantissa.ofMantissaAndAccuracy m .exact >>>
      (max ((m.log2 : Int) + 1 + e - 53) (-1074) - e).toNat).roundedMantissa = n from first, second]
  -- Rounding up can carry into one more digit, which the second shift takes off again.
  rcases top.lt_or_eq with below | carry
  · have rounded : Rounded n f := ⟨below, by omega, leading⟩
    exact ⟨n, f, rounded, value.symm, shape (shift_rounded rounded)⟩
  · refine ⟨2 ^ 52, f + 1, ⟨by decide, by omega, Or.inl (Nat.le_refl _)⟩, ?_, shape ?_⟩
    · rw [value, carry, show (f + 1 + 1074).toNat = (f + 1074).toNat + 1 by omega]
      ring
    · rw [carry]
      exact shift_carry (by omega)

/-- Packing keeps a rounded number or turns it into an infinity when it reaches the overflow. -/
theorem unpack_pack_rounded (s : Sign) {n : Nat} {f : Int} (rounded : Rounded n f) :
    let parts := unpack .binary64 (pack .binary64 (finiteOrZero s n f))
    parts.isNaN = false ∧ units parts = s.apply (min (n * 2 ^ (f + 1074).toNat) overflow : Nat) := by
  unfold finiteOrZero
  obtain ⟨short, least, leading⟩ := rounded
  rcases Nat.eq_zero_or_pos n with rfl | positive
  · rw [dif_pos rfl, unpack_pack (u := .zero s) trivial]
    refine ⟨rfl, ?_⟩
    cases s <;> simp [Sign.apply]
  rw [dif_neg positive.ne']
  by_cases fits : f ≤ 971
  · have regular : Regular (.finite s n f positive) := ⟨short, least, fits, leading⟩
    rw [unpack_pack regular, Nat.min_eq_left (finite_lt_overflow regular).le]
    exact ⟨rfl, rfl⟩
  · have infinite : pack .binary64 (.finite s n f positive) = pack .binary64 (.infinity s) := by
      have bias : ((Format.binary64.exponentBias : Nat) : Int) = 1023 := rfl
      have width : ((Format.binary64.mantissaBitsWithoutImplicit : Nat) : Int) = 52 := rfl
      unfold pack
      dsimp only
      rw [bias, width, if_pos (by omega)]
    have reached : overflow ≤ n * 2 ^ (f + 1074).toNat := by
      unfold overflow
      calc 2 ^ 2098 = 2 ^ 52 * 2 ^ 2046 := by rw [← Nat.pow_add]
        _ ≤ n * 2 ^ (f + 1074).toNat := Nat.mul_le_mul (by omega) (pow_le_pow_right₀ (by omega) (by omega))
    rw [infinite, unpack_pack (u := .infinity s) trivial, Nat.min_eq_right reached]
    exact ⟨rfl, rfl⟩

private theorem round_units (s : Sign) {m : Nat} {e : Int} (positive : 0 < m) (least : -1074 ≤ e) :
    let parts := unpack .binary64 (pack .binary64 (UnpackedFloat.round .binary64 s m e))
    parts.isNaN = false ∧ units parts = held (s.apply (m * 2 ^ (e + 1074).toNat : Nat)) := by
  let target := max ((m.log2 : Int) + 1 + e - 53) (-1074)
  let places := (e - target).toNat
  have longer : 0 < m * 2 ^ places := by positivity
  have digits := log2_scale positive places
  obtain ⟨n, f, rounded, value, shape⟩ := roundWithAccuracy_eq s longer (e := e - places) (by omega) (by omega)
  have unchanged : m * 2 ^ places * 2 ^ (e - places + 1074).toNat = m * 2 ^ (e + 1074).toNat := by
    rw [Nat.mul_assoc, ← Nat.pow_add]
    congr 2
    omega
  have steps : UnpackedFloat.round .binary64 s m e = finiteOrZero s n f := by
    rw [← shape, UnpackedFloat.round, targetExponent_eq]
    simp only [totalExponent, decreaseExponent, Nat.shiftLeft_eq]
    rfl
  rw [steps, held_sign, ← unchanged, ← value]
  exact unpack_pack_rounded s rounded

theorem normalize_units (sum : Int) {e : Int} (least : -1074 ≤ e) :
    let parts := unpack .binary64 (pack .binary64 (UnpackedFloat.normalize .binary64 sum e .positive))
    parts.isNaN = false ∧ units parts = held (sum * 2 ^ (e + 1074).toNat) := by
  rcases lt_trichotomy sum 0 with negative | rfl | positive
  · have steps := round_units .negative (m := (-sum).toNat) (by omega) least
    have magnitude : Sign.negative.apply ((-sum).toNat * 2 ^ (e + 1074).toNat : Nat) = sum * 2 ^ (e + 1074).toNat := by
      rw [Sign.apply, Int.natCast_mul, Int.toNat_of_nonneg (by omega)]
      push_cast
      ring
    rw [magnitude] at steps
    simpa only [UnpackedFloat.normalize, compare_lt_iff_lt.mpr negative] using steps
  · have zero : UnpackedFloat.normalize .binary64 0 e .positive = .zero .positive := rfl
    rw [zero, unpack_pack (u := .zero _) trivial]
    refine ⟨rfl, ?_⟩
    simp [held, nearest, shiftRounded]
  · have steps := round_units .positive (m := sum.toNat) (by omega) least
    have magnitude : Sign.positive.apply (sum.toNat * 2 ^ (e + 1074).toNat : Nat) = sum * 2 ^ (e + 1074).toNat := by
      rw [Sign.apply, Int.natCast_mul, Int.toNat_of_nonneg (by omega)]
      push_cast
      rfl
    rw [magnitude] at steps
    simpa only [UnpackedFloat.normalize, compare_gt_iff_gt.mpr positive] using steps

private theorem decreased_units {s : Sign} {m : Nat} {e low : Int} (hm : 0 < m) (least : -1074 ≤ low) (enough : low ≤ e) :
    s.apply ((decreaseExponent m e low).1 : Nat) * 2 ^ (low + 1074).toNat = units (.finite s m e hm) := by
  have places : (e + 1074).toNat = (e - low).toNat + (low + 1074).toNat := by omega
  rw [decreaseExponent, Nat.shiftLeft_eq, units_finite, places, Nat.pow_add]
  cases s <;> simp only [Sign.apply] <;> push_cast <;> ring

private theorem packed_units {u : UnpackedFloat} (regular : Regular u) (finite : u.isFinite = true) :
    let parts := unpack .binary64 (pack .binary64 u)
    parts.isNaN = false ∧ units parts = held (units u) := by
  rw [unpack_pack regular, held_units regular finite]
  refine ⟨?_, rfl⟩
  cases u with
  | notANumber => contradiction
  | infinity _ | zero _ | finite _ _ _ _ => rfl

/-- The sum of two finite doubles is the sum of their units, held as a double. -/
theorem add_units {u v : UnpackedFloat} (first : Regular u) (second : Regular v)
    (finite : u.isFinite = true) (finite' : v.isFinite = true) :
    let parts := unpack .binary64 (pack .binary64 (add .binary64 u v))
    parts.isNaN = false ∧ units parts = held (units u + units v) := by
  cases u with
  | notANumber | infinity _ => contradiction
  | zero s =>
    cases v with
    | notANumber | infinity _ => contradiction
    | zero s' => cases s <;> cases s' <;> exact packed_units (u := .zero _) trivial rfl
    | finite s' n f hn =>
      rw [units_zero, Int.zero_add]
      exact packed_units second rfl
  | finite s m e hm =>
    cases v with
    | notANumber | infinity _ => contradiction
    | zero s' =>
      rw [units_zero, Int.add_zero]
      exact packed_units first rfl
    | finite s' n f hn =>
      have low : -1074 ≤ min e f := le_min first.2.1 second.2.1
      have sum := normalize_units (s.apply ((decreaseExponent m e (min e f)).1 : Nat)
        + s'.apply ((decreaseExponent n f (min e f)).1 : Nat)) low
      rw [Int.add_mul, decreased_units hm low (min_le_left e f),
        decreased_units hn low (min_le_right e f)] at sum
      exact sum

end Tween.Binary64
