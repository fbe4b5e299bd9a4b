import Tween.Decimal.Layout
import Tween.Proofs.Binary64.Arithmetic
import Tween.Proofs.Json.Numerals
import Mathlib.Data.List.DropRight

/-! The digits that are selected for a double. A double other than zero gets a decimal other than
zero, whose digits do not start with a zero. -/

namespace Tween

namespace Binary64
open Float.Model (Format UnpackedFloat)
open Float.Model.UnpackedFloat

/-- Without fraction and exponent a double is a zero. -/
private theorem parts_of_fields {x : Float} (least : exponentField x = 0) (none : fractionField x = 0) :
    ∃ s, x.toModel.unpack = .zero s := by
  change ∃ s, unpack .binary64 x.toBits.toBitVec = .zero s
  have exponent : (@unpackExponent .binary64 x.toBits.toBitVec).toNat = exponentField x := by
    have taken : (@unpackExponent .binary64 x.toBits.toBitVec).toNat =
      (BitVec.extractLsb 62 52 x.toBits.toBitVec).toNat := rfl
    have low : x.toBits.toNat >>> 52 &&& 0x7ff = x.toBits.toNat >>> 52 % 2 ^ 11 := Nat.and_two_pow_sub_one_eq_mod _ 11
    rw [taken, BitVec.extractLsb_toNat, UInt64.toNat_toBitVec, exponentField, UInt64.toNat_and,
      UInt64.toNat_shiftRight]
    exact low.symm
  have fraction : (@unpackMantissa .binary64 x.toBits.toBitVec).toNat = fractionField x := by
    have taken : (@unpackMantissa .binary64 x.toBits.toBitVec).toNat =
      (BitVec.extractLsb 51 0 x.toBits.toBitVec).toNat := rfl
    have low : x.toBits.toNat &&& 0xfffffffffffff = x.toBits.toNat % 2 ^ 52 := Nat.and_two_pow_sub_one_eq_mod _ 52
    rw [taken, BitVec.extractLsb_toNat, UInt64.toNat_toBitVec, fractionField, UInt64.toNat_and]
    exact low.symm
  have e : @unpackExponent .binary64 x.toBits.toBitVec = 0#11 := BitVec.eq_of_toNat_eq (exponent.trans least)
  have m : @unpackMantissa .binary64 x.toBits.toBitVec = 0#52 := BitVec.eq_of_toNat_eq (fraction.trans none)
  unfold unpack
  dsimp only
  rw [e, if_neg (by decide), if_pos rfl, dif_pos m]
  exact ⟨_, rfl⟩

theorem mantissa_pos {x : Float} (nonzero : (x == 0.0) = false) : 0 < (magnitude x).mantissa := by
  rw [magnitude]
  split
  next least =>
    by_contra none
    obtain ⟨s, zero⟩ := parts_of_fields least (Nat.eq_zero_of_not_pos none)
    have same : (x == 0.0) = true := by
      refine beq_iff.mpr ⟨?_, rfl, ?_⟩
      · change x.toModel.unpack.isNaN = false
        rw [zero]
        rfl
      · rw [unitsOf, zero]
        rfl
    rw [same] at nonzero
    cases nonzero
  next => exact Nat.add_pos_left (by decide) _

end Binary64

namespace Decimal
open Binary64

/-! No zero is selected for a double that is none. -/

namespace Target
variable {target : Target}

private theorem readsBack_zero (positive : 0 < target.lower) (exponent : Int) :
    target.readsBack ⟨0, exponent⟩ = false := by
  have below : target.compareTo ⟨0, exponent⟩ target.lower = .lt := by
    rw [compareTo, Nat.zero_mul, Nat.zero_mul]
    exact Nat.compare_eq_lt.mpr (Nat.mul_pos positive (Nat.pow_pos (by decide)))
  simp only [readsBack, below]
  cases target.closed <;> rfl

/-- Of the two neighbours on a grid, the lower one is only taken if it reads back. -/
private theorem onGrid?_cases {tie : Tie} {exponent : Int} {d : Scaled} (found : d ∈ target.onGrid? tie exponent) :
    target.readsBack d = true ∧ d = ⟨target.floorAt exponent, exponent⟩ ∨
      d = ⟨target.floorAt exponent + 1, exponent⟩ := by
  unfold onGrid? at found
  grind

private theorem onGrid?_pos (positive : 0 < target.lower) {tie : Tie} {exponent : Int} {d : Scaled}
    (found : d ∈ target.onGrid? tie exponent) : 0 < d.coefficient := by
  rcases onGrid?_cases found with ⟨reads, rfl⟩ | rfl
  · by_contra none
    change ¬0 < target.floorAt exponent at none
    rw [Nat.eq_zero_of_not_pos none, readsBack_zero positive] at reads
    cases reads
  · exact Nat.succ_pos _

private theorem shortest_pos (positive : 0 < target.lower) (nonzero : 0 < target.value) (tie : Tie) :
    0 < (target.shortest tie).coefficient := by
  rw [shortest]
  cases found : (List.range 17).findSome? fun count => target.onGrid? tie (target.decade - (count + 1 : Nat)) with
  | none => exact Nat.mul_pos nonzero (Nat.pow_pos (by decide))
  | some d =>
    obtain ⟨count, _, selected⟩ := List.exists_of_findSome?_eq_some found
    exact onGrid?_pos positive selected

private theorem ofParts_pos {parts : Magnitude} (nonzero : 0 < parts.mantissa) (narrowBelow : Bool) :
    0 < (ofParts parts narrowBelow).lower ∧ 0 < (ofParts parts narrowBelow).value := by
  have ulp : 0 < 2 ^ parts.exponent.toNat := Nat.two_pow_pos _
  have least : 4 * 2 ^ parts.exponent.toNat ≤ 4 * parts.mantissa * 2 ^ parts.exponent.toNat :=
    Nat.mul_le_mul_right _ (by omega)
  change 0 < 4 * parts.mantissa * 2 ^ parts.exponent.toNat - (if narrowBelow then 1 else 2) * 2 ^ parts.exponent.toNat ∧
    0 < 4 * parts.mantissa * 2 ^ parts.exponent.toNat
  cases narrowBelow <;> simp only [if_true, Bool.false_eq_true, if_false] <;> omega

end Target

/-! Digits of a number other than zero do not start with a zero, and the zeros at the end are not
all of them. -/

private theorem toDigits_head {n : Nat} (positive : 0 < n) : (Nat.toDigits 10 n).head? ≠ some '0' := by
  induction n using Nat.strongRecOn with
  | ind n ih =>
    by_cases small : n < 10
    · have nonzero : ∀ digit < 10, 0 < digit → digit.digitChar ≠ '0' := by decide
      rw [Nat.toDigits_of_lt_base small, List.head?_singleton, ne_eq, Option.some.injEq]
      exact nonzero n small positive
    · obtain ⟨first, others, digits⟩ := List.exists_cons_of_ne_nil (@Nat.toDigits_ne_nil (n / 10) 10)
      have before := ih (n / 10) (by omega) (by omega)
      rw [digits] at before
      rw [Nat.toDigits_of_base_le (by decide) (by omega), digits]
      exact before

/-- Digits as they are laid out: only zero itself starts with a zero, and then has the point behind it. -/
structure Digits.Formed (d : Digits) : Prop where
  digits : Numeral.IsDigits d.digits
  leading : d.digits.head? ≠ some '0' ∨ d.digits = ['0'] ∧ d.point = 1

theorem Scaled.toDigits_formed {d : Scaled} (nonzero : 0 < d.coefficient) : d.toDigits.Formed := by
  have leading := toDigits_head nonzero
  have whole : ∀ c ∈ Nat.toDigits 10 d.coefficient, c.isDigit :=
    fun c member => Nat.isDigit_of_mem_toDigits (by decide) (by decide) member
  obtain ⟨zeros, whole_eq⟩ : d.toDigits.digits <+: Nat.toDigits 10 d.coefficient := List.rdropWhile_prefix _ _
  have nonempty : d.toDigits.digits ≠ [] := by
    intro none
    have zeros := List.rdropWhile_eq_nil_iff.mp none
    obtain ⟨first, others, digits⟩ := List.exists_cons_of_ne_nil (@Nat.toDigits_ne_nil d.coefficient 10)
    rw [digits] at zeros leading
    exact leading (congrArg Option.some (beq_iff_eq.mp (zeros first List.mem_cons_self)))
  rw [← whole_eq] at leading whole
  refine ⟨⟨nonempty, fun c member => whole c (List.mem_append_left _ member)⟩, .inl ?_⟩
  rwa [List.head?_append_of_ne_nil _ nonempty] at leading

/-- The selected digits of any double. -/
theorem shortestDigits_formed (tie : Tie) (x : Float) : (shortestDigits tie x).Formed := by
  rw [shortestDigits]
  split
  next => exact ⟨Numeral.isDigits_zero, .inr ⟨rfl, rfl⟩⟩
  next nonzero =>
    have nonzero : (x == 0.0) = false := Bool.eq_false_iff.mpr nonzero
    obtain ⟨lower, value⟩ := Target.ofParts_pos (mantissa_pos nonzero) _
    exact Scaled.toDigits_formed (Target.shortest_pos lower value tie)

/-! The layouts keep to the grammar of numbers. -/

section
variable {d : Digits} (formed : d.Formed) (style : Style) (negative : Bool)
include formed

private theorem plainNumeral_formed : (plainNumeral style negative d).Formed := by
  have all := formed.digits.2
  rw [plainNumeral]
  split
  next =>
    refine ⟨.inl rfl, fun c member => ?_, fun _ none => by cases none⟩
    rcases List.mem_append.mp member with zero | digit
    · rw [List.eq_of_mem_replicate zero]
      rfl
    · exact all c digit
  next inside =>
    refine ⟨?_, fun c member => ?_, fun _ none => by cases none⟩
    · rcases formed.leading with leading | ⟨zero, point⟩
      · obtain ⟨first, others, digits⟩ := List.exists_cons_of_ne_nil formed.digits.1
        obtain ⟨count, more⟩ := Nat.exists_eq_add_of_le' (show 1 ≤ d.point.toNat by omega)
        rw [digits] at all leading
        rw [digits, more]
        refine .inr ⟨⟨List.cons_ne_nil _ _, fun c member => ?_⟩, leading⟩
        rcases List.mem_append.mp member with digit | zero
        · exact all c (List.mem_of_mem_take digit)
        · rw [List.eq_of_mem_replicate zero]
          rfl
      · rw [zero, point]
        exact .inl rfl
    · dsimp only at member
      split at member
      next =>
        rw [List.mem_singleton.mp member]
        rfl
      next => exact all c (List.mem_of_mem_drop member)

private theorem exponentNumeral_formed : (exponentNumeral style negative d).Formed := by
  obtain ⟨first, others, digits⟩ := List.exists_cons_of_ne_nil formed.digits.1
  obtain ⟨⟨_, all⟩, leading⟩ := formed
  have sound : ∀ c ∈ Nat.toDigits 10 (d.point - 1).natAbs, c.isDigit :=
    fun c member => Nat.isDigit_of_mem_toDigits (by decide) (by decide) member
  rw [digits] at all leading
  rw [exponentNumeral, digits]
  refine ⟨?_, fun c member => all c (List.mem_cons_of_mem _ member), fun e same => ?_⟩
  · rcases leading with leading | ⟨zero, _⟩
    · exact .inr ⟨⟨List.cons_ne_nil _ _, fun c member => all c (List.mem_of_mem_take member)⟩, leading⟩
    · rw [zero]
      exact .inl rfl
  · cases same
    exact ⟨Nat.toDigits_ne_nil, sound⟩

end

theorem Style.numeral_formed (style : Style) (x : Float) : (style.numeral x).Formed := by
  have formed := shortestDigits_formed style.tie x
  rw [numeral]
  split
  next => exact plainNumeral_formed formed _ _
  next => exact exponentNumeral_formed formed _ _

end Decimal
end Tween
