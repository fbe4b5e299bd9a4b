import Mathlib.Algebra.Order.Field.Basic
import Mathlib.Analysis.SpecialFunctions.Pow.Real
import Mathlib.Analysis.SpecialFunctions.Trigonometric.Inverse
import Tween.Proofs.ScalarOrder

/-! Arithmetic without rounding. An ordered field has the operations that matter for the order of
times and for distances between them; roots, angles and the rounding of values are given beside it,
and no law here asks anything of them. -/

namespace Tween

/-- What a scalar needs beyond the operations of an ordered field. -/
structure Functions (α : Type) where
  sqrt : α → α
  cos : α → α
  sin : α → α
  acos : α → α
  pow : α → α → α
  pi : α
  round : α → α
  remainder : α → α → α

namespace Scalar

/-- Every number is finite and equal to itself. -/
@[reducible]
def ofField {α : Type} [Field α] [LinearOrder α] (functions : Functions α) : Scalar α where
  add := (· + ·)
  sub := (· - ·)
  mul := (· * ·)
  div := (· / ·)
  neg := (- ·)
  le := (· ≤ ·)
  lt := (· < ·)
  beq a b := decide (a = b)
  ofScientific := OfScientific.ofScientific
  decideLE := inferInstance
  decideLT := inferInstance
  isFinite _ := true
  abs a := max a (-a)
  sqrt := functions.sqrt
  cos := functions.cos
  sin := functions.sin
  acos := functions.acos
  pow := functions.pow
  pi := functions.pi
  round := functions.round
  remainder := functions.remainder

/-- Sums that lose nothing: a term on both sides of a comparison or of a difference cancels. -/
class ExactSums (α : Type) [Scalar α] : Prop extends OrderLaws α where
  add_assoc (a b c : α) : a + b + c = a + (b + c)
  sub_shift (a b shift : α) : a + shift - (b + shift) = a - b
  le_shift_iff {a b shift : α} : a + shift ≤ b + shift ↔ a ≤ b

theorem ofField_exactSums {α : Type} [Field α] [LinearOrder α] [IsStrictOrderedRing α] (functions : Functions α) :
    @ExactSums α (Scalar.ofField functions) :=
  letI := Scalar.ofField functions
  { le_trans := le_trans
    le_total := fun _ _ => le_total _ _
    le_defined := fun _ => ⟨le_rfl, le_rfl⟩
    lt_iff := lt_iff_le_not_ge
    beq_iff := decide_eq_true_iff.trans le_antisymm_iff
    add_assoc := add_assoc
    sub_shift := add_sub_add_right_eq_sub
    le_shift_iff := add_le_add_iff_right _ }

namespace ExactSums
variable {α : Type} [Scalar α] [ExactSums α]

theorem lt_shift_iff {a b shift : α} : a + shift < b + shift ↔ a < b := by
  rw [OrderLaws.lt_iff, OrderLaws.lt_iff, le_shift_iff, le_shift_iff]

theorem beq_shift (a b shift : α) : (a + shift == b + shift) = (a == b) := by
  rw [Bool.eq_iff_iff, OrderLaws.beq_iff, OrderLaws.beq_iff, le_shift_iff, le_shift_iff]

theorem least_shift (a b shift : α) : least (a + shift) (b + shift) = least a b + shift := by
  simp only [least, beq_shift, lt_shift_iff]
  split_ifs <;> rfl

theorem greatest_shift (a b shift : α) : greatest (a + shift) (b + shift) = greatest a b + shift := by
  simp only [greatest, beq_shift, lt_shift_iff]
  split_ifs <;> rfl

end ExactSums
end Scalar

/-- The real numbers with their own roots and angles. -/
noncomputable instance : Scalar ℝ := Scalar.ofField {
  sqrt := Real.sqrt
  cos := Real.cos
  sin := Real.sin
  acos := Real.arccos
  pow := (· ^ ·)
  pi := Real.pi
  round := fun x => if 0 ≤ x then (⌊x + 1 / 2⌋ : ℝ) else (⌈x - 1 / 2⌉ : ℝ)
  remainder := fun x y => x - y * (if 0 ≤ x / y then (⌊x / y⌋ : ℝ) else (⌈x / y⌉ : ℝ)) }

instance : Scalar.ExactSums ℝ := Scalar.ofField_exactSums _

instance lawfulBEq_real : LawfulBEq ℝ where
  eq_of_beq same := of_decide_eq_true same
  rfl := decide_eq_true rfl

end Tween
