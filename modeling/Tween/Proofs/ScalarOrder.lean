import Tween.Scalar
import Tween.Vector
import Tween.Color

/-! The laws of comparison that doubles and exact numbers have in common. Nothing here assumes
that a number is defined: an undefined one is not even equal to itself, and every law that could
fail for it says so. -/

namespace Tween

namespace Scalar

class OrderLaws (α : Type) [Scalar α] : Prop where
  le_trans {a b c : α} : a ≤ b → b ≤ c → a ≤ c
  le_total {a b : α} : a ≤ a → b ≤ b → a ≤ b ∨ b ≤ a
  /-- Whatever is comparable is defined. -/
  le_defined {a b : α} : a ≤ b → a ≤ a ∧ b ≤ b
  lt_iff {a b : α} : a < b ↔ a ≤ b ∧ ¬b ≤ a
  beq_iff {a b : α} : (a == b) = true ↔ a ≤ b ∧ b ≤ a

namespace OrderLaws
variable {α : Type} [Scalar α] [OrderLaws α] {a b c : α}

theorem le_of_lt (less : a < b) : a ≤ b := (lt_iff.mp less).1

theorem not_le_of_lt (less : a < b) : ¬b ≤ a := (lt_iff.mp less).2

theorem lt_of_not_le (left : a ≤ a) (right : b ≤ b) (greater : ¬b ≤ a) : a < b :=
  lt_iff.mpr ⟨(le_total left right).resolve_right greater, greater⟩

theorem le_of_not_lt (left : a ≤ a) (right : b ≤ b) (greater : ¬a < b) : b ≤ a :=
  Decidable.byContradiction fun ahead => greater (lt_of_not_le left right ahead)

theorem le_of_beq (same : (a == b) = true) : a ≤ b := (beq_iff.mp same).1

theorem ge_of_beq (same : (a == b) = true) : b ≤ a := (beq_iff.mp same).2

theorem lt_of_le_of_lt (first : a ≤ b) (second : b < c) : a < c :=
  lt_iff.mpr ⟨le_trans first (le_of_lt second), fun back => not_le_of_lt second (le_trans back first)⟩

theorem lt_of_lt_of_le (first : a < b) (second : b ≤ c) : a < c :=
  lt_iff.mpr ⟨le_trans (le_of_lt first) second, fun back => not_le_of_lt first (le_trans second back)⟩

theorem lt_irrefl : ¬a < a := fun less => not_le_of_lt less (le_of_lt less)

theorem lt_or_beq_of_le (ordered : a ≤ b) : a < b ∨ (a == b) = true := by
  by_cases back : b ≤ a
  · exact Or.inr (beq_iff.mpr ⟨ordered, back⟩)
  · exact Or.inl (lt_iff.mpr ⟨ordered, back⟩)

theorem beq_of_defined (defined : a ≤ a) : (a == a) = true := beq_iff.mpr ⟨defined, defined⟩

/-- Equality is reflexive on defined numbers only, so it is no more than a partial equivalence. -/
instance : PartialEquivBEq α where
  symm same := beq_iff.mpr (beq_iff.mp same).symm
  trans first second := beq_iff.mpr
    ⟨le_trans (le_of_beq first) (le_of_beq second), le_trans (ge_of_beq second) (ge_of_beq first)⟩

end OrderLaws
end Scalar

variable {α : Type} [BEq α]

theorem Vec2.beq_iff {v w : Vec2 α} : (v == w) = true ↔ (v.x == w.x) = true ∧ (v.y == w.y) = true :=
  Bool.and_eq_true_iff

theorem Vec2.beq_of_axes {x y x' y' : α} (first : (x == x') = true) (second : (y == y') = true) :
    ((⟨x, y⟩ : Vec2 α) == ⟨x', y'⟩) = true := Vec2.beq_iff.mpr ⟨first, second⟩

theorem Color.beq_iff {c d : Color α} :
    (c == d) = true ↔ (c.red == d.red) = true ∧ (c.green == d.green) = true ∧ (c.blue == d.blue) = true :=
  Bool.and_eq_true_iff.trans (and_congr_right fun _ => Bool.and_eq_true_iff)

instance [PartialEquivBEq α] : PartialEquivBEq (Vec2 α) where
  symm same := by
    obtain ⟨x, y⟩ := Vec2.beq_iff.mp same
    exact Vec2.beq_iff.mpr ⟨PartialEquivBEq.symm x, PartialEquivBEq.symm y⟩
  trans same next := by
    obtain ⟨x, y⟩ := Vec2.beq_iff.mp same
    obtain ⟨x', y'⟩ := Vec2.beq_iff.mp next
    exact Vec2.beq_iff.mpr ⟨PartialEquivBEq.trans x x', PartialEquivBEq.trans y y'⟩

instance [PartialEquivBEq α] : PartialEquivBEq (Color α) where
  symm same := by
    obtain ⟨red, green, blue⟩ := Color.beq_iff.mp same
    exact Color.beq_iff.mpr ⟨PartialEquivBEq.symm red, PartialEquivBEq.symm green, PartialEquivBEq.symm blue⟩
  trans same next := by
    obtain ⟨red, green, blue⟩ := Color.beq_iff.mp same
    obtain ⟨red', green', blue'⟩ := Color.beq_iff.mp next
    exact Color.beq_iff.mpr
      ⟨PartialEquivBEq.trans red red', PartialEquivBEq.trans green green', PartialEquivBEq.trans blue blue'⟩

instance [LawfulBEq α] : LawfulBEq (Vec2 α) where
  eq_of_beq {v w} same := by
    obtain ⟨x, y⟩ := Vec2.beq_iff.mp same
    exact (Vec2.mk.injEq ..).mpr ⟨eq_of_beq x, eq_of_beq y⟩
  rfl := Vec2.beq_iff.mpr ⟨beq_self_eq_true _, beq_self_eq_true _⟩

instance [LawfulBEq α] : LawfulBEq (Color α) where
  eq_of_beq {c d} same := by
    obtain ⟨red, green, blue⟩ := Color.beq_iff.mp same
    exact (Color.mk.injEq ..).mpr ⟨eq_of_beq red, eq_of_beq green, eq_of_beq blue⟩
  rfl := Color.beq_iff.mpr ⟨beq_self_eq_true _, beq_self_eq_true _, beq_self_eq_true _⟩

end Tween
