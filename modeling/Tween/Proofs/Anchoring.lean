import Tween.Proofs.Binary64.Progress
import Tween.Proofs.Binary64.Rounding
import Tween.Proofs.Exact.Partway
import Tween.Proofs.Playing

/-! Anchoring a blend makes no difference unless a way overflows. Where an anchored player leaves a
value alone, one that measures every way multiplies nothing by a finite number, and adding the product
gives an equal value. Without rounding the two blends are the same. -/

namespace Tween
variable {V : Type} [BEq V]

/-- The difference is finite in every channel. -/
def Color.FiniteWay (c d : Color Float) : Prop :=
  (d.red - c.red).isFinite = true ∧ (d.green - c.green).isFinite = true ∧ (d.blue - c.blue).isFinite = true

namespace Blend

section Rounded

/-- Over a finite way the blend keeps the first value where anchoring does. -/
def Stays (blend : Blend Float V) (finite : V → V → Prop) : Prop :=
  ∀ {a b t}, finite a b → t.isFinite = true → (a == b || t == 0.0) = true → (a == blend a b t) = true

theorem scalar_stays : Stays scalar fun a b => (b - a).isFinite = true := by
  intro a b t way progress still
  obtain ⟨finite', finite⟩ := Binary64.finite_of_sub way
  apply Binary64.add_nothing finite
  apply Binary64.mul_nothing way progress
  apply (Bool.or_eq_true_iff.mp still).imp_left
  intro same
  exact Binary64.sub_equal finite' finite (PartialEquivBEq.symm same)

private theorem still_part {a b : V} {c d t : Float} (still : (a == b || t == 0.0) = true)
    (same : (a == b) = true → (c == d) = true) : (c == d || t == 0.0) = true :=
  Bool.or_eq_true_iff.mpr ((Bool.or_eq_true_iff.mp still).imp_left same)

theorem vec2_stays : Stays vec2 fun a b => (b - a).isFinite = true := by
  intro a b t way progress still
  obtain ⟨x, y⟩ := Binary64.isFinite_vec2.mp way
  apply Vec2.beq_iff.mpr
  constructor
  · exact scalar_stays x progress (still_part still fun same => (Vec2.beq_iff.mp same).1)
  · exact scalar_stays y progress (still_part still fun same => (Vec2.beq_iff.mp same).2)

theorem color_stays : Stays color Color.FiniteWay := by
  intro a b t ⟨red, green, blue⟩ progress still
  apply Color.beq_iff.mpr
  refine ⟨?_, ?_, ?_⟩
  · exact scalar_stays red progress (still_part still fun same => (Color.beq_iff.mp same).1)
  · exact scalar_stays green progress (still_part still fun same => (Color.beq_iff.mp same).2.1)
  · exact scalar_stays blue progress (still_part still fun same => (Color.beq_iff.mp same).2.2)

/-- No value tells the two blends apart. -/
theorem Stays.anchored [PartialEquivBEq V] {blend : Blend Float V} {finite : V → V → Prop} (stays : blend.Stays finite)
    {a b : V} {t : Float} (way : finite a b) (progress : t.isFinite = true) (value : V) :
    (blend.anchored a b t == value) = (blend a b t == value) := by
  rw [Blend.anchored]
  split
  next still => exact BEq.congr_left (stays way progress still)
  next => rfl

end Rounded

section Exact
variable [LawfulBEq V]

theorem Even.anchored {blend : Blend ℝ V} (even : blend.Even) (departs : blend.Departs) : blend.anchored = blend := by
  funext a b t
  rw [Blend.anchored]
  split
  next still =>
    rcases Bool.or_eq_true_iff.mp still with same | start
    · obtain rfl := eq_of_beq same
      exact (even.rests a t).symm
    · obtain rfl : t = 0 := (eq_of_beq start).trans Scalar.zero_eq
      exact (departs a b).symm
  next => rfl

theorem anchored_exact : anchored (scalar : Blend ℝ ℝ) = scalar ∧ anchored (vec2 : Blend ℝ (Vec2 ℝ)) = vec2 ∧
    anchored (color : Blend ℝ (Color ℝ)) = color :=
  ⟨scalar_even.anchored scalar_departs, vec2_even.anchored vec2_departs, color_even.anchored color_departs⟩

end Exact
end Blend

section Replay
variable [PartialEquivBEq V] {blend : Blend Float V} {finite : V → V → Prop} {time : Float}

theorem Pair.during_anchored (stays : blend.Stays finite) {p : Pair Float V} (way : finite p.start.value p.stop.value)
    (begun : p.start.time ≤ time) (near : (time - p.start.time).isFinite = true) (value : V) :
    (p.during blend.anchored time == value) = (p.during blend time == value) := by
  rw [Pair.during, Pair.during]
  split
  next early => exact stays.anchored way (Binary64.progress_finite begun early near) value
  next => rfl

theorem replay_anchored (stays : blend.Stays finite) (rest : V) {pairs : List (Pair Float V)}
    (ways : ∀ p ∈ pairs, finite p.start.value p.stop.value)
    (near : ∀ p ∈ pairs, p.start.time ≤ time → (time - p.start.time).isFinite = true) (value : V) :
    (replay blend.anchored rest pairs time == value) = (replay blend rest pairs time == value) := by
  cases current : current? pairs time with
  | none => rw [replay_waiting _ _ current, replay_waiting _ _ current]
  | some p =>
    obtain ⟨front, back, rfl, begun, _⟩ := current?_eq_some current
    have member : p ∈ front ++ p :: back := List.mem_append_right _ List.mem_cons_self
    rw [replay_current _ _ current, replay_current _ _ current]
    exact Pair.during_anchored stays (ways p member) begun (near p member begun) value

end Replay
end Tween
