import Mathlib.Algebra.Order.Field.Basic
import Tween.Proofs.Channel.Absorption
import Tween.Proofs.Channel.Simplification
import Tween.Proofs.Exact.Sampling

/-! What simplification does to the curve. A keyframe stays, or it is no farther than the tolerance
from the line through the two that stay next to it. At the time of one that goes these two are the
ends of the way that shows there, so the curve misses its value by no more than what the tolerance
measures along the slope of that way. -/

namespace Tween.Channel
open Scalar OrderLaws
variable {α V : Type}

section Fate
variable [Scalar α] {tolerance : α} {deviation : Deviation α V} {m : Keyframe α V}
  {front back kept left right more others : List (Keyframe α V)}

/-- What becomes of a keyframe when `kept` is left of it and of all in front of it and behind it. -/
inductive Fate (tolerance : α) (deviation : Deviation α V) (front : List (Keyframe α V)) (m : Keyframe α V)
    (back kept : List (Keyframe α V)) : Prop
  | stays {left right : List (Keyframe α V)} (split : kept = left ++ m :: right) (before : left.Sublist front)
      (behind : right.Sublist back)
  | goes {left right : List (Keyframe α V)} {a z : Keyframe α V} (split : kept = left ++ a :: z :: right)
      (before : (left ++ [a]).Sublist front) (behind : (z :: right).Sublist back) (close : ¬tolerance < deviation a m z)

omit [Scalar α] in
private theorem located {k : Keyframe α V} (split : front ++ m :: back = left ++ k :: right) :
    (∃ inner, left = front ++ m :: inner ∧ back = inner ++ k :: right) ∨ (front = left ∧ m = k ∧ back = right) ∨
      ∃ inner, front = left ++ k :: inner ∧ right = inner ++ m :: back := by
  rcases List.append_eq_append_iff.mp split with ⟨inner, early, later⟩ | ⟨inner, late, later⟩
  · cases inner with
    | nil =>
      obtain ⟨same, behind⟩ := List.cons.inj later
      exact .inr (.inl ⟨(early.trans (List.append_nil _)).symm, same, behind⟩)
    | cons k inner =>
      obtain ⟨rfl, behind⟩ := List.cons.inj later
      exact .inl ⟨inner, early, behind⟩
  · cases inner with
    | nil =>
      obtain ⟨same, behind⟩ := List.cons.inj later
      exact .inr (.inl ⟨late.trans (List.append_nil _), same.symm, behind.symm⟩)
    | cons k inner =>
      obtain ⟨rfl, behind⟩ := List.cons.inj later
      exact .inr (.inr ⟨inner, late, behind⟩)

theorem Fate.within (fate : Fate tolerance deviation front m back kept) (before : left.Sublist more)
    (behind : right.Sublist others) :
    Fate tolerance deviation (more ++ front) m (back ++ others) (left ++ (kept ++ right)) := by
  cases fate with
  | stays split first second => exact .stays (by simp [split]) (before.append first) (second.append behind)
  | goes split first second close =>
    have whole := before.append first
    rw [← List.append_assoc] at whole
    exact .goes (by simp [split]) whole (second.append behind) close

variable [OrderLaws α] (positive : 0.0 < tolerance)
include positive

theorem Stretch.fate (s : Stretch α V) (shape : s.interior = front ++ m :: back) :
    Fate tolerance deviation (s.first :: front) m (back ++ [s.last])
      (s.first :: (s.kept tolerance deviation ++ [s.last])) := by
  induction s using Stretch.kept.induct tolerance deviation generalizing front back with
  | case1 s found =>
    have close := (split?_eq_none_iff positive).mp found m (by simp [shape])
    rw [kept_none found]
    exact .goes (List.nil_append [s.first, s.last]).symm ((List.nil_sublist _).cons_cons _)
      (List.sublist_append_right _ _) close
  | case2 s p found first second =>
    have fewer := (kept_sublist tolerance deviation ⟨s.first, p.before, p.top⟩).cons_cons s.first
    have less := (kept_sublist tolerance deviation ⟨p.top, p.after, s.last⟩).append (List.Sublist.refl [s.last])
    rw [kept_some found]
    rcases located (shape.symm.trans (split?_interior found)) with
      ⟨inner, early, rfl⟩ | ⟨rfl, rfl, rfl⟩ | ⟨inner, rfl, late⟩
    · simpa using (first early).within (List.Sublist.refl []) less
    · exact .stays (by simp) fewer less
    · simpa using (second late).within fewer (List.Sublist.refl [])

theorem simplify_fate [BEq V] {c : Channel α V} (shape : c.keyframes = front ++ m :: back) :
    Fate tolerance deviation front m back (c.simplify tolerance deviation).keyframes := by
  rcases List.eq_nil_or_concat' back with rfl | ⟨back, last, rfl⟩
  · cases front with
    | nil =>
      rw [simplify_short (by simp [shape]), shape]
      exact .stays (List.nil_append [m]).symm (List.Sublist.refl _) (List.Sublist.refl _)
    | cons first front =>
      rw [simplify_kept positive shape]
      exact .stays (List.cons_append ..).symm ((Stretch.kept_sublist _ _ ⟨first, front, m⟩).cons_cons first)
        (List.Sublist.refl _)
  · cases front with
    | nil =>
      rw [simplify_kept positive shape]
      exact .stays (List.nil_append _).symm (List.Sublist.refl _)
        ((Stretch.kept_sublist _ _ ⟨m, back, last⟩).append (List.Sublist.refl _))
    | cons first front =>
      have ends : c.keyframes = first :: (front ++ m :: back ++ [last]) := by simp [shape]
      rw [simplify_kept positive ends]
      exact Stretch.fate positive ⟨first, front ++ m :: back, last⟩ rfl

end Fate

section Curve
variable {tolerance time : ℝ} {front back : List (Keyframe ℝ ℝ)} {a m z : Keyframe ℝ ℝ}

/-- How steep the way is that shows at a time. Behind the last keyframe there is none. -/
noncomputable def slope (keyframes : List (Keyframe ℝ ℝ)) (time : ℝ) : ℝ :=
  match reached? keyframes time, ahead? keyframes time with
  | some before, some after => (after.value - before.value) / (after.time - before.time)
  | _, _ => 0

private theorem norm_slope {dx : ℝ} (dy : ℝ) (onward : 0 < dx) :
    (⟨dx, dy⟩ : Vec2 ℝ).norm = dx * √(1 + (dy / dx) ^ 2) := by
  have square : dx * dx + dy * dy = dx ^ 2 * (1 + (dy / dx) ^ 2) := by field_simp
  rw [Vec2.norm, sqrt_eq, Vec2.dot, square, Real.sqrt_mul (sq_nonneg dx), Real.sqrt_sq onward.le]

private theorem gap_distance (early : a.time < m.time) (late : m.time < z.time) :
    |Blend.scalar a.value z.value ((m.time - a.time) / (z.time - a.time)) - m.value| =
      Distance.toLine2 ⟨a.time, a.value⟩ ⟨m.time, m.value⟩ ⟨z.time, z.value⟩ *
        √(1 + ((z.value - a.value) / (z.time - a.time)) ^ 2) := by
  have onward : 0 < z.time - a.time := sub_pos.mpr (early.trans late)
  have stretch : 0 < √(1 + ((z.value - a.value) / (z.time - a.time)) ^ 2) := Real.sqrt_pos.mpr (by positivity)
  have length : ((⟨z.time, z.value⟩ : Vec2 ℝ) - ⟨a.time, a.value⟩).norm =
      (z.time - a.time) * √(1 + ((z.value - a.value) / (z.time - a.time)) ^ 2) := norm_slope _ onward
  have zero : (0.0 : ℝ) = 0 := by norm_num
  have apart : ¬(((⟨z.time, z.value⟩ : Vec2 ℝ) - ⟨a.time, a.value⟩).norm == 0.0) = true := fun same =>
    (mul_pos onward stretch).ne' (length.symm.trans ((eq_of_beq same).trans zero))
  have area : Blend.scalar a.value z.value ((m.time - a.time) / (z.time - a.time)) - m.value =
      -((z.time - a.time) * (m.value - a.value) - (z.value - a.value) * (m.time - a.time)) / (z.time - a.time) := by
    rw [Blend.scalar]
    field_simp
    ring
  have opened : Distance.toLine2 ⟨a.time, a.value⟩ ⟨m.time, m.value⟩ ⟨z.time, z.value⟩ =
      |(z.time - a.time) * (m.value - a.value) - (z.value - a.value) * (m.time - a.time)| /
        ((⟨z.time, z.value⟩ : Vec2 ℝ) - ⟨a.time, a.value⟩).norm := if_neg apart
  rw [opened, length, area, abs_div, abs_neg, abs_of_pos onward]
  field_simp

private noncomputable def plane : Deviation ℝ ℝ := fun a m z =>
  Distance.toLine2 ⟨a.time, a.value⟩ ⟨m.time, m.value⟩ ⟨z.time, z.value⟩

/-- At the time of a keyframe that shares it with no other one the curve of what is left passes within
the tolerance, measured along its slope there. -/
private theorem Fate.within_slope {c : Channel ℝ ℝ} (fate : Fate tolerance plane front m back c.keyframes)
    (positive : 0 < tolerance) (linear : ∀ k ∈ c.keyframes, k.ease = .linear) (earlier : ∀ k ∈ front, k.time < m.time)
    (later : ∀ k ∈ back, m.time < k.time) :
    |c.sampleWith Blend.scalar m.time - m.value| ≤ tolerance * √(1 + slope c.keyframes m.time ^ 2) := by
  cases fate with
  | stays split before behind =>
    have shows := sampleWith_upper split (fun k member => (earlier k (before.subset member)).le)
      (fun k member => later k (behind.subset member)) (Blend.scalar_departs _)
    rw [shows, sub_self, abs_zero]
    positivity
  | @goes left right a z split before behind close =>
    have reached : ∀ k ∈ left ++ [a], k.time < m.time := fun k member => earlier k (before.subset member)
    have ahead : ∀ k ∈ z :: right, m.time < k.time := fun k member => later k (behind.subset member)
    have early : a.time < m.time := reached a (by simp)
    have late : m.time < z.time := ahead z List.mem_cons_self
    have shape : c.keyframes = (left ++ [a]) ++ z :: right := by rw [split]; simp
    have steep : slope c.keyframes m.time = (z.value - a.value) / (z.time - a.time) := by
      rw [slope, shape, reached?_split (fun k member => (reached k member).le) fun k member => not_le.mpr (ahead k member),
        ahead?_split (fun k member => not_lt.mpr (reached k member).le) ahead, List.getLast?_concat]
      rfl
    have shows : c.sampleWith Blend.scalar m.time =
        Blend.scalar a.value z.value ((m.time - a.time) / (z.time - a.time)) := by
      rw [sampleWith_split shape (fun k member => (reached k member).le) fun k member => not_le.mpr (ahead k member),
        List.getLast?_concat]
      exact between_linear (early.trans late) (linear z (by simp [split]))
    rw [shows, steep, gap_distance early late]
    exact mul_le_mul_of_nonneg_right (not_lt.mp close) (Real.sqrt_nonneg _)

private theorem unshared_apart (ordered : Ordered (front ++ m :: back)) (unshared : ∀ k ∈ front ++ back, k.time ≠ m.time) :
    (∀ k ∈ front, k.time < m.time) ∧ ∀ k ∈ back, m.time < k.time := by
  obtain ⟨_, second, across⟩ := List.pairwise_append.mp ordered
  have others := List.forall_mem_append.mp unshared
  constructor
  · intro k member
    exact (show k.time ≤ m.time from across k member m List.mem_cons_self).lt_of_ne (others.1 k member)
  · intro k member
    exact (show m.time ≤ k.time from (List.pairwise_cons.mp second).1 k member).lt_of_ne (others.2 k member).symm

end Curve

/-- At the time of every keyframe that shares it with no other one, the simplified curve misses its
value by no more than the tolerance, stretched along the slope of the way that shows there. A keyframe
that is still there, alone at its time, is met exactly. -/
theorem simplify1_within {c : Channel ℝ ℝ} (ordered : Ordered c.keyframes) (linear : ∀ k ∈ c.keyframes, k.ease = .linear)
    (blended : c.blend = some Blend.scalar) {tolerance : ℝ} (positive : 0 < tolerance) :
    let simplified := c.simplify1 tolerance id
    (∀ front m back, c.keyframes = front ++ m :: back → (∀ k ∈ front ++ back, k.time ≠ m.time) →
        ∃ value, simplified.sample m.time = .ok value ∧
          |value - m.value| ≤ tolerance * √(1 + slope simplified.keyframes m.time ^ 2)) ∧
      ∀ front m back, simplified.keyframes = front ++ m :: back → (∀ k ∈ front ++ back, k.time ≠ m.time) →
        simplified.sample m.time = .ok m.value := by
  intro simplified
  have above : (0.0 : ℝ) < tolerance := by norm_num [positive]
  have fewer : simplified.keyframes.Sublist c.keyframes := (simplify_trimmed c tolerance plane).sublist
  have kept : simplified.blend = some Blend.scalar := by
    rw [show simplified = c.simplify tolerance plane from rfl, simplify_eq]
    exact blended
  have sampled (time : ℝ) : simplified.sample time = .ok (simplified.sampleWith Blend.scalar time) := by rw [sample, kept]
  constructor
  · intro front m back shape unshared
    obtain ⟨earlier, later⟩ := unshared_apart (shape ▸ ordered) unshared
    have fate : Fate tolerance plane front m back simplified.keyframes := simplify_fate above shape
    exact ⟨_, sampled m.time, fate.within_slope positive (fun k member => linear k (fewer.subset member)) earlier later⟩
  · intro front m back shape unshared
    obtain ⟨earlier, later⟩ := unshared_apart (shape ▸ ordered.sublist fewer) unshared
    rw [sampled, sampleWith_upper shape (fun k member => (earlier k member).le) later (Blend.scalar_departs _)]

noncomputable def terrace : Channel ℝ ℝ where
  keyframes := [(0, 0), (1, 2), (2, 3), (2, 7), (4, 7)].map fun ((time, value) : ℕ × ℕ) => { time, value }
  blend := some Blend.scalar
  rest := Scalar.pi

theorem simplify1_within_terrace :
    Ordered terrace.keyframes ∧ (∀ k ∈ terrace.keyframes, k.ease = .linear) ∧ (0 : ℝ) < 1 ∧
      (∃ value, (terrace.simplify1 1 id).sample ((1 : ℕ) : ℝ) = .ok value ∧
        |value - (2 : ℕ)| ≤ 1 * √(1 + slope (terrace.simplify1 1 id).keyframes (1 : ℕ) ^ 2)) ∧
      (terrace.simplify1 1 id).sample ((0 : ℕ) : ℝ) = .ok ((0 : ℕ) : ℝ) := by
  have ordered : Ordered terrace.keyframes := by norm_num [terrace, Ordered]
  have linear : ∀ k ∈ terrace.keyframes, k.ease = .linear := by simp [terrace]
  have positive : (0 : ℝ) < 1 := one_pos
  obtain ⟨near, met⟩ := simplify1_within ordered linear rfl positive
  have second := near (terrace.keyframes.take 1) _ (terrace.keyframes.drop 2) rfl (by norm_num [terrace])
  have trimmed := simplify_trimmed terrace 1 plane
  obtain ⟨behind, shape⟩ := List.head?_eq_some_iff.mp (trimmed.head.trans rfl)
  have fewer : behind.Sublist (terrace.keyframes.drop 1) := List.cons_sublist_cons.mp (shape ▸ trimmed.sublist)
  have first := met [] _ behind shape fun k member => by
    have stored := fewer.subset member
    norm_num [terrace] at stored
    rcases stored with rfl | rfl | rfl | rfl <;> norm_num
  exact ⟨ordered, linear, positive, second, first⟩

end Tween.Channel
