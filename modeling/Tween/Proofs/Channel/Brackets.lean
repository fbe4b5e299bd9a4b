import Tween.Proofs.Binary64.Progress
import Tween.Proofs.Channel.Members
import Tween.Proofs.Channel.Storage
import Tween.Proofs.Exact.Sampling

/-! Sampling of channels under any sequence of edits. Keyframes stay in time order, so a time inside
lies between the last keyframe that has been reached and a first one that is strictly ahead, and the
way between these two is never of length zero. -/

namespace Tween.Channel
open Scalar OrderLaws
variable {ι α V : Type}

section Specification
variable [Scalar α] {keyframes : List (Keyframe α V)} {time : α}

/-- The last keyframe that has been reached, and the first one that has not. -/
structure Bracket (keyframes : List (Keyframe α V)) (time : α) where
  front : List (Keyframe α V)
  before : Keyframe α V
  after : Keyframe α V
  back : List (Keyframe α V)
  split : keyframes = front ++ before :: after :: back
  reached : ∀ k ∈ front ++ [before], k.time ≤ time
  ahead : ∀ k ∈ after :: back, time < k.time

namespace Bracket
variable (bracket : Bracket keyframes time)

def length : α := bracket.after.time - bracket.before.time

def progress : α := (time - bracket.before.time) / bracket.length

def value (blend : Blend α V) : V :=
  blend bracket.before.value bracket.after.value (bracket.after.ease.apply bracket.progress)

theorem begun : bracket.before.time ≤ time := bracket.reached bracket.before (by simp)

theorem early : time < bracket.after.time := bracket.ahead bracket.after List.mem_cons_self

end Bracket

/-- What sampling has to give at a time. -/
structure Interpolates (c : Channel α V) (time : α) : Prop where
  unblended : c.blend = none → ∀ any, ∃ reason, c.sample any = .error (.configuration reason)
  empty : ∀ blend ∈ c.blend, c.keyframes = [] → c.sample time = .ok c.rest
  early : ∀ blend ∈ c.blend, ∀ first ∈ c.first?, time < first.time → c.sample time = .ok first.value
  late : ∀ blend ∈ c.blend, ∀ last ∈ c.last?, last.time ≤ time → c.sample time = .ok last.value
  inside : ∀ first ∈ c.first?, ∀ last ∈ c.last?, first.time ≤ time → time < last.time → Nonempty (Bracket c.keyframes time)
  /-- The two keyframes do not share their time. -/
  between : ∀ blend ∈ c.blend, ∀ bracket : Bracket c.keyframes time,
    (bracket.after.time == bracket.before.time) = false ∧ c.sample time = .ok (bracket.value blend)

end Specification

section Order
variable [Scalar α] [OrderLaws α] {c : Channel α V} {time : α}

omit [OrderLaws α] in
private theorem sample_blended {blend : Blend α V} (blended : blend ∈ c.blend) :
    c.sample time = .ok (c.sampleWith blend time) := by
  rw [sample, show c.blend = some blend from blended]

private theorem Bracket.apart {keyframes : List (Keyframe α V)} (bracket : Bracket keyframes time) :
    (bracket.after.time == bracket.before.time) = false :=
  Bool.eq_false_iff.mpr fun same => not_le_of_lt bracket.early (le_trans (le_of_beq same) bracket.begun)

private theorem Bracket.exists (sorted : Sorted Keyframe.time c.keyframes) (defined : time ≤ time)
    {first last : Keyframe α V} (head : c.first? = some first) (ending : c.last? = some last)
    (begun : first.time ≤ time) (early : time < last.time) : Nonempty (Bracket c.keyframes time) := by
  have ordered : Ordered c.keyframes := sorted.ordered
  obtain ⟨front, before, after, back, shape, reached, ahead⟩ := ordered.around head ending begun early
  refine ⟨⟨front, before, after, back, shape, reached, fun k member => ?_⟩⟩
  have stored : k ∈ c.keyframes := shape ▸ List.mem_append_right _ (List.mem_cons_of_mem _ member)
  exact lt_of_not_le defined (sorted.defined k stored) (ahead k member)

private theorem interpolates_of_sorted (sorted : Sorted Keyframe.time c.keyframes) (defined : time ≤ time) :
    c.Interpolates time where
  unblended none _ := ⟨_, by rw [sample, none]; rfl⟩
  empty blend blended none := by rw [sample_blended blended, sampleWith, none]
  early blend blended first head ahead := by
    rw [sample_blended blended, sampleWith_before sorted.ordered blend head ahead]
  late blend blended last ending passed := by
    rw [sample_blended blended, sampleWith_behind sorted.ordered blend ending passed]
  inside first head last ending begun early := Bracket.exists sorted defined head ending begun early
  between blend blended bracket := by
    have shape := bracket.split.trans (List.append_cons bracket.front bracket.before (bracket.after :: bracket.back))
    have within := sampleWith_within sorted.ordered blend shape List.getLast?_concat rfl bracket.begun bracket.early
    have apart : ¬(bracket.after.time == bracket.before.time) = true := Bool.eq_false_iff.mp bracket.apart
    refine ⟨bracket.apart, ?_⟩
    rw [sample_blended blended, within, Channel.between, if_neg apart]
    rfl

end Order

section Rounded
variable {time : Float}

/-- The progress between the times that are stored, as a quotient of whole numbers of units. -/
def Bracket.exactProgress {keyframes : List (Keyframe Float V)} (bracket : Bracket keyframes time) : ℚ :=
  let units := Binary64.unitsOf
  (units time - units bracket.before.time : ℤ) / (units bracket.after.time - units bracket.before.time : ℤ)

/-- Sampling with doubles. The way between two keyframes is positive even after rounding, and without
rounding the progress on it lies in the unit interval. -/
structure InterpolatesRounded (c : Channel Float V) (time : Float) : Prop extends c.Interpolates time where
  length : ∀ bracket : Bracket c.keyframes time, 0.0 < bracket.length
  progress : ∀ bracket : Bracket c.keyframes time, 0 ≤ bracket.exactProgress ∧ bracket.exactProgress < 1

private theorem Bracket.exactProgress_bounds {keyframes : List (Keyframe Float V)} (bracket : Bracket keyframes time) :
    0 ≤ bracket.exactProgress ∧ bracket.exactProgress < 1 := by
  have begun := (Binary64.le_iff.mp bracket.begun).2.2
  have early := (Binary64.lt_iff.mp bracket.early).2.2
  have length : (0 : ℚ) < (Binary64.unitsOf bracket.after.time - Binary64.unitsOf bracket.before.time : ℤ) :=
    Int.cast_pos.mpr (by omega)
  exact ⟨div_nonneg (Int.cast_nonneg (by omega)) length.le, (div_lt_one length).mpr (Int.cast_lt.mpr (by omega))⟩

private theorem rounded_of_sorted {c : Channel Float V} (sorted : Sorted Keyframe.time c.keyframes)
    (defined : time ≤ time) : c.InterpolatesRounded time where
  toInterpolates := interpolates_of_sorted sorted defined
  length bracket := Binary64.ahead_positive (lt_of_le_of_lt bracket.begun bracket.early)
  progress bracket := bracket.exactProgress_bounds

end Rounded

section Exact
variable {c : Channel ℝ V} {time : ℝ}

/-- The last one of all keyframes at a time. -/
structure Upper (c : Channel ℝ V) (time : ℝ) (upper : Keyframe ℝ V) : Prop where
  here : upper.time = time
  split : ∃ front back, c.keyframes = front ++ upper :: back ∧ (∀ k ∈ front, k.time ≤ time) ∧ ∀ k ∈ back, time < k.time

/-- Sampling without rounding. The progress between two keyframes lies in the unit interval, and a
keyframe that has just been reached shows its value if the blend departs from there. -/
structure InterpolatesExactly (c : Channel ℝ V) (time : ℝ) : Prop extends c.Interpolates time where
  progress : ∀ bracket : Bracket c.keyframes time, 0 < bracket.length ∧ 0 ≤ bracket.progress ∧ bracket.progress < 1
  upper : ∀ k ∈ c.keyframes, k.time = time →
    ∃ upper, c.Upper time upper ∧ ∀ blend ∈ c.blend, blend.DepartsFrom upper.value → c.sample time = .ok upper.value

private theorem Bracket.sound {keyframes : List (Keyframe ℝ V)} (bracket : Bracket keyframes time) :
    0 < bracket.length ∧ 0 ≤ bracket.progress ∧ bracket.progress < 1 := by
  have begun : bracket.before.time ≤ time := bracket.begun
  have early : time < bracket.after.time := bracket.early
  have length : 0 < bracket.length := sub_pos.mpr (begun.trans_lt early)
  exact ⟨length, div_nonneg (sub_nonneg.mpr begun) length.le, (div_lt_one length).mpr (sub_lt_sub_right early _)⟩

private theorem Upper.exists (ordered : Ordered c.keyframes) {k : Keyframe ℝ V} (member : k ∈ c.keyframes)
    (here : k.time = time) : ∃ upper, c.Upper time upper := by
  obtain ⟨front, back, shape, reached, ahead⟩ := ordered.parted time
  rw [shape] at ordered member
  have inside : k ∈ front := (List.mem_append.mp member).resolve_right fun behind => ahead k behind here.le
  obtain ⟨front, upper, rfl⟩ := (List.eq_nil_or_concat' front).resolve_left (List.ne_nil_of_mem inside)
  have latest : k.time ≤ upper.time := by
    rcases Ordered.le_last (List.pairwise_append.mp ordered).1 List.getLast?_concat inside with rfl | earlier
    · exact le_rfl
    · exact earlier
  have passed : upper.time ≤ time := reached upper (by simp)
  refine ⟨upper, le_antisymm passed (here ▸ latest), front, back, by rw [shape]; simp, fun k member => ?_,
    fun k member => not_le.mp (ahead k member)⟩
  exact reached k (List.mem_append_left _ member)

private theorem Upper.sampled {upper : Keyframe ℝ V} (top : c.Upper time upper) {blend : Blend ℝ V}
    (blended : blend ∈ c.blend) (departs : blend.DepartsFrom upper.value) : c.sample time = .ok upper.value := by
  obtain ⟨rfl, front, back, shape, reached, ahead⟩ := top
  rw [sample_blended blended, sampleWith_upper shape reached ahead departs]

private theorem exactly_of_sorted (sorted : Sorted Keyframe.time c.keyframes) : c.InterpolatesExactly time where
  toInterpolates := interpolates_of_sorted sorted le_rfl
  progress bracket := bracket.sound
  upper k member here := by
    obtain ⟨upper, top⟩ := Upper.exists sorted.ordered member here
    exact ⟨upper, top, fun blend blended departs => top.sampled blended departs⟩

end Exact

/-- Whatever the edits, as long as no time is undefined, a channel is sampled between the keyframes
around a time, and never with a division by zero. Numbers depart from the keyframe that has been
reached, and so do rotations of space, which are quaternions of length one; of the blends of flags
only the first choice does. -/
theorem edits_interpolate [DecidableEq ι] [BEq V] :
    (∀ store : ι → Channel Float V, (∀ i, (store i).keyframes = []) → ∀ edits : List (Edit ι Float V),
        (∀ edit ∈ edits, ∀ time ∈ edit.time?, time.isNaN = false) → ∀ i time, time.isNaN = false →
          (Edit.runAll store edits i).InterpolatesRounded time) ∧
      (∀ store : ι → Channel ℝ V, (∀ i, (store i).keyframes = []) → ∀ (edits : List (Edit ι ℝ V)) i time,
        (Edit.runAll store edits i).InterpolatesExactly time) ∧
      (Blend.Departs Blend.scalar ∧ Blend.Departs Blend.angle ∧ Blend.Departs Blend.vec2 ∧
        Blend.Departs Blend.vec3 ∧ Blend.Departs Blend.color ∧ Blend.Departs Blend.first) ∧
      (∀ a : Quaternion ℝ, a.parts.norm = 1 → Blend.DepartsFrom Blend.quaternion a) ∧
      ¬Blend.Departs Blend.second ∧ ¬Blend.Departs Blend.either ∧ ¬Blend.Departs Blend.both := by
  refine ⟨?_, ?_, ?_, Blend.quaternion_departs, Blend.second_not_departs, Blend.either_not_departs,
    Blend.both_not_departs⟩
  · intro store empty edits defined i time number
    have numbers (time : Float) (number : time.isNaN = false) : time ≤ time :=
      Binary64.le_iff.mpr ⟨number, number, Int.le_refl _⟩
    have timed : ∀ edit ∈ edits, edit.Timed := fun edit member time found =>
      numbers time (defined edit member time found)
    have start : ∀ i, Sorted Keyframe.time (store i).keyframes := fun i => (empty i).symm ▸ .nil
    have sorted := Edit.runAll_sorted edits timed start i
    exact rounded_of_sorted sorted (numbers time number)
  · intro store empty edits i time
    have timed : ∀ edit ∈ edits, edit.Timed := fun _ _ _ _ => le_rfl
    have start : ∀ i, Sorted Keyframe.time (store i).keyframes := fun i => (empty i).symm ▸ .nil
    have sorted := Edit.runAll_sorted edits timed start i
    exact exactly_of_sorted sorted
  · exact ⟨Blend.scalar_departs, Blend.angle_departs, Blend.vec2_departs, Blend.vec3_departs,
      Blend.color_departs, Blend.first_departs⟩

/-- A flag that is set and, at a later time, cleared again. -/
def latchEdits : List (Edit Unit Float Bool) := [.add () 0.0 false, .add () 1.0 false, .add () 1.0 true, .add () 2.0 false]

/-- A way with a step down on it. -/
noncomputable def stairEdits : List (Edit Unit ℝ ℝ) :=
  [(2, 5, false), (2, 7, true), (0, 3, false), (4, 9, false)].map fun ((time, value, before) : ℕ × ℕ × Bool) =>
    .insert () { time, value } before

theorem edits_interpolate_stairs :
    let latch := Edit.runAll (fun _ => Channel.withBlend Blend.second false) latchEdits ()
    let stairs := Edit.runAll (fun _ => Channel.withBlend Blend.scalar 0) stairEdits ()
    latch.InterpolatesRounded 1.0 ∧ Nonempty (Bracket latch.keyframes 1.0) ∧
      ∃ upper, stairs.Upper 2 upper ∧ stairs.sample 2 = .ok upper.value := by
  intro latch stairs
  have defined : ∀ edit ∈ latchEdits, ∀ time ∈ edit.time?, time.isNaN = false := by
    simp only [latchEdits, List.mem_cons, List.not_mem_nil, or_false, forall_eq_or_imp, forall_eq]
    decide
  have rounded := (@edits_interpolate Unit Bool _ _).1 (fun _ => Channel.withBlend Blend.second false)
    (fun _ => rfl) latchEdits defined () 1.0 (by decide)
  have around : Nonempty (Bracket latch.keyframes 1.0) :=
    rounded.inside ⟨0.0, false, .linear, false⟩ rfl ⟨2.0, false, .linear, false⟩ rfl (by decide) (by decide)
  refine ⟨rounded, around, ?_⟩
  have exact := (@edits_interpolate Unit ℝ _ _).2.1 (fun _ => Channel.withBlend Blend.scalar 0) (fun _ => rfl) stairEdits () 2
  have stored : ⟨2, 5, .linear, false⟩ ∈ stairs.keyframes := by
    simp [stairs, stairEdits, Edit.runAll, Edit.run, mem_insert]
  have blended : stairs.blend = some Blend.scalar := by
    simp [stairs, stairEdits, Edit.runAll, Edit.run, Channel.insert, Channel.withBlend]
  obtain ⟨upper, top, shows⟩ := exact.upper _ stored rfl
  exact ⟨upper, top, shows Blend.scalar blended (Blend.scalar_departs upper.value)⟩

/-- A blend that gives its second value shows the next keyframe in place of the upper one. -/
theorem latch_skips : let latch := Edit.runAll (fun _ => Channel.withBlend Blend.second false) latchEdits ()
    ∃ front upper back, latch.keyframes = front ++ upper :: back ∧ (upper.time == 1.0) = true ∧
      (∀ later ∈ back, 1.0 < later.time) ∧ upper.value = true ∧ latch.sample 1.0 = .ok false := by
  intro latch
  let front : List (Keyframe Float Bool) :=
    [⟨0.0, false, .linear, false⟩, ⟨1.0, false, .linear, false⟩, ⟨1.0, true, .linear, false⟩]
  let back : List (Keyframe Float Bool) := [⟨2.0, false, .linear, false⟩]
  have shape : latch.keyframes = front ++ back := rfl
  have blended : latch.blend = some Blend.second := rfl
  have reached : ∀ k ∈ front, k.time ≤ (1.0 : Float) := by decide
  have ahead : ∀ k ∈ back, ¬k.time ≤ (1.0 : Float) := by decide
  refine ⟨front.dropLast, ⟨1.0, true, .linear, false⟩, back, shape, by decide, by decide, rfl, ?_⟩
  rw [sample, blended]
  exact congrArg Except.ok (sampleWith_split shape reached ahead Blend.second)

end Tween.Channel
