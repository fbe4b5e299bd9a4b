import Tween.Proofs.Channel.Lossless
import Tween.Proofs.Emission.FlagSpans

/-! Simplification without a tolerance cannot be observed: not by a sample, not by the pairs of a
channel that is played once, and not by the spans of a flag. -/

namespace Tween

namespace Emission
open Channel
variable {α : Type}

private theorem flagSpansFrom_still {k : Keyframe α Bool} {behind : List (Keyframe α Bool)} {opened : Option α} {latest : α}
    (state : opened.isSome = k.value) : flagSpansFrom opened latest (k :: behind) = flagSpansFrom opened k.time behind := by
  cases opened with
  | none => rw [flagSpansFrom_none, ← state]; rfl
  | some start => rw [flagSpansFrom_some, ← state]; rfl

private theorem flagSpansFrom_runEnds {previous : Keyframe α Bool} {behind : List (Keyframe α Bool)} {opened : Option α}
    {latest latest' : α} (state : opened.isSome = previous.value) (ending : behind = [] → latest = latest') :
    flagSpansFrom opened latest (runEnds previous behind) = flagSpansFrom opened latest' behind := by
  -- A span is open exactly if the flag is set at `previous`, so a keyframe that repeats it changes nothing.
  induction behind generalizing previous opened latest latest' with
  | nil => rw [runEnds, ending rfl]
  | cons k behind ih =>
    rw [runEnds_cons]
    by_cases found : inside previous k behind = true
    · rw [if_pos found]
      obtain ⟨still, next, more, rfl, _⟩ := inside_iff.mp found
      have repeats : opened.isSome = k.value := state.trans (eq_of_beq still)
      rw [flagSpansFrom_still repeats]
      exact ih repeats fun empty => absurd empty (List.cons_ne_nil next more)
    · rw [if_neg found]
      cases opened with
      | none =>
        rw [flagSpansFrom_none, flagSpansFrom_none]
        refine ih ?_ fun _ => rfl
        cases k.value <;> rfl
      | some start =>
        rw [flagSpansFrom_some, flagSpansFrom_some]
        cases set : k.value with
        | true => exact ih set.symm fun _ => rfl
        | false => exact congrArg ((start, k.time) :: ·) (ih set.symm fun _ => rfl)

theorem flagSpans_simplify [Scalar α] {tolerance : α} (lossless : tolerance ≤ 0.0) (flag : Channel α Bool)
    (deviation : Deviation α Bool) : flagSpans (flag.simplify tolerance deviation).keyframes = flagSpans flag.keyframes := by
  cases shape : flag.keyframes with
  | nil => rw [simplify_short (by simp [shape]), shape]
  | cons first behind =>
    rw [simplify_lossless lossless deviation shape, flagSpans, flagSpans, flagSpansFrom_none, flagSpansFrom_none]
    refine flagSpansFrom_runEnds ?_ fun _ => rfl
    cases first.value <;> rfl

end Emission

namespace Channel
variable {α V : Type} [Scalar α] [BEq V]

inductive SameSample : Except (Problem α) V → Except (Problem α) V → Prop
  | ok {v w : V} (same : (v == w) = true) : SameSample (.ok v) (.ok w)
  | error (problem : Problem α) : SameSample (.error problem) (.error problem)

/-- Without a tolerance a simplified channel has the same curve at every time and the same pairs,
whatever the edit and the window, and a simplified flag has the same spans. -/
theorem simplify_unobserved [Scalar.OrderLaws α] [EquivBEq V] {c : Channel α V} (ordered : Ordered c.keyframes)
    (mixes : ∀ blend ∈ c.blend, ∀ v w progress, (v == w) = true → (blend v w progress == v) = true)
    {tolerance : α} (lossless : tolerance ≤ 0.0) (deviation : Deviation α V) :
    (∀ time, SameSample ((c.simplify tolerance deviation).sample time) (c.sample time)) ∧
      (∀ playback : Playback α V, playback.loopable = false →
        (∀ v w, (v == w) = true → (playback.edit v == playback.edit w) = true) →
        (c.simplify tolerance deviation).pairs playback = c.pairs playback) ∧
      ∀ (flag : Channel α Bool) (measure : Deviation α Bool),
        Emission.flagSpans (flag.simplify tolerance measure).keyframes = Emission.flagSpans flag.keyframes := by
  refine ⟨fun time => ?_, fun playback once respects => pairs_simplify lossless deviation once respects,
    Emission.flagSpans_simplify lossless⟩
  have source : (c.simplify tolerance deviation).blend = c.blend := congrArg (·.blend) (simplify_eq c tolerance deviation)
  rw [sample, sample, source]
  cases given : c.blend with
  | none => exact .error _
  | some blend => exact .ok (sampleWith_simplify lossless deviation ordered (mixes blend given) time)

/-- Runs of equal values with an instant, easings and hold markers in them, and two steps. -/
def terraces : Channel Float Int where
  keyframes := [⟨0.0, 2, .linear, false⟩, ⟨1.0, 2, .easeIn .sine, false⟩, ⟨1.0, 2, .linear, true⟩, ⟨1.0, 2, .linear, false⟩,
    ⟨1.0, 6, .linear, false⟩, ⟨3.0, 6, .easeOut .quad, true⟩, ⟨4.0, 6, .linear, false⟩, ⟨5.0, 7, .step, false⟩,
    ⟨6.0, 7, .linear, false⟩, ⟨6.0, 7, .linear, true⟩, ⟨6.0, 0, .linear, false⟩]
  blend := some fun v w progress => if progress < 0.5 then v else w
  rest := 0

theorem simplify_unobserved_terraces :
    let playback : Playback Float Int := { rest := 0, edit := (· / 2), startTime := some (-1.0), endTime := some 8.0 }
    let low : Channel Float Bool := ⟨terraces.keyframes.map fun k => ⟨k.time, k.value == 2, k.ease, k.hold⟩, none, false⟩
    Ordered terraces.keyframes ∧
      (∀ blend ∈ terraces.blend, ∀ v w progress, (v == w) = true → (blend v w progress == v) = true) ∧
      (0.0 : Float) ≤ 0.0 ∧ playback.loopable = false ∧
      (∀ v w, (v == w) = true → (playback.edit v == playback.edit w) = true) ∧
      SameSample ((terraces.simplify 0.0 fun _ _ _ => 0.0).sample 0.5) (terraces.sample 0.5) ∧
      (terraces.simplify 0.0 fun _ _ _ => 0.0).pairs playback = terraces.pairs playback ∧
      Emission.flagSpans (low.simplify 0.0 fun _ _ _ => 0.0).keyframes = [(0.0, 1.0)] := by
  intro playback low
  have ordered : Ordered terraces.keyframes := by unfold Ordered; decide
  have mixes : ∀ blend ∈ terraces.blend, ∀ v w progress, (v == w) = true → (blend v w progress == v) = true := by
    rintro _ ⟨⟩ v w progress same
    obtain rfl := eq_of_beq same
    simp
  have lossless : (0.0 : Float) ≤ 0.0 := by decide
  have respects : ∀ v w, (v == w) = true → (playback.edit v == playback.edit w) = true := fun v w same =>
    eq_of_beq same ▸ BEq.refl _
  obtain ⟨sampled, paired, spanned⟩ := simplify_unobserved ordered mixes lossless fun _ _ _ => 0.0
  refine ⟨ordered, mixes, lossless, rfl, respects, sampled 0.5, paired playback rfl respects, ?_⟩
  rw [spanned]
  rfl

example : (terraces.simplify 0.0 fun _ _ _ => 0.0).keyframes.length = 7 := by decide +kernel

end Channel
end Tween
