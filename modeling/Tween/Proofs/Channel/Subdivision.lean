import Tween.Proofs.Exact.Partway
import Tween.Proofs.Exact.Sampling

/-! A keyframe with the value that shows there anyway. It parts the way it lies on into two, and
where the way goes evenly neither part shows that there is a stop. In front of the first keyframe and
behind the last one it repeats what it lies next to. -/

namespace Tween.Channel
open Scalar OrderLaws
variable {α V : Type}

section Place
variable [Scalar α] [OrderLaws α] {front back : List (Keyframe α V)} {c : Channel α V} {k : Keyframe α V}

/-- A keyframe goes behind all that are not later, whether it is searched for or not. -/
theorem insert_split (shape : c.keyframes = front ++ back) (reached : ∀ other ∈ front, other.time ≤ k.time)
    (ahead : ∀ other ∈ back, ¬other.time ≤ k.time) : c.insert k false = { c with keyframes := front ++ k :: back } := by
  unfold insert
  rw [shape]
  split
  next latest =>
    -- What is last is not ahead, so nothing is.
    cases last : back.getLast? with
    | none => rw [List.getLast?_eq_none_iff.mp last, List.append_nil]
    | some final =>
      have later := ahead final (List.mem_of_mem_getLast? last)
      rw [appends, List.getLast?_append, last] at latest
      rcases Bool.or_eq_true_iff.mp latest with less | same
      · exact absurd (OrderLaws.le_of_lt (of_decide_eq_true less)) later
      · exact absurd (ge_of_beq (Bool.and_eq_true_iff.mp same).1) later
  next => rw [slot_split reached ahead, insertIdx_between]

end Place

section Stop
variable {blend : Blend ℝ V} {rest : V} {before after : Option (Keyframe ℝ V)} {k : Keyframe ℝ V} {time : ℝ}
  (even : blend.Even) (stops : k.value = amid blend rest before after k.time)
  (linear : ∀ a ∈ after, a.ease = .linear)
include even stops linear

theorem amid_front (eased : k.ease = .linear) (begun : ∀ b ∈ before, b.time ≤ time) (early : time < k.time)
    (ahead : ∀ a ∈ after, k.time < a.time) :
    amid blend rest before (some k) time = amid blend rest before after time := by
  cases before with
  | none =>
    -- Nothing has been reached, so one value shows at all times.
    refine stops.trans ?_
    cases after <;> rfl
  | some b =>
    have reached : b.time < k.time := (begun b rfl).trans_lt early
    rw [amid, between_linear reached eased]
    cases after with
    | none =>
      rw [show k.value = b.value from stops]
      exact even.rests b.value _
    | some a =>
      have onward : b.time < a.time := reached.trans (ahead a rfl)
      have length : a.time - b.time ≠ 0 := (sub_pos.mpr onward).ne'
      have part : k.time - b.time ≠ 0 := (sub_pos.mpr reached).ne'
      rw [amid, between_linear onward (linear a rfl)] at stops ⊢
      rw [stops, even.front]
      · congr 1
        field_simp
      · exact div_nonneg (sub_pos.mpr reached).le (sub_pos.mpr onward).le
      · exact (div_lt_one (sub_pos.mpr onward)).mpr (sub_lt_sub_right (ahead a rfl) _)

theorem amid_back (begun : ∀ b ∈ before, b.time ≤ k.time) (late : k.time ≤ time) (ahead : ∀ a ∈ after, time < a.time) :
    amid blend rest (some k) after time = amid blend rest before after time := by
  cases after with
  | none =>
    refine stops.trans ?_
    cases before <;> rfl
  | some a =>
    have onward : k.time < a.time := late.trans_lt (ahead a rfl)
    rw [amid, between_linear onward (linear a rfl)]
    cases before with
    | none =>
      rw [show k.value = a.value from stops]
      exact even.rests a.value _
    | some b =>
      have whole : b.time < a.time := (begun b rfl).trans_lt onward
      have length : a.time - b.time ≠ 0 := (sub_pos.mpr whole).ne'
      have part : a.time - k.time ≠ 0 := (sub_pos.mpr onward).ne'
      rw [amid, between_linear whole (linear a rfl)] at stops ⊢
      rw [stops, even.back]
      · congr 1
        field_simp
        ring
      · exact div_nonneg (sub_nonneg.mpr (begun b rfl)) (sub_pos.mpr whole).le
      · exact (div_lt_one (sub_pos.mpr whole)).mpr (sub_lt_sub_right onward _)

end Stop

section Insertion
variable {c : Channel ℝ V} {blend : Blend ℝ V} {front back : List (Keyframe ℝ V)} {k : Keyframe ℝ V} {time : ℝ}

section Parted
variable {rest : V} (linear : ∀ a ∈ back.head?, a.ease = .linear) (even : blend.Even)
  (stops : k.value = amid blend rest front.getLast? back.head? k.time)
include linear even stops

private theorem amid_insert_early (ahead : ∀ a ∈ back, k.time < a.time) (eased : k.ease = .linear) (early : time < k.time) :
    amid blend rest (reached? (front ++ k :: back) time) (ahead? (front ++ k :: back) time) time =
      amid blend rest (reached? (front ++ back) time) (ahead? (front ++ back) time) time := by
  have later : ∀ a ∈ back, time < a.time := fun a member => early.trans (ahead a member)
  have laterStop : ∀ a ∈ k :: back, time < a.time := List.forall_mem_cons.mpr ⟨early, later⟩
  have none {keyframes : List (Keyframe ℝ V)} (later : ∀ a ∈ keyframes, time < a.time) : reached? keyframes time = none :=
    reached?_eq_none.mpr fun a member => not_le.mpr (later a member)
  rw [reached?_append, reached?_append, none later, none laterStop, ahead?_append, ahead?_append, ahead?_all later,
    ahead?_all laterStop]
  cases found : ahead? front time with
  | some n => rfl
  | none =>
    have begun : ∀ b ∈ front, b.time ≤ time := by simpa [ahead?] using found
    rw [reached?_all begun]
    exact amid_front even stops linear eased (fun b last => begun b (List.mem_of_mem_getLast? last)) early
      fun a head => ahead a (List.mem_of_mem_head? head)

private theorem amid_insert_late (reached : ∀ b ∈ front, b.time ≤ k.time) (late : k.time ≤ time) :
    amid blend rest (reached? (front ++ k :: back) time) (ahead? (front ++ k :: back) time) time =
      amid blend rest (reached? (front ++ back) time) (ahead? (front ++ back) time) time := by
  have begun : ∀ b ∈ front, b.time ≤ time := fun b member => (reached b member).trans late
  have none : ahead? front time = none := by simpa [ahead?] using begun
  have onward : ahead? (k :: back) time = ahead? back time := List.find?_cons_of_neg (by simpa using late)
  rw [reached?_append, reached?_append, reached?_cons, if_pos late, reached?_all begun, ahead?_append, ahead?_append, none,
    onward]
  cases found : reached? back time with
  | some p => rfl
  | none =>
    have later : ∀ a ∈ back, time < a.time := by simpa [reached?] using found
    rw [ahead?_all later]
    exact amid_back even stops linear (fun b last => reached b (List.mem_of_mem_getLast? last)) late
      fun a head => later a (List.mem_of_mem_head? head)

end Parted

/-- A keyframe with the value that shows at its time changes no sample. -/
theorem sampleWith_insert (ordered : Ordered c.keyframes) (linear : ∀ k ∈ c.keyframes, k.ease = .linear)
    (even : blend.Even) (eased : k.ease = .linear) (stops : k.value = c.sampleWith blend k.time) (time : ℝ) :
    (c.insert k false).sampleWith blend time = c.sampleWith blend time := by
  obtain ⟨front, back, shape, reached, notReached⟩ := ordered.parted k.time
  have ahead : ∀ a ∈ back, k.time < a.time := fun a member => not_le.mp (notReached a member)
  have onward : ∀ a ∈ back.head?, a.ease = .linear := fun a head =>
    linear a (shape ▸ List.mem_append_right _ (List.mem_of_mem_head? head))
  have here : k.value = amid blend c.rest front.getLast? back.head? k.time := by
    rw [stops, sampleWith_amid ordered, shape, reached?_split reached notReached,
      ahead?_split (fun b member => not_lt.mpr (reached b member)) ahead]
  have inserted := insert_split shape reached notReached
  have stored : Ordered (front ++ k :: back) := by
    rw [shape] at ordered
    obtain ⟨first, second, across⟩ := List.pairwise_append.mp ordered
    refine List.pairwise_append.mpr ⟨first, List.pairwise_cons.mpr ⟨fun a member => (ahead a member).le, second⟩, ?_⟩
    exact fun b member => List.forall_mem_cons.mpr ⟨reached b member, across b member⟩
  rw [inserted, sampleWith_amid stored, sampleWith_amid ordered, shape]
  rcases lt_or_ge time k.time with early | late
  · exact amid_insert_early onward even here ahead eased early
  · exact amid_insert_late onward even here reached late

private theorem sample_insert (ordered : Ordered c.keyframes) (linear : ∀ k ∈ c.keyframes, k.ease = .linear)
    (even : blend.Even) (blended : c.blend = some blend) (eased : k.ease = .linear)
    (stops : k.value = c.sampleWith blend k.time) (time : ℝ) : (c.insert k false).sample time = c.sample time := by
  have kept : (c.insert k false).blend = some blend := blended
  rw [sample, kept, sample, blended]
  exact congrArg Except.ok (sampleWith_insert ordered linear even eased stops time)

end Insertion

/-- A sampled keyframe does not bend the curve: wherever it is inserted, also at a time that other
keyframes have, in front of all, behind all or into an empty channel, every sample stays the same.
Neither does a hold that starts no earlier than the channel ends. -/
theorem stops_unseen {c : Channel ℝ V} {blend : Blend ℝ V} (ordered : Ordered c.keyframes)
    (linear : ∀ k ∈ c.keyframes, k.ease = .linear) (plain : blend.Plain) (blended : c.blend = some blend) :
    (∀ time, ∃ d, c.insertSampled time false = .ok d ∧ ∀ any, d.sample any = c.sample any) ∧
      ∀ last ∈ c.last?, ∀ time, last.time ≤ time → ∃ d, c.hold? time = some d ∧ ∀ any, d.sample any = c.sample any := by
  refine ⟨fun time => ?_, fun last ending time late => ?_⟩
  · have here : c.sample time = .ok (c.sampleWith blend time) := by rw [sample, blended]
    refine ⟨c.insert { time, value := c.sampleWith blend time } false, by rw [insertSampled, here]; rfl, fun any => ?_⟩
    exact sample_insert ordered linear plain.even blended rfl rfl any
  · refine ⟨c.insert { time, value := last.value, hold := true } false, by rw [hold?, ending]; rfl, fun any => ?_⟩
    exact sample_insert ordered linear plain.even blended rfl (sampleWith_behind ordered blend ending late).symm any

noncomputable def turning : Channel ℝ ℝ where
  keyframes := [(0, 3), (2, -3), (2, 1), (5, 0)].map fun ((time, value) : ℤ × ℤ) => { time, value }
  blend := some Blend.angle
  rest := Scalar.pi

theorem stops_unseen_turning :
    Ordered turning.keyframes ∧ (∀ k ∈ turning.keyframes, k.ease = .linear) ∧
      (∃ d, turning.insertSampled 1 false = .ok d ∧ ∀ any, d.sample any = turning.sample any) ∧
      ∃ last ∈ turning.last?, last.time ≤ 6 ∧
        ∃ d, turning.hold? 6 = some d ∧ ∀ any, d.sample any = turning.sample any := by
  have ordered : Ordered turning.keyframes := by
    norm_num [turning, Ordered]
  have linear : ∀ k ∈ turning.keyframes, k.ease = .linear := by simp [turning]
  obtain ⟨sampled, held⟩ := stops_unseen ordered linear .angle rfl
  have late : ((5 : ℤ) : ℝ) ≤ 6 := by norm_num
  exact ⟨ordered, linear, sampled 1, _, rfl, late, held _ rfl 6 late⟩

end Tween.Channel
