import Mathlib.Data.List.Basic
import Tween.Channel.Course
import Tween.Proofs.Channel.Accumulation

/-! Sampling without the search. The binary search finds the two keyframes around a time, so what is
sampled is the curve, and in front of it and behind it the value of its first or its last keyframe. -/

namespace Tween.Channel
open Scalar OrderLaws
variable {α V : Type} [Scalar α] {front back : List (Keyframe α V)} {time : α}

theorem slot_split (reached : ∀ k ∈ front, k.time ≤ time) (ahead : ∀ k ∈ back, ¬k.time ≤ time) :
    slot (front ++ back) time false = front.length := by
  have first : ∀ k ∈ front, decide (k.time ≤ time) = true := fun k member => decide_eq_true (reached k member)
  have second : ∀ k ∈ back, decide (k.time ≤ time) = false := fun k member => decide_eq_false (ahead k member)
  have leading : Leading (fun k : Keyframe α V => decide (k.time ≤ time)) (front ++ back) := by
    refine List.pairwise_append.mpr ⟨?_, ?_, ?_⟩
    · exact List.pairwise_of_forall_mem_list fun a member b _ _ => first a member
    · exact List.pairwise_of_forall_mem_list fun a _ b member holds => absurd (second b member) (by simp [holds])
    · exact fun a member b _ _ => first a member
  have none : back.takeWhile (fun k => decide (k.time ≤ time)) = [] := by
    cases back with
    | nil => rfl
    | cons k back => exact List.takeWhile_cons_of_neg (by simp [ahead k List.mem_cons_self])
  rw [slot, if_neg Bool.false_ne_true, leadingCount_eq leading, List.takeWhile_append_of_pos first, none,
    List.append_nil]

/-- The keyframe in front of the position that is found is always there. -/
private theorem sampleWith_found {c : Channel α V} {position : Nat} {last : Keyframe α V} (blend : Blend α V)
    (found : slot c.keyframes time false = position + 1) (stored : c.keyframes[position]? = some last) :
    c.sampleWith blend time = match c.keyframes[position + 1]? with
      | some next => between blend last next time
      | none => last.value := by
  rw [sampleWith]
  generalize c.keyframes = keyframes at found stored ⊢
  match keyframes, found, stored with
  | [], _, stored => cases stored
  | [only], _, stored =>
    obtain ⟨rfl, rfl⟩ : position = 0 ∧ only = last := by
      cases position with
      | zero => exact ⟨rfl, Option.some.inj stored⟩
      | succ n => cases stored
    rfl
  | first :: second :: rest, found, stored =>
    dsimp only
    rw [found, if_neg (Nat.succ_ne_zero _), Nat.add_sub_cancel, stored]
    cases (first :: second :: rest)[position + 1]? <;> rfl

/-- The search finds the last keyframe that has been reached and the first that has not. -/
theorem sampleWith_split {c : Channel α V} (shape : c.keyframes = front ++ back) (reached : ∀ k ∈ front, k.time ≤ time)
    (ahead : ∀ k ∈ back, ¬k.time ≤ time) (blend : Blend α V) :
    c.sampleWith blend time = match front.getLast?, back.head? with
      | some before, some after => between blend before after time
      | some last, none => last.value
      | none, some first => first.value
      | none, none => c.rest := by
  have found := slot_split reached ahead
  rw [← shape] at found
  rcases List.eq_nil_or_concat' front with rfl | ⟨init, last, rfl⟩
  · rw [sampleWith]
    rw [shape, List.nil_append] at found ⊢
    match back, found with
    | [], _ => rfl
    | [_], _ => rfl
    | first :: second :: rest, found => exact if_pos found
  · rw [List.length_append, List.length_singleton] at found
    have stored : c.keyframes[init.length]? = some last := by simp [shape]
    have next : c.keyframes[init.length + 1]? = back.head? := by
      rw [shape, List.getElem?_append_right (by simp), List.head?_eq_getElem?]
      simp
    rw [sampleWith_found blend found stored, next, List.getLast?_concat]
    cases back <;> rfl

theorem reached?_split (reached : ∀ k ∈ front, k.time ≤ time) (ahead : ∀ k ∈ back, ¬k.time ≤ time) :
    reached? (front ++ back) time = front.getLast? := by
  have none : back.reverse.find? (·.time ≤ time) = none := by simpa using ahead
  rw [reached?, List.reverse_append, List.find?_append, none, Option.none_or]
  rcases List.eq_nil_or_concat' front with rfl | ⟨init, last, rfl⟩
  · rfl
  · rw [List.reverse_concat, List.getLast?_concat]
    exact List.find?_cons_of_pos (decide_eq_true (reached last (List.mem_append_right _ List.mem_cons_self)))

theorem ahead?_split (passed : ∀ k ∈ front, ¬time < k.time) (ahead : ∀ k ∈ back, time < k.time) :
    ahead? (front ++ back) time = back.head? := by
  have none : front.find? (time < ·.time) = none := by simpa using passed
  rw [ahead?, List.find?_append, none, Option.none_or]
  cases back with
  | nil => rfl
  | cons next back => exact List.find?_cons_of_pos (decide_eq_true (ahead next List.mem_cons_self))

theorem reached?_all (reached : ∀ k ∈ front, k.time ≤ time) : reached? front time = front.getLast? := by
  have whole := reached?_split reached (List.forall_mem_nil fun k : Keyframe α V => ¬k.time ≤ time)
  rwa [List.append_nil] at whole

theorem ahead?_all (ahead : ∀ k ∈ back, time < k.time) : ahead? back time = back.head? :=
  ahead?_split (List.forall_mem_nil fun k : Keyframe α V => ¬time < k.time) ahead

theorem Ordered.parted [OrderLaws α] {keyframes : List (Keyframe α V)} (ordered : Ordered keyframes) (time : α) :
    ∃ front back, keyframes = front ++ back ∧ (∀ k ∈ front, k.time ≤ time) ∧ ∀ k ∈ back, ¬k.time ≤ time := by
  induction keyframes with
  | nil => exact ⟨[], [], rfl, nofun, nofun⟩
  | cons k rest ih =>
    obtain ⟨first, ordered⟩ := List.pairwise_cons.mp ordered
    by_cases reached : k.time ≤ time
    · obtain ⟨front, back, rfl, passed, ahead⟩ := ih ordered
      exact ⟨k :: front, back, rfl, List.forall_mem_cons.mpr ⟨reached, passed⟩, ahead⟩
    · refine ⟨[], k :: rest, rfl, nofun, List.forall_mem_cons.mpr ⟨reached, fun later member passed => ?_⟩⟩
      exact reached (le_trans (first later member) passed)

theorem Ordered.around [OrderLaws α] {keyframes : List (Keyframe α V)} (ordered : Ordered keyframes)
    {first last : Keyframe α V} (head : keyframes.head? = some first) (ending : keyframes.getLast? = some last)
    (begun : first.time ≤ time) (early : time < last.time) :
    ∃ front before after back, keyframes = front ++ before :: after :: back ∧
      (∀ k ∈ front ++ [before], k.time ≤ time) ∧ ∀ k ∈ after :: back, ¬k.time ≤ time := by
  have started : first ∈ keyframes := List.mem_of_mem_head? head
  have ended : last ∈ keyframes := List.mem_of_mem_getLast? ending
  obtain ⟨front, back, rfl, reached, ahead⟩ := ordered.parted time
  have behind : first ∈ front := (List.mem_append.mp started).resolve_right fun member => ahead first member begun
  have before : last ∈ back := (List.mem_append.mp ended).resolve_left fun member => not_le_of_lt early (reached last member)
  obtain ⟨front, k, rfl⟩ := (List.eq_nil_or_concat' front).resolve_left (List.ne_nil_of_mem behind)
  obtain ⟨next, back, rfl⟩ := List.exists_cons_of_ne_nil (List.ne_nil_of_mem before)
  exact ⟨front, k, next, back, (List.append_cons front k (next :: back)).symm, reached, ahead⟩

section Order
variable [OrderLaws α] {c : Channel α V} (ordered : Ordered c.keyframes) (blend : Blend α V)
include ordered

theorem sampleWith_before {first : Keyframe α V} (head : c.first? = some first) (early : time < first.time) :
    c.sampleWith blend time = first.value := by
  obtain ⟨rest, shape⟩ := List.head?_eq_some_iff.mp head
  rw [shape] at ordered
  have ahead : ∀ k ∈ first :: rest, ¬k.time ≤ time := by
    intro k member reached
    rcases List.mem_cons.mp member with rfl | behind
    · exact not_le_of_lt early reached
    · exact not_le_of_lt early (le_trans ((List.pairwise_cons.mp ordered).1 k behind) reached)
  rw [@sampleWith_split α V _ [] _ _ _ shape nofun ahead]
  rfl

theorem sampleWith_behind {last : Keyframe α V} (ending : c.last? = some last) (late : last.time ≤ time) :
    c.sampleWith blend time = last.value := by
  have reaches : c.Reaches time := fun other final => Option.some.inj (ending.symm.trans final) ▸ late
  have all : ∀ k ∈ c.keyframes, k.time ≤ time := fun k member => reaches.all ordered member
  have final : c.keyframes.getLast? = some last := ending
  rw [sampleWith_split (List.append_nil _).symm all nofun, final]
  rfl

theorem sampleWith_within (shape : c.keyframes = front ++ back) {before after : Keyframe α V}
    (ending : front.getLast? = some before) (head : back.head? = some after) (begun : before.time ≤ time)
    (ahead : time < after.time) : c.sampleWith blend time = between blend before after time := by
  rw [shape] at ordered
  obtain ⟨first, second, _⟩ := List.pairwise_append.mp ordered
  obtain ⟨rest, rfl⟩ := List.head?_eq_some_iff.mp head
  have reached : ∀ k ∈ front, k.time ≤ time := by
    intro k member
    rcases Ordered.le_last first ending member with rfl | earlier
    · exact begun
    · exact le_trans earlier begun
  have later : ∀ k ∈ after :: rest, ¬k.time ≤ time := by
    intro k member passed
    rcases List.mem_cons.mp member with rfl | behind
    · exact not_le_of_lt ahead passed
    · exact not_le_of_lt ahead (le_trans ((List.pairwise_cons.mp second).1 k behind) passed)
  rw [sampleWith_split shape reached later, ending]
  rfl

/-- At every time that is a number the search arrives at the curve. -/
theorem sampleWith_course (stamped : ∀ k ∈ c.keyframes, k.time ≤ k.time) (defined : time ≤ time) :
    c.sampleWith blend time = course (between blend) c.rest c.keyframes time := by
  obtain ⟨front, back, shape, reached, ahead⟩ := ordered.parted time
  have later : ∀ k ∈ back, time < k.time := fun k member =>
    lt_of_not_le defined (stamped k (shape ▸ List.mem_append_right _ member)) (ahead k member)
  rw [course, shape, reached?_split reached ahead,
    ahead?_split (fun k member less => not_le_of_lt less (reached k member)) later]
  exact sampleWith_split shape reached ahead blend

omit ordered in
/-- At a time that is no number the channel shows where it starts. -/
theorem sampleWith_undefined (undefined : ¬time ≤ time) : c.sampleWith blend time = c.startValue := by
  rw [sampleWith_split (List.nil_append _).symm nofun fun k _ reached => undefined (le_defined reached).2, startValue,
    first?]
  cases c.keyframes.head? <;> rfl

end Order

end Tween.Channel
