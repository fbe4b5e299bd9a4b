import Mathlib.Data.List.InsertIdx
import Tween.Channel

/-! What a channel has after an operation. Wherever the search puts a keyframe, it is there and
all that was stored stays, also when the times are in no order or undefined. -/

namespace Tween

theorem leadingCount_le {β : Type} (p : β → Bool) (xs : List β) : leadingCount p xs ≤ xs.length := by
  fun_induction leadingCount p xs with
  | case1 xs short found =>
    obtain ⟨x, member, _⟩ := List.any_eq_true.mp found
    exact List.length_pos_of_mem member
  | case2 => exact Nat.zero_le _
  | case3 xs _ half _ ih =>
    rw [List.length_drop] at ih
    omega
  | case4 xs _ half _ ih =>
    rw [List.length_take] at ih
    omega

namespace Channel
variable {α V : Type} [Scalar α] {c source : Channel α V} {k other : Keyframe α V}

theorem mem_insert {before : Bool} : other ∈ (c.insert k before).keyframes ↔ other = k ∨ other ∈ c.keyframes := by
  unfold insert
  dsimp only
  split
  · rw [List.mem_append, List.mem_singleton, or_comm]
  · have inside : slot c.keyframes k.time before ≤ c.keyframes.length := by
      unfold slot
      split <;> exact leadingCount_le _ _
    exact List.mem_insertIdx inside

theorem mem_hold {time : α} : other ∈ ((c.hold? time).getD c).keyframes ↔
    (∃ last ∈ c.last?, other = { time, value := last.value, hold := true }) ∨ other ∈ c.keyframes := by
  unfold hold?
  cases c.last? with
  | none => simp
  | some last => simp [mem_insert]

theorem mem_receive : other ∈ (c.receive source).keyframes ↔ other ∈ c.keyframes ∨ other ∈ source.keyframes := by
  unfold receive
  induction source.keyframes generalizing c with
  | nil => simp
  | cons k keyframes ih =>
    rw [List.foldl_cons, ih, mem_insert, List.mem_cons]
    tauto

end Channel
end Tween
