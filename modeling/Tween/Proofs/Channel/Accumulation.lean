import Tween.Channel.Course
import Tween.Proofs.LeadingCount
import Tween.Proofs.ScalarOrder

/-! Keyframes that come in time order. Insertion searches for the place of any keyframe, but one
that is not earlier than the end always goes behind everything stored. -/

namespace Tween.Channel
open Scalar OrderLaws
variable {α V : Type} [Scalar α]

/-- Nothing stored is later than `time`. -/
def Reaches (c : Channel α V) (time : α) : Prop := ∀ last ∈ c.last?, last.time ≤ time

/-- What values and holds at times that never go back make of an empty channel. -/
inductive Accumulated : Channel α V → Prop
  | start (blend : Option (Blend α V)) (rest : V) : Accumulated { blend, rest }
  | add {c : Channel α V} {time : α} (value : V) (before : Accumulated c) (later : c.Reaches time) :
      Accumulated (c.add time value)
  | hold {c d : Channel α V} {time : α} (before : Accumulated c) (later : c.Reaches time)
      (held : c.hold? time = some d) : Accumulated d

theorem Ordered.le_last {keyframes : List (Keyframe α V)} (ordered : Ordered keyframes) {last : Keyframe α V}
    (found : last ∈ keyframes.getLast?) {k : Keyframe α V} (member : k ∈ keyframes) : k = last ∨ k.time ≤ last.time := by
  obtain ⟨earlier, rfl⟩ := List.getLast?_eq_some_iff.mp found
  rcases List.mem_append.mp member with before | final
  · exact Or.inr ((List.pairwise_append.mp ordered).2.2 k before last (List.mem_singleton_self last))
  · exact Or.inl (List.mem_singleton.mp final)

variable [OrderLaws α]

theorem insert_behind {c : Channel α V} {k : Keyframe α V} (later : c.Reaches k.time) :
    c.insert k false = { c with keyframes := c.keyframes ++ [k] } := by
  have behind : appends c.keyframes k.time false = true := by
    unfold appends
    split
    next => rfl
    next last found =>
      rcases lt_or_beq_of_le (later last found) with less | same
      · simp [less]
      · simp [PartialEquivBEq.symm same]
  simp [insert, behind]

theorem insert_front {c : Channel α V} {k : Keyframe α V} (earliest : ∀ other ∈ c.keyframes, k.time ≤ other.time) :
    c.insert k true = { c with keyframes := k :: c.keyframes } := by
  have none : ∀ other ∈ c.keyframes, decide (other.time < k.time) = false :=
    fun other member => decide_eq_false fun less => not_le_of_lt less (earliest other member)
  have front : c.keyframes.insertIdx (slot c.keyframes k.time true) k = k :: c.keyframes := by
    have leading : Leading (fun other => decide (other.time < k.time)) c.keyframes :=
      List.pairwise_of_forall_mem_list fun _ _ other member less => absurd less (by simp [none other member])
    have stops : c.keyframes.takeWhile (fun other => decide (other.time < k.time)) = [] :=
      List.takeWhile_eq_nil_iff.mpr fun inside => by simp [none _ (List.getElem_mem inside)]
    have whole := List.takeWhile_append_dropWhile (p := fun other => decide (other.time < k.time)) (l := c.keyframes)
    rw [stops, List.nil_append] at whole
    rw [slot, if_pos rfl, insertIdx_leadingCount leading, placed, stops, whole, List.nil_append]
  unfold insert
  split
  next behind =>
    -- Only an empty channel takes an early keyframe at its end.
    cases shape : c.keyframes with
    | nil => rfl
    | cons first rest =>
      have found := List.getLast?_eq_some_getLast (List.cons_ne_nil first rest)
      have last := none ((first :: rest).getLast (List.cons_ne_nil first rest))
        (by rw [shape]; exact List.getLast_mem _)
      rw [appends, shape, found] at behind
      simp [last] at behind
  next => rw [front]

/-- Keyframes that start no earlier than the channel ends go behind it one by one. -/
theorem receive_behind {target source : Channel α V} (ordered : Ordered source.keyframes)
    (later : ∀ first ∈ source.first?, target.Reaches first.time) :
    target.receive source = { target with keyframes := target.keyframes ++ source.keyframes } := by
  change ∀ first ∈ source.keyframes.head?, target.Reaches first.time at later
  unfold receive
  generalize source.keyframes = keyframes at ordered later ⊢
  induction keyframes generalizing target with
  | nil => simp
  | cons k keyframes ih =>
    obtain ⟨after, ordered⟩ := List.pairwise_cons.mp ordered
    rw [List.foldl_cons, insert_behind (later k rfl), ih ordered ?_]
    · simp
    · intro next head last found
      rw [last?, List.getLast?_concat] at found
      exact Option.some.inj found ▸ after next (List.mem_of_mem_head? head)

theorem Reaches.all {c : Channel α V} {time : α} (later : c.Reaches time) (ordered : Ordered c.keyframes)
    {k : Keyframe α V} (member : k ∈ c.keyframes) : k.time ≤ time := by
  have found := List.getLast?_eq_some_getLast (List.ne_nil_of_mem member)
  rcases ordered.le_last found member with same | before
  · exact same ▸ later _ found
  · exact le_trans before (later _ found)

theorem Ordered.append {keyframes : List (Keyframe α V)} (ordered : Ordered keyframes) {k : Keyframe α V}
    (later : ∀ last ∈ keyframes.getLast?, last.time ≤ k.time) : Ordered (keyframes ++ [k]) := by
  refine List.pairwise_append.mpr ⟨ordered, List.pairwise_singleton _ _, ?_⟩
  intro earlier member final found
  obtain rfl := List.mem_singleton.mp found
  have reached : Reaches { keyframes, blend := none, rest := earlier.value } final.time := later
  exact reached.all ordered member

theorem Accumulated.append {c : Channel α V} (time : α) (value : V) (before : Accumulated c) (later : c.Reaches time) :
    Accumulated { c with keyframes := c.keyframes ++ [{ time, value }] } :=
  insert_behind (k := { time, value }) later ▸ before.add value later

theorem Accumulated.append_hold {c : Channel α V} (time : α) {last : Keyframe α V} (before : Accumulated c)
    (later : c.Reaches time) (found : c.last? = some last) :
    Accumulated { c with keyframes := c.keyframes ++ [{ time, value := last.value, hold := true }] } :=
  insert_behind (k := { time, value := last.value, hold := true }) later ▸ before.hold later (by rw [hold?, found]; rfl)

theorem Accumulated.ordered {c : Channel α V} (accumulated : Accumulated c) : Ordered c.keyframes := by
  induction accumulated with
  | start blend rest => exact List.Pairwise.nil
  | add value before later ih =>
    rw [Channel.add, insert_behind later]
    exact ih.append later
  | @hold c d time before later held ih =>
    obtain ⟨last, present, rfl⟩ := Option.map_eq_some_iff.mp held
    rw [insert_behind (k := { time, value := last.value, hold := true }) later]
    exact ih.append later

end Tween.Channel
