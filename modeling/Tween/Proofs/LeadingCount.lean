import Mathlib.Data.List.TakeWhile
import Tween.LeadingCount

/-! On a list whose elements with a property all come first, the halving search counts them, and
insertion at that count goes between the two parts. -/

namespace Tween
variable {β : Type} {p : β → Bool} {xs : List β}

/-- The search asks for the property of elements and for nothing else of them. -/
theorem leadingCount_map {γ : Type} (f : γ → β) (xs : List γ) :
    leadingCount p (xs.map f) = leadingCount (fun x => p (f x)) xs := by
  induction xs using leadingCount.induct (fun x => p (f x)) with
  | case1 xs short found =>
    rw [leadingCount, leadingCount, if_pos (by simpa using short), if_pos short, List.any_map]
    rfl
  | case2 xs short found =>
    rw [leadingCount, leadingCount, if_pos (by simpa using short), if_pos short, List.any_map]
    rfl
  | case3 xs long half found ih =>
    rw [leadingCount, leadingCount, if_neg (by simpa using long), if_neg long, if_pos found, if_pos, ← ih]
    all_goals simp only [List.length_map, ← List.map_drop, List.head?_map, Option.any_map]
    · rfl
    · exact found
  | case4 xs long half found ih =>
    rw [leadingCount, leadingCount, if_neg (by simpa using long), if_neg long, if_neg found, if_neg, ← ih]
    all_goals simp only [List.length_map, ← List.map_drop, ← List.map_take, List.head?_map, Option.any_map]
    · rfl
    · exact found

/-- Elements with the property stand in front of all others. -/
def Leading (p : β → Bool) (xs : List β) : Prop := xs.Pairwise fun a b => p b = true → p a = true

private theorem takeWhile_all {front back : List β} (all : ∀ x ∈ front, p x = true) :
    (front ++ back).takeWhile p = front ++ back.takeWhile p := by
  rw [List.takeWhile_append, if_pos (by rw [List.takeWhile_eq_self_iff.mpr all])]

private theorem takeWhile_stops {front back : List β} (stops : ∀ x ∈ back.head?, p x = false) :
    (front ++ back).takeWhile p = front.takeWhile p := by
  rw [List.takeWhile_append]
  split
  next whole =>
    have front : front.takeWhile p = front := (List.takeWhile_prefix p).eq_of_length whole
    cases back with
    | nil => simp [front]
    | cons x back => simp [stops x rfl, front]
  next => rfl

private theorem takeWhile_reached (leading : Leading p xs) {half : Nat} (found : (xs.drop half).head?.any p = true) :
    xs.takeWhile p = xs.take half ++ (xs.drop half).takeWhile p := by
  obtain ⟨x, head, holds⟩ := (Option.any_eq_true p _).mp found
  have split := List.take_append_drop half xs
  have parts := List.pairwise_append.mp (split.symm ▸ leading)
  have front : ∀ y ∈ xs.take half, p y = true := fun y member =>
    parts.2.2 y member x (List.mem_of_head? head) holds
  rw [← takeWhile_all front, split]

private theorem takeWhile_cut {half length : Nat} (stops : ∀ x ∈ (xs.drop half).head?, p x = false) (longer : half ≤ length) :
    (xs.take length).takeWhile p = xs.takeWhile p := by
  have cut : xs.take length = xs.take half ++ (xs.drop half).take (length - half) := by
    rw [← List.take_add, Nat.add_sub_cancel' longer]
  have within : ∀ x ∈ ((xs.drop half).take (length - half)).head?, p x = false := by
    intro x head
    rw [List.head?_take] at head
    split at head
    · cases head
    · exact stops x head
  rw [cut, takeWhile_stops within, ← takeWhile_stops stops, List.take_append_drop]

theorem leadingCount_eq (leading : Leading p xs) : leadingCount p xs = (xs.takeWhile p).length := by
  induction xs using leadingCount.induct p with
  | case1 xs short found =>
    rw [leadingCount, if_pos short, if_pos found]
    obtain ⟨x, member, holds⟩ := List.any_eq_true.mp found
    have single : xs = [x] := by
      match xs, short, member with
      | [_], _, .head _ => rfl
    simp [single, holds]
  | case2 xs short found =>
    rw [leadingCount, if_pos short, if_neg found]
    cases xs with
    | nil => rfl
    | cons x xs => simp_all
  | case3 xs long half found ih =>
    have bound : half ≤ xs.length := Nat.div_le_self _ _
    rw [leadingCount, if_neg long, if_pos found, takeWhile_reached leading found, List.length_append, List.length_take,
      Nat.min_eq_left bound, ih (leading.sublist (List.drop_sublist _ _))]
  | case4 xs long half found ih =>
    have stops : ∀ x ∈ (xs.drop half).head?, p x = false := by
      intro x head
      rw [head] at found
      simpa using found
    have longer : half ≤ xs.length - half := by omega
    rw [leadingCount, if_neg long, if_neg found, ih (leading.sublist (List.take_sublist _ _)), takeWhile_cut stops longer]

theorem insertIdx_between (front back : List β) (x : β) :
    (front ++ back).insertIdx front.length x = front ++ x :: back := by
  induction front with
  | nil => rfl
  | cons first front ih => exact congrArg (first :: ·) ih

/-- The element behind those that lead and in front of the others. -/
def placed (p : β → Bool) (x : β) (xs : List β) : List β := xs.takeWhile p ++ x :: xs.dropWhile p

theorem insertIdx_leadingCount (leading : Leading p xs) (x : β) : xs.insertIdx (leadingCount p xs) x = placed p x xs := by
  have between := insertIdx_between (xs.takeWhile p) (xs.dropWhile p) x
  rwa [List.takeWhile_append_dropWhile, ← leadingCount_eq leading] at between

theorem placed_all (all : ∀ y ∈ xs, p y = true) (x : β) : placed p x xs = xs ++ [x] := by
  rw [placed, List.takeWhile_eq_self_iff.mpr all, List.dropWhile_eq_nil_iff.mpr all]

/-- Going behind everything without a search is right where the search would arrive there. -/
theorem insert_placed (leading : Leading p xs) {latest : Bool} (all : latest = true → ∀ y ∈ xs, p y = true) (x : β) :
    (if latest = true then xs ++ [x] else xs.insertIdx (leadingCount p xs) x) = placed p x xs := by
  split
  next reached => exact (placed_all (all reached) x).symm
  next => exact insertIdx_leadingCount leading x

theorem placed_perm (p : β → Bool) (x : β) (xs : List β) : (placed p x xs).Perm (xs ++ [x]) := by
  have whole : xs.takeWhile p ++ xs.dropWhile p = xs := List.takeWhile_append_dropWhile
  rw [placed]
  refine List.perm_middle.trans ?_
  rw [whole]
  exact (List.perm_append_singleton x xs).symm

end Tween
