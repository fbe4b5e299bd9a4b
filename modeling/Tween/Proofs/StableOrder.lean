import Tween.Proofs.LeadingCount
import Tween.Proofs.ScalarOrder

/-! Lists in the order of their keys. An element that is placed behind all that are no later
leaves equal keys as they came, so placing elements one by one is the stable sort. -/

namespace Tween
open Scalar OrderLaws
variable {α β : Type}

variable [Scalar α]

/-- Every key is defined, and none is smaller than one before it. -/
structure Sorted (key : β → α) (xs : List β) : Prop where
  defined : ∀ x ∈ xs, key x ≤ key x
  ordered : xs.Pairwise (key · ≤ key ·)

variable {key : β → α} {xs ys : List β} {x : β}

theorem Sorted.nil : Sorted key [] := ⟨nofun, List.Pairwise.nil⟩

theorem Sorted.sublist (sorted : Sorted key xs) (fewer : ys.Sublist xs) : Sorted key ys :=
  ⟨fun x member => sorted.defined x (fewer.subset member), sorted.ordered.sublist fewer⟩

theorem Sorted.tail (sorted : Sorted key (x :: xs)) : Sorted key xs := sorted.sublist (List.sublist_cons_self x xs)

theorem Sorted.head_le (sorted : Sorted key (x :: xs)) {y : β} (member : y ∈ x :: xs) : key x ≤ key y := by
  cases member with
  | head => exact sorted.defined x List.mem_cons_self
  | tail _ behind => exact (List.pairwise_cons.mp sorted.ordered).1 y behind

/-- Elements that equal keys have in common come in the same order. -/
def SameTies (key : β → α) (xs ys : List β) : Prop :=
  ∀ tie, xs.filter (key · == tie) = ys.filter (key · == tie)

variable [OrderLaws α]

private theorem mem_of_sameTies (same : SameTies key xs ys) (member : x ∈ xs) (defined : key x ≤ key x) : x ∈ ys := by
  have found : x ∈ xs.filter (key · == key x) := List.mem_filter.mpr ⟨member, beq_of_defined defined⟩
  rw [same] at found
  exact (List.mem_filter.mp found).1

/-- An order is determined up to ties, and the ties are given. -/
theorem Sorted.eq_of_sameTies (first : Sorted key xs) (second : Sorted key ys) (same : SameTies key xs ys) :
    xs = ys := by
  induction xs generalizing ys with
  | nil =>
    cases ys with
    | nil => rfl
    | cons y ys =>
      have found := mem_of_sameTies (fun tie => (same tie).symm) List.mem_cons_self (second.defined y List.mem_cons_self)
      exact absurd found List.not_mem_nil
  | cons x xs ih =>
    have member := mem_of_sameTies same List.mem_cons_self (first.defined x List.mem_cons_self)
    cases ys with
    | nil => exact absurd member List.not_mem_nil
    | cons y ys =>
      have back := mem_of_sameTies (fun tie => (same tie).symm) List.mem_cons_self (second.defined y List.mem_cons_self)
      -- Each head is no later than the other one, so both lists begin with what has that key.
      have tied : (key y == key x) = true := beq_iff.mpr ⟨second.head_le member, first.head_le back⟩
      have heads := same (key x)
      have own : (key x == key x) = true := beq_of_defined (first.defined x List.mem_cons_self)
      simp only [List.filter_cons, own, tied, if_true] at heads
      obtain ⟨rfl, _⟩ := List.cons.inj heads
      refine congrArg (x :: ·) (ih first.tail second.tail fun tie => ?_)
      have tails := same tie
      simp only [List.filter_cons] at tails
      split at tails
      · exact (List.cons.inj tails).2
      · exact tails

omit [OrderLaws α] in
/-- Behind the leading elements stands one that does not lead, and nothing smaller. -/
theorem Sorted.stopped (sorted : Sorted key xs) {leads : β → Bool} {y : β} (member : y ∈ xs.dropWhile leads) :
    ∃ first ∈ xs, leads first = false ∧ key first ≤ key y := by
  have stops := List.head?_dropWhile_not leads xs
  have behind := sorted.sublist (List.dropWhile_sublist leads)
  cases shape : xs.dropWhile leads with
  | nil => exact absurd (shape ▸ member) List.not_mem_nil
  | cons first rest =>
    rw [shape] at stops behind member
    exact ⟨first, (List.dropWhile_sublist leads).subset (shape ▸ List.mem_cons_self), stops, behind.head_le member⟩

theorem placed_sorted (sorted : Sorted key xs) {leads : β → Bool} (new : key x ≤ key x)
    (earlier : ∀ y ∈ xs, leads y = true → key y ≤ key x) (later : ∀ y ∈ xs, leads y = false → key x ≤ key y) :
    Sorted key (placed leads x xs) := by
  have whole : xs.takeWhile leads ++ xs.dropWhile leads = xs := List.takeWhile_append_dropWhile
  have front : ∀ y ∈ xs.takeWhile leads, key y ≤ key x := fun y member =>
    earlier y ((List.takeWhile_sublist leads).subset member) (List.mem_takeWhile_imp member)
  have back : ∀ y ∈ xs.dropWhile leads, key x ≤ key y := by
    intro y member
    obtain ⟨first, inside, stops, less⟩ := sorted.stopped member
    exact le_trans (later first inside stops) less
  constructor
  · intro y member
    rcases List.mem_append.mp ((placed_perm leads x xs).subset member) with stored | added
    · exact sorted.defined y stored
    · exact List.mem_singleton.mp added ▸ new
  · obtain ⟨before, after, across⟩ := List.pairwise_append.mp (whole.symm ▸ sorted.ordered)
    refine List.pairwise_append.mpr ⟨before, List.pairwise_cons.mpr ⟨back, after⟩, fun y ahead z behind => ?_⟩
    cases behind with
    | head => exact front y ahead
    | tail _ behind => exact across y ahead z behind

/-! Placing behind all that are no later. -/

private theorem not_le_later (sorted : Sorted key xs) (new : key x ≤ key x) :
    ∀ y ∈ xs, decide (key y ≤ key x) = false → key x ≤ key y := fun y member ahead =>
  (le_total (sorted.defined y member) new).resolve_left (of_decide_eq_false ahead)

theorem placed_le_sorted (sorted : Sorted key xs) (new : key x ≤ key x) :
    Sorted key (placed (fun y => decide (key y ≤ key x)) x xs) :=
  placed_sorted sorted new (fun _ _ leads => of_decide_eq_true leads) (not_le_later sorted new)

theorem placed_le_sameTies (sorted : Sorted key xs) :
    SameTies key (placed (fun y => decide (key y ≤ key x)) x xs) (xs ++ [x]) := by
  intro tie
  have whole : xs.takeWhile (fun y => decide (key y ≤ key x)) ++ xs.dropWhile (fun y => decide (key y ≤ key x)) = xs :=
    List.takeWhile_append_dropWhile
  have split := congrArg (List.filter (key · == tie)) whole
  rw [List.filter_append] at split
  rw [placed, List.filter_append, List.filter_append, ← split, List.filter_cons, List.append_assoc]
  cases tied : key x == tie with
  | false => simp [tied]
  | true =>
    -- What stands behind is later than the new element and has no part in the tie.
    have none : (xs.dropWhile fun y => decide (key y ≤ key x)).filter (key · == tie) = [] := by
      rw [List.filter_eq_nil_iff]
      intro y member same
      obtain ⟨first, _, stops, less⟩ := sorted.stopped member
      exact of_decide_eq_false stops (le_trans less (le_trans (le_of_beq same) (ge_of_beq tied)))
    simp [none, tied]

/-! The stable sort of the standard library asks for a total order. Undefined keys have no place
in the order of keys, so the sort is that of an order in which they come last. -/

private def upTo (key : β → α) (a b : β) : Bool := decide (key a ≤ key b) || !decide (key b ≤ key b)

private theorem upTo_trans (a b c : β) (first : upTo key a b = true) (second : upTo key b c = true) :
    upTo key a c = true := by
  simp only [upTo, Bool.or_eq_true, decide_eq_true_eq, Bool.not_eq_true', decide_eq_false_iff_not] at first second ⊢
  rcases second with ordered | undefined
  · rcases first with before | undefined
    · exact Or.inl (le_trans before ordered)
    · exact absurd (le_defined ordered).1 undefined
  · exact Or.inr undefined

private theorem upTo_total (a b : β) : (upTo key a b || upTo key b a) = true := by
  simp only [upTo, Bool.or_eq_true, decide_eq_true_eq, Bool.not_eq_true', decide_eq_false_iff_not]
  by_cases first : key a ≤ key a
  · by_cases second : key b ≤ key b
    · exact (le_total first second).imp Or.inl Or.inl
    · exact Or.inl (Or.inr second)
  · exact Or.inr (Or.inr first)

omit [OrderLaws α] in
private theorem mergeSort_upTo (defined : ∀ x ∈ xs, key x ≤ key x) :
    xs.mergeSort (fun a b => decide (key a ≤ key b)) = xs.mergeSort (upTo key) := by
  have same := List.map_mergeSort (r := fun a b => decide (key a ≤ key b)) (s := upTo key) (f := id) (l := xs)
    fun a _ b member => by simp [upTo, defined b member]
  simpa using same

theorem mergeSort_sorted (defined : ∀ x ∈ xs, key x ≤ key x) :
    Sorted key (xs.mergeSort fun a b => decide (key a ≤ key b)) := by
  have all : ∀ x ∈ xs.mergeSort fun a b => decide (key a ≤ key b), key x ≤ key x :=
    fun x member => defined x (List.mem_mergeSort.mp member)
  refine ⟨all, ?_⟩
  rw [mergeSort_upTo defined] at all ⊢
  refine (List.pairwise_mergeSort upTo_trans upTo_total xs).imp_of_mem fun {a b} _ second ordered => ?_
  simpa [upTo, all b second] using ordered

theorem mergeSort_sameTies (defined : ∀ x ∈ xs, key x ≤ key x) :
    SameTies key (xs.mergeSort fun a b => decide (key a ≤ key b)) xs := by
  intro tie
  have tied : (xs.filter (key · == tie)).Pairwise fun a b => upTo key a b = true := by
    refine List.pairwise_of_forall_mem_list fun a first b second => ?_
    have equal := le_trans (le_of_beq (List.mem_filter.mp first).2) (ge_of_beq (List.mem_filter.mp second).2)
    simp [upTo, equal]
  have kept : (xs.filter (key · == tie)).Sublist (xs.mergeSort (upTo key)) :=
    List.sublist_mergeSort upTo_trans upTo_total tied List.filter_sublist
  rw [mergeSort_upTo defined]
  have within := kept.filter (key · == tie)
  rw [List.filter_filter, List.filter_congr (q := (key · == tie)) (by simp)] at within
  exact (within.eq_of_length ((List.mergeSort_perm xs (upTo key)).filter _).length_eq.symm).symm

/-- What is in order and keeps the ties is the stable sort. -/
theorem Sorted.eq_mergeSort (sorted : Sorted key ys) (same : SameTies key ys xs) (defined : ∀ x ∈ xs, key x ≤ key x) :
    ys = xs.mergeSort fun a b => decide (key a ≤ key b) :=
  sorted.eq_of_sameTies (mergeSort_sorted defined) fun tie => (same tie).trans (mergeSort_sameTies defined tie).symm

private theorem foldl_placed_sameTies (sorted : Sorted key xs) (new : ∀ y ∈ ys, key y ≤ key y) :
    Sorted key (ys.foldl (fun xs y => placed (fun z => decide (key z ≤ key y)) y xs) xs) ∧
      SameTies key (ys.foldl (fun xs y => placed (fun z => decide (key z ≤ key y)) y xs) xs) (xs ++ ys) := by
  induction ys generalizing xs with
  | nil => exact ⟨sorted, fun tie => by simp⟩
  | cons y ys ih =>
    have here := new y List.mem_cons_self
    obtain ⟨order, ties⟩ := ih (placed_le_sorted sorted here) fun y member => new y (List.mem_cons_of_mem _ member)
    refine ⟨order, fun tie => (ties tie).trans ?_⟩
    rw [List.filter_append, placed_le_sameTies sorted tie, ← List.filter_append]
    simp

/-- Elements placed one by one are sorted in behind what is there. -/
theorem foldl_placed (sorted : Sorted key xs) (new : ∀ y ∈ ys, key y ≤ key y) :
    ys.foldl (fun xs y => placed (fun z => decide (key z ≤ key y)) y xs) xs =
      (xs ++ ys).mergeSort fun a b => decide (key a ≤ key b) := by
  obtain ⟨order, ties⟩ := foldl_placed_sameTies sorted new
  refine order.eq_mergeSort ties fun x member => ?_
  exact (List.mem_append.mp member).elim (sorted.defined x) (new x)

end Tween
