import Tween.Proofs.Channel.HoldSteps
import Tween.Proofs.Channel.Joining

/-! How many pairs joined runs make. Inside a run every change is a pair. Into a run leads a hold
marker, and its step is one more pair or takes the place of the first change. So the number
depends on the values alone, and fewer keyframes with the same ends never make it greater. -/

namespace Tween.Channel
open Scalar OrderLaws
variable {α V W : Type}

def changes [BEq V] : List V → Nat
  | first :: second :: rest => (if first == second then 0 else 1) + changes (second :: rest)
  | _ => 0

/-- Pairs of a run that is reached from a held value. A step into the run is stated once, by its
own pair or by the change that follows it. -/
def entering [BEq V] (held : Option V) : List V → Nat
  | [] => 0
  | first :: rest => if held.all (· == first) then changes (first :: rest) else 1 + changes rest

def passing [BEq V] (held : Option V) : List (List V) → Nat
  | [] => 0
  | run :: runs => entering held run + passing run.getLast? runs

def following (run : List (Keyframe α V)) : List (List (Keyframe α V)) → List (Keyframe α V)
  | [] => []
  | next :: runs => marker run next ++ next ++ following next runs

theorem joined_following (run : List (Keyframe α V)) (runs : List (List (Keyframe α V))) :
    joined (run :: runs) = run ++ following run runs := by
  induction runs generalizing run with
  | nil => exact (List.append_nil run).symm
  | cons next runs ih => rw [joined, ih, following, List.append_assoc, List.append_assoc]

/-- Markers bring no values of their own. -/
theorem joined_value {runs : List (List (Keyframe α V))} {k : Keyframe α V} (member : k ∈ joined runs) :
    ∃ stored ∈ runs.flatten, stored.value = k.value := by
  induction runs with
  | nil => cases member
  | cons run runs ih =>
    rw [List.flatten_cons]
    cases runs with
    | nil => exact ⟨k, List.mem_append_left _ member, rfl⟩
    | cons next runs =>
      rw [joined, List.append_assoc] at member
      rcases List.mem_append.mp member with own | member
      · exact ⟨k, List.mem_append_left _ own, rfl⟩
      · rcases List.mem_append.mp member with held | later
        · rw [marker] at held
          split at held
          next last first ending _ =>
            obtain rfl := List.mem_singleton.mp held
            exact ⟨last, List.mem_append_left _ (List.mem_of_mem_getLast? ending), rfl⟩
          next => cases held
        · obtain ⟨stored, found, same⟩ := ih later
          exact ⟨stored, List.mem_append_right _ found, same⟩

theorem stored_joined {runs : List (List (Keyframe α V))} {k : Keyframe α V} (member : k ∈ runs.flatten) :
    k ∈ joined runs := by
  induction runs with
  | nil => cases member
  | cons run runs ih =>
    cases runs with
    | nil => simpa [joined] using member
    | cons next runs =>
      rw [List.flatten_cons] at member
      rw [joined, List.append_assoc]
      rcases List.mem_append.mp member with own | later
      · exact List.mem_append_left _ own
      · exact List.mem_append_right _ (List.mem_append_right _ (ih later))

section Count
variable [Scalar α] [BEq V]

/-- Keyframes of one run: no two neighbours at one instant, and values that equal themselves. -/
structure Regular (run : List (Keyframe α V)) : Prop where
  present : run ≠ []
  apart : run.Pairwise fun k k' => (k.time == k'.time) = false
  timed : ∀ k ∈ run, (k.time == k.time) = true
  reflexive : ∀ k ∈ run, (k.value == k.value) = true

variable {previous first : Keyframe α V} {behind tail : List (Keyframe α V)}

private theorem transitions_inside (apart : (previous :: behind).Pairwise fun k k' => (k.time == k'.time) = false)
    {last : Keyframe α V} (ending : (previous :: behind).getLast? = some last) :
    (transitions false none previous (behind ++ tail)).length =
      changes ((previous :: behind).map (·.value)) + (transitions false none last tail).length := by
  induction behind generalizing previous with
  | nil =>
    obtain rfl : previous = last := Option.some.inj ending
    exact (Nat.zero_add _).symm
  | cons next behind ih =>
    have onward := ih (List.pairwise_cons.mp apart).2 (by rwa [List.getLast?_cons_cons] at ending)
    have instant := (List.pairwise_cons.mp apart).1 next List.mem_cons_self
    rw [List.cons_append, List.map_cons, List.map_cons, changes, ← List.map_cons]
    cases same : previous.value == next.value with
    | true =>
      rw [transitions_flat same, if_pos rfl, Nat.zero_add]
      exact onward
    | false =>
      rw [transitions_moved same instant, if_neg Bool.false_ne_true, Nat.add_assoc, ← onward, Nat.add_comm]
      rfl

/-- The open step of a marker costs one pair: its own, or the change in which it ends. -/
private theorem transitions_entered {m : Keyframe α V} (hold : m.hold = true)
    (apart : (first :: behind).Pairwise fun k k' => (k.time == k'.time) = false) {last : Keyframe α V}
    (ending : (first :: behind).getLast? = some last)
    (kept : ∀ k ∈ tail.head?, (last.value == k.value) = true) :
    (transitions false (some m) first (behind ++ tail)).length =
      1 + changes (behind.map (·.value)) + (transitions false none last tail).length := by
  cases behind with
  | nil =>
    obtain rfl : first = last := Option.some.inj ending
    cases tail with
    | nil => rfl
    | cons k tail =>
      rw [List.nil_append, transitions_flat (kept k rfl), transitions_flat (kept k rfl), List.length_append]
      rfl
  | cons second behind =>
    have instant := (List.pairwise_cons.mp apart).1 second List.mem_cons_self
    have inside := @transitions_inside _ _ _ _ _ _ tail (List.pairwise_cons.mp apart).2 last
      (by rwa [List.getLast?_cons_cons] at ending)
    rw [List.cons_append, Nat.add_assoc, ← inside]
    cases same : first.value == second.value with
    | true =>
      rw [transitions_flat same, List.length_append]
      rfl
    | false =>
      rw [transitions_moved same instant, Option.filter_some, hold]
      exact Nat.add_comm _ _

/-- A run with a marker in front, reached from the value that the marker keeps. -/
private theorem transitions_next {run next : List (Keyframe α V)} (regular : Regular next) {last final : Keyframe α V}
    (ending : run.getLast? = some last) (reflexive : (last.value == last.value) = true)
    (finish : next.getLast? = some final) (kept : ∀ k ∈ tail.head?, (final.value == k.value) = true) :
    (transitions false none last (marker run next ++ next ++ tail)).length =
      entering (some last.value) (next.map (·.value)) + (transitions false none final tail).length := by
  obtain ⟨first, behind, rfl⟩ := List.exists_cons_of_ne_nil regular.present
  obtain ⟨m, held, value, time, hold⟩ : ∃ m : Keyframe α V, marker run (first :: behind) = [m] ∧
      m.value = last.value ∧ m.time = first.time ∧ m.hold = true := by
    rw [marker, ending]
    exact ⟨_, rfl, rfl, rfl, rfl⟩
  have flat : (last.value == m.value) = true := value ▸ reflexive
  have instant : (m.time == first.time) = true := time ▸ regular.timed first List.mem_cons_self
  rw [held, List.singleton_append, List.cons_append, List.cons_append, transitions_flat flat, List.map_cons, entering,
    Option.all_some, ← value]
  change (transitions false none m (first :: (behind ++ tail))).length = _
  cases same : m.value == first.value with
  | true =>
    rw [transitions_flat same, if_pos rfl]
    exact transitions_inside regular.apart finish
  | false =>
    rw [transitions_step same instant, if_neg Bool.false_ne_true]
    exact transitions_entered hold regular.apart finish kept

private theorem transitions_following {run : List (Keyframe α V)} {runs : List (List (Keyframe α V))}
    (regular : ∀ run ∈ runs, Regular run) {last : Keyframe α V} (ending : run.getLast? = some last)
    (reflexive : (last.value == last.value) = true) :
    (transitions false none last (following run runs)).length =
      passing (some last.value) (runs.map (·.map (·.value))) := by
  induction runs generalizing run last with
  | nil => rfl
  | cons next runs ih =>
    have own := regular next List.mem_cons_self
    have finish := List.getLast?_eq_some_getLast own.present
    have again := own.reflexive _ (List.getLast_mem own.present)
    have kept : ∀ k ∈ (following next runs).head?, ((next.getLast own.present).value == k.value) = true := by
      intro k found
      cases runs with
      | nil => cases found
      | cons other runs =>
        have present := (regular other (List.mem_cons_of_mem _ List.mem_cons_self)).present
        obtain ⟨first, behind, rfl⟩ := List.exists_cons_of_ne_nil present
        rw [following, marker, finish] at found
        obtain rfl := Option.some.inj found
        exact again
    rw [following, transitions_next own ending reflexive finish kept,
      ih (fun run member => regular run (List.mem_cons_of_mem _ member)) finish again, List.map_cons, passing,
      List.getLast?_map, finish]
    rfl

theorem transitions_length {runs : List (List (Keyframe α V))} (regular : ∀ run ∈ runs, Regular run)
    (shape : joined runs = first :: behind) :
    (transitions false none first behind).length = passing none (runs.map (·.map (·.value))) := by
  cases runs with
  | nil => cases shape
  | cons run runs =>
    have own := regular run List.mem_cons_self
    obtain ⟨start, rest, rfl⟩ := List.exists_cons_of_ne_nil own.present
    rw [joined_following, List.cons_append] at shape
    obtain ⟨rfl, rfl⟩ := List.cons.inj shape
    have finish := List.getLast?_eq_some_getLast own.present
    have later := transitions_following (fun run member => regular run (List.mem_cons_of_mem _ member)) finish
      (own.reflexive _ (List.getLast_mem own.present))
    have counted : passing none (((start :: rest) :: runs).map (·.map (·.value))) =
        changes ((start :: rest).map (·.value)) +
          passing ((start :: rest).map (·.value)).getLast? (runs.map (·.map (·.value))) := rfl
    rw [transitions_inside own.apart finish, later, counted, List.getLast?_map, finish]
    rfl

end Count

section Fewer
variable {K : Type} [BEq V] [PartialEquivBEq V] [BEq W] {f : K → V} {g : K → W}

omit [PartialEquivBEq V] in
private theorem changes_tail (first : V) (rest : List V) : changes rest ≤ changes (first :: rest) := by
  cases rest with
  | nil => exact Nat.le_refl _
  | cons second rest => exact Nat.le_add_left _ _

omit [PartialEquivBEq V] in
private theorem changes_cons_le (first : V) (rest : List V) : changes (first :: rest) ≤ 1 + changes rest := by
  cases rest with
  | nil => exact Nat.zero_le _
  | cons second rest =>
    rw [changes]
    split <;> omega

/-- One more value between two others only adds changes. -/
private theorem changes_between (first second : V) (rest : List V) :
    changes (first :: rest) ≤ changes (first :: second :: rest) := by
  cases rest with
  | nil => exact Nat.zero_le _
  | cons third rest =>
    rw [changes, changes, changes, ← Nat.add_assoc]
    apply Nat.add_le_add_right
    cases near : first == second with
    | false => rw [if_neg Bool.false_ne_true]; split <;> omega
    | true =>
      cases far : second == third with
      | false => rw [if_neg Bool.false_ne_true]; split <;> omega
      | true => rw [if_pos (PartialEquivBEq.trans near far)]; omega

/-- Where `f` does not tell two apart, neither does `g`. -/
def Coarser (f : K → V) (g : K → W) (keys : List K) : Prop :=
  ∀ k ∈ keys, ∀ k' ∈ keys, (f k == f k') = true → (g k == g k') = true

omit [PartialEquivBEq V] in
theorem Coarser.sublist {keys more : List K} (coarser : Coarser f g more) (fewer : keys.Sublist more) :
    Coarser f g keys :=
  fun k member k' member' => coarser k (fewer.subset member) k' (fewer.subset member')

private theorem changes_fewer_behind {kept keys : List K} (fewer : kept.Sublist keys) (first : K)
    (coarser : Coarser f g (first :: kept)) :
    changes ((first :: kept).map g) ≤ changes ((first :: keys).map f) := by
  induction fewer generalizing first with
  | slnil => exact Nat.zero_le _
  | cons k _ ih => exact (ih first coarser).trans (changes_between _ _ _)
  | @cons_cons kept keys k _ ih =>
    have onward := ih k (coarser.sublist (List.sublist_cons_self _ _))
    rw [List.map_cons] at onward ⊢
    have step : (if g first == g k then 0 else 1) ≤ (if f first == f k then 0 else 1) := by
      cases same : f first == f k with
      | false => rw [if_neg Bool.false_ne_true]; split <;> omega
      | true => rw [if_pos (coarser first List.mem_cons_self k (List.mem_cons_of_mem _ List.mem_cons_self) same)]; omega
    exact Nat.add_le_add step onward

theorem changes_fewer {kept keys : List K} (fewer : kept.Sublist keys) (coarser : Coarser f g kept) :
    changes (kept.map g) ≤ changes (keys.map f) := by
  induction fewer with
  | slnil => exact Nat.le_refl _
  | cons k _ ih => exact (ih coarser).trans (changes_tail _ _)
  | cons_cons k fewer _ => exact changes_fewer_behind fewer k coarser

private theorem entering_fewer {kept keys : List K} (fewer : kept.Sublist keys) (same : kept.head? = keys.head?)
    (held : Option K) (coarser : Coarser f g (held.toList ++ kept)) :
    entering (held.map g) (kept.map g) ≤ entering (held.map f) (keys.map f) := by
  cases keys with
  | nil =>
    obtain rfl := List.sublist_nil.mp fewer
    exact Nat.le_refl _
  | cons first rest =>
    obtain ⟨behind, rfl⟩ := List.head?_eq_some_iff.mp same
    have later := List.cons_sublist_cons.mp fewer
    have own := coarser.sublist (List.sublist_append_right _ _)
    have all := changes_fewer fewer own
    have behind := changes_fewer later (own.sublist (List.sublist_cons_self _ _))
    have most := changes_cons_le (f first) (rest.map f)
    rw [List.map_cons, List.map_cons] at all
    rw [List.map_cons, List.map_cons, entering, entering]
    cases held with
    | none => exact all
    | some k =>
      rw [Option.map_some, Option.map_some, Option.all_some, Option.all_some]
      cases still : f k == f first with
      | true =>
        rw [if_pos (coarser k List.mem_cons_self first (List.mem_cons_of_mem _ List.mem_cons_self) still), if_pos rfl]
        exact all
      | false =>
        rw [if_neg Bool.false_ne_true]
        split <;> omega

theorem passing_fewer {kept runs : List (List K)}
    (trimmed : List.Forall₂ (fun kept run => kept.Sublist run ∧ kept.head? = run.head? ∧ kept.getLast? = run.getLast?)
      kept runs) (held : Option K) (coarser : Coarser f g (held.toList ++ kept.flatten)) :
    passing (held.map g) (kept.map (·.map g)) ≤ passing (held.map f) (runs.map (·.map f)) := by
  induction trimmed generalizing held with
  | nil => exact Nat.le_refl _
  | @cons thin run kept runs trim _ ih =>
    obtain ⟨fewer, head, ending⟩ := trim
    rw [List.flatten_cons] at coarser
    have own := entering_fewer fewer head held
      (coarser.sublist ((List.Sublist.refl _).append (List.sublist_append_left _ _)))
    have onward := ih run.getLast? (coarser.sublist (by
      refine List.Sublist.trans ?_ (List.sublist_append_right _ _)
      refine List.Sublist.append ?_ (List.Sublist.refl _)
      rw [← ending]
      cases final : thin.getLast? with
      | none => exact List.nil_sublist _
      | some last => exact List.singleton_sublist.mpr (List.mem_of_mem_getLast? final)))
    rw [List.map_cons, List.map_cons, passing, passing, List.getLast?_map, List.getLast?_map, ending]
    exact Nat.add_le_add own onward

end Fewer

section Pairs
variable [Scalar α] [BEq V] {rest : V} {edit : V → V} {runs kept : List (List (Keyframe α V))}

private def editedValue (edit : V → V) (k : Keyframe α V) : V := edit k.value

omit [Scalar α] [BEq V] in
private theorem joined_edited (edit : V → V) (runs : List (List (Keyframe α V))) :
    edited edit (joined runs) = joined (runs.map (edited edit)) := by
  have marked (run next : List (Keyframe α V)) :
      edited edit (marker run next) = marker (edited edit run) (edited edit next) := by
    rw [marker, marker, edited, edited, edited, List.getLast?_map, List.head?_map]
    cases run.getLast? <;> cases next.head? <;> rfl
  induction runs with
  | nil => rfl
  | cons run runs later =>
    cases runs with
    | nil => rfl
    | cons next runs =>
      simp only [joined, List.map_cons] at later ⊢
      rw [← later, ← marked, edited, List.map_append, List.map_append]
      rfl

private def pairCount (rest : V) (edit : V → V) (runs : List (List (Keyframe α V))) : Nat :=
  if passing none (runs.map (·.map (editedValue edit))) = 0 then
    ((joined runs).head?.any fun first => edit first.value != rest).toNat
  else passing none (runs.map (·.map (editedValue edit)))

omit [Scalar α] in
private theorem constant_length (first last : Keyframe α V) :
    (constant { rest, edit } first last).length = (first.value != rest).toNat := by
  have own : first.atTime first.time = first := rfl
  rw [constant, Option.getD_none, own]
  cases first.value != rest <;> rfl

private theorem present_of_regular {run : List (Keyframe α V)} (regular : Regular (edited edit run)) : run ≠ [] :=
  fun empty => regular.present (by rw [empty]; rfl)

private theorem joined_same_head {coarse : V → V} (trimmed : List.Forall₂ Trimmed kept runs)
    (regular : ∀ run ∈ kept, Regular (edited coarse run)) (regular' : ∀ run ∈ runs, Regular (edited edit run)) :
    (joined kept).head? = (joined runs).head? := by
  cases trimmed with
  | nil => rfl
  | @cons thin run kept runs trim _ =>
    rw [joined_head (present_of_regular (regular thin List.mem_cons_self)),
      joined_head (present_of_regular (regular' run List.mem_cons_self)), trim.head]

private theorem joined_head_stored (regular : ∀ run ∈ runs, Regular (edited edit run)) {first : Keyframe α V}
    (head : (joined runs).head? = some first) : first ∈ runs.flatten := by
  cases runs with
  | nil => cases head
  | cons run runs =>
    rw [joined_head (present_of_regular (regular run List.mem_cons_self))] at head
    exact List.mem_append_left _ (List.mem_of_mem_head? head)

private theorem pairs_length {c : Channel α V} (shape : c.keyframes = joined runs)
    (regular : ∀ run ∈ runs, Regular (edited edit run)) :
    (c.pairs { rest, edit }).length = pairCount rest edit runs := by
  have values : (runs.map (edited edit)).map (·.map (·.value)) = runs.map (·.map (editedValue edit)) := by
    rw [List.map_map]
    exact List.map_congr_left fun run _ => List.map_map
  have played : edited edit c.keyframes = joined (runs.map (edited edit)) := by rw [shape, joined_edited]
  cases keyframes : joined runs with
  | nil =>
    cases runs with
    | nil => rw [pairs, shape]; rfl
    | cons run runs =>
      have empty : run = [] := by
        rw [joined_following] at keyframes
        exact (List.append_eq_nil_iff.mp keyframes).1
      exact absurd empty (present_of_regular (regular run List.mem_cons_self))
  | cons first behind =>
    have front : edited edit c.keyframes = first.withValue (edit first.value) :: edited edit behind := by
      rw [shape, keyframes]
      rfl
    have counted := transitions_length (fun run member => by
      obtain ⟨raw, found, rfl⟩ := List.mem_map.mp member
      exact regular raw found) (played.symm.trans front)
    rw [values] at counted
    rw [pairs_unbounded front, pairCount, ← counted, keyframes]
    cases moving : transitions false none (first.withValue (edit first.value)) (edited edit behind) with
    | nil =>
      rw [List.isEmpty_nil, if_pos rfl, List.length_nil, if_pos rfl, constant_length]
      rfl
    | cons pair pairs => rfl

/-- Fewer keyframes in every run, with the same ends and compared more coarsely, make no more pairs. -/
theorem pairs_fewer [PartialEquivBEq V] {thin c : Channel α V} {coarse : V → V} (few : thin.keyframes = joined kept)
    (many : c.keyframes = joined runs) (trimmed : List.Forall₂ Trimmed kept runs)
    (regular : ∀ run ∈ kept, Regular (edited coarse run)) (regular' : ∀ run ∈ runs, Regular (edited edit run))
    (coarser : Coarser (editedValue edit) (editedValue coarse) kept.flatten)
    (resting : ∀ k ∈ kept.flatten, (edit k.value == rest) = true → (coarse k.value == rest) = true) :
    (thin.pairs { rest, edit := coarse }).length ≤ (c.pairs { rest, edit }).length := by
  have ends : List.Forall₂ (fun kept run : List (Keyframe α V) =>
      kept.Sublist run ∧ kept.head? = run.head? ∧ kept.getLast? = run.getLast?) kept runs :=
    trimmed.imp fun _ _ trim => ⟨trim.sublist, trim.head, trim.last⟩
  have fewer := passing_fewer ends none coarser
  rw [Option.map_none, Option.map_none] at fewer
  have still : ((joined kept).head?.any fun first => coarse first.value != rest).toNat ≤
      ((joined runs).head?.any fun first => edit first.value != rest).toNat := by
    rw [← joined_same_head trimmed regular regular']
    cases shape : (joined kept).head? with
    | none => exact Nat.le_refl _
    | some first =>
      rw [Option.any_some, Option.any_some]
      cases same : edit first.value == rest with
      | true => rw [bne, resting first (joined_head_stored regular shape) same]; exact Nat.zero_le _
      | false => rw [bne, bne, same]; exact Bool.toNat_le _
  have least := Bool.toNat_le ((joined kept).head?.any fun first => coarse first.value != rest)
  rw [pairs_length few regular, pairs_length many regular', pairCount, pairCount]
  split <;> split <;> omega

end Pairs

end Tween.Channel
