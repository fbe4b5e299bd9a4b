import Mathlib.Logic.Function.Basic
import Tween.Channel.Sample
import Tween.Proofs.Binary64.Units
import Tween.Proofs.Channel.Accumulation
import Tween.Proofs.Channel.Simplification
import Tween.Proofs.StableOrder

/-! Channels under any sequence of edits. Keyframes stay in time order, and that is what makes the
search for a place right: every insertion finds the side of the equal times that it was asked for,
with or without a search. -/

namespace Tween.Channel
open Scalar OrderLaws
variable {ι α V : Type}

/-- What can be done to channels that are known by name. -/
inductive Edit (ι α V : Type) where
  | insert (target : ι) (k : Keyframe α V) (before : Bool)
  | add (target : ι) (time : α) (value : V)
  | insertSampled (target : ι) (time : α) (before : Bool)
  | hold (target : ι) (time : α)
  | simplify (target : ι) (tolerance : α) (deviation : Deviation α V)
  /-- No channel is moved into itself. -/
  | transfer (source target : ι) (apart : source ≠ target) (emptied : Bool)
  | clear (target : ι)

/-- An empty channel has nothing to hold, and one without a blend refuses to be sampled. -/
inductive Answer (α : Type) where
  | done
  | nothing
  | refused (problem : Problem α)

namespace Edit

def time? : Edit ι α V → Option α
  | insert _ k _ => some k.time
  | add _ time _ | insertSampled _ time _ | hold _ time => some time
  | simplify .. | transfer .. | clear _ => none

variable [DecidableEq ι] [Scalar α] [BEq V]

def run (store : ι → Channel α V) : Edit ι α V → Answer α × (ι → Channel α V)
  | insert target k before => (.done, Function.update store target ((store target).insert k before))
  | add target time value => (.done, Function.update store target ((store target).add time value))
  | insertSampled target time before =>
    match (store target).insertSampled time before with
    | .ok channel => (.done, Function.update store target channel)
    | .error problem => (.refused problem, store)
  | hold target time =>
    match (store target).hold? time with
    | some channel => (.done, Function.update store target channel)
    | none => (.nothing, store)
  | simplify target tolerance deviation =>
    (.done, Function.update store target ((store target).simplify tolerance deviation))
  | transfer source target _ emptied =>
    let received := Function.update store target ((store target).receive (store source))
    (.done, if emptied then Function.update received source (store source).clear else received)
  | clear target => (.done, Function.update store target (store target).clear)

def runAll (store : ι → Channel α V) (edits : List (Edit ι α V)) : ι → Channel α V :=
  edits.foldl (fun store edit => (edit.run store).2) store

end Edit

section Specification
variable [Scalar α]

/-- One keyframe more than stored, behind all that are not later or `before` all that are not earlier. -/
structure Inserted (k : Keyframe α V) (before : Bool) (stored kept : List (Keyframe α V)) : Prop where
  between : ∃ front back, stored = front ++ back ∧ kept = front ++ k :: back ∧
    (∀ other ∈ front, if before then other.time < k.time else other.time ≤ k.time) ∧
    ∀ other ∈ back, if before then k.time ≤ other.time else k.time < other.time
  /-- A search arrives there, also if none was made. -/
  searched : kept = stored.insertIdx (slot stored k.time before) k

variable [DecidableEq ι] (store after : ι → Channel α V)

def Inserts (target : ι) (k : Keyframe α V) (before : Bool) : Prop :=
  ∃ kept, Inserted k before (store target).keyframes kept ∧
    after = Function.update store target { store target with keyframes := kept }

/-- What an edit has to make of a store. -/
def Edit.Meets (answer : Answer α) : Edit ι α V → Prop
  | insert target k before => answer = .done ∧ Inserts store after target k before
  | add target time value => answer = .done ∧ Inserts store after target { time, value } false
  | insertSampled target time before =>
    match (store target).blend with
    | some blend =>
      answer = .done ∧ Inserts store after target { time, value := (store target).sampleWith blend time } before
    | none => answer = .refused .missingBlend ∧ after = store
  | hold target time =>
    match (store target).last? with
    | some last => answer = .done ∧ Inserts store after target { time, value := last.value, hold := true } false
    | none => answer = .nothing ∧ after = store
  | simplify target _ _ =>
    answer = .done ∧ ∃ kept, kept.Sublist (store target).keyframes ∧
      after = Function.update store target { store target with keyframes := kept }
  | transfer source target _ emptied =>
    let stored := (store target).keyframes ++ (store source).keyframes
    answer = .done ∧
      after target = { store target with keyframes := stored.mergeSort fun a b => decide (a.time ≤ b.time) } ∧
      after source = (if emptied then { store source with keyframes := [] } else store source) ∧
      ∀ other, other ≠ target → other ≠ source → after other = store other
  | clear target => answer = .done ∧ after = Function.update store target { store target with keyframes := [] }

end Specification

section Insertion
variable [Scalar α] [OrderLaws α] {c : Channel α V} {k : Keyframe α V} {before : Bool}

/-- What stays in front of a keyframe at `time`. -/
private def leads (before : Bool) (time : α) (other : Keyframe α V) : Bool :=
  if before then decide (other.time < time) else decide (other.time ≤ time)

omit [OrderLaws α] in
private theorem slot_leads (keyframes : List (Keyframe α V)) (time : α) (before : Bool) :
    slot keyframes time before = leadingCount (leads before time) keyframes := by
  cases before <;> rfl

private theorem leads_trans {a b : Keyframe α V} {time : α} (ordered : a.time ≤ b.time)
    (leading : leads before time b = true) : leads before time a = true := by
  cases before with
  | false => exact decide_eq_true (le_trans ordered (of_decide_eq_true leading))
  | true => exact decide_eq_true (lt_of_le_of_lt ordered (of_decide_eq_true leading))

private theorem appends_leads {keyframes : List (Keyframe α V)} {time : α} (ordered : Ordered keyframes)
    (latest : appends keyframes time before = true) : ∀ other ∈ keyframes, leads before time other = true := by
  intro other member
  obtain ⟨earlier, last, rfl⟩ : ∃ earlier last, keyframes = earlier ++ [last] :=
    ⟨_, _, (List.dropLast_concat_getLast (List.ne_nil_of_mem member)).symm⟩
  have final : leads before time last = true := by
    rw [appends, List.getLast?_concat] at latest
    cases before with
    | true => simpa [leads] using latest
    | false =>
      rcases Bool.or_eq_true_iff.mp latest with less | same
      · exact decide_eq_true (OrderLaws.le_of_lt (of_decide_eq_true less))
      · exact decide_eq_true (ge_of_beq (by simpa using same))
  rcases List.mem_append.mp member with front | only
  · exact leads_trans ((List.pairwise_append.mp ordered).2.2 other front last (List.mem_singleton_self last)) final
  · exact List.mem_singleton.mp only ▸ final

private theorem leads_leading {keyframes : List (Keyframe α V)} (ordered : Ordered keyframes) (time : α) :
    Leading (leads before time) keyframes := ordered.imp fun earlier leading => leads_trans earlier leading

/-- Whether or not it is searched for, the place is the same. -/
private theorem insert_eq (sorted : Sorted Keyframe.time c.keyframes) :
    c.insert k before = { c with keyframes := placed (leads before k.time) k c.keyframes } := by
  have leading : Leading (leads before k.time) c.keyframes := leads_leading sorted.ordered k.time
  have kept := insert_placed leading (appends_leads sorted.ordered) k
  rw [← slot_leads] at kept
  rw [← kept]
  rfl

private theorem insert_inserted (sorted : Sorted Keyframe.time c.keyframes) (defined : k.time ≤ k.time) :
    Inserted k before c.keyframes (placed (leads before k.time) k c.keyframes) := by
  refine ⟨⟨_, _, List.takeWhile_append_dropWhile.symm, rfl, fun other member => ?_, fun other member => ?_⟩, ?_⟩
  · have leading := List.mem_takeWhile_imp member
    cases before <;> exact of_decide_eq_true leading
  · obtain ⟨first, inside, stops, ordered⟩ := sorted.stopped member
    have stored := sorted.defined first inside
    cases before with
    | false => exact lt_of_lt_of_le (lt_of_not_le defined stored (of_decide_eq_false stops)) ordered
    | true => exact le_trans (le_of_not_lt stored defined (of_decide_eq_false stops)) ordered
  · rw [slot_leads, insertIdx_leadingCount (leads_leading sorted.ordered k.time)]

private theorem Inserted.sorted {stored kept : List (Keyframe α V)} (inserted : Inserted k before stored kept)
    (sorted : Sorted Keyframe.time stored) (defined : k.time ≤ k.time) : Sorted Keyframe.time kept := by
  obtain ⟨front, back, rfl, rfl, earlier, later⟩ := inserted.between
  have ahead : ∀ other ∈ front, other.time ≤ k.time := by
    intro other member
    have bound := earlier other member
    cases before with
    | false => exact bound
    | true => exact OrderLaws.le_of_lt bound
  have behind : ∀ other ∈ back, k.time ≤ other.time := by
    intro other member
    have bound := later other member
    cases before with
    | false => exact OrderLaws.le_of_lt bound
    | true => exact bound
  obtain ⟨first, second, across⟩ := List.pairwise_append.mp sorted.ordered
  constructor
  · intro other member
    rcases List.mem_append.mp member with stored | added
    · exact sorted.defined other (List.mem_append_left _ stored)
    · cases added with
      | head => exact defined
      | tail _ stored => exact sorted.defined other (List.mem_append_right _ stored)
  · refine List.pairwise_append.mpr ⟨first, List.pairwise_cons.mpr ⟨behind, second⟩, fun other front next added => ?_⟩
    cases added with
    | head => exact ahead other front
    | tail _ stored => exact across other front next stored

private theorem foldl_insert {keyframes : List (Keyframe α V)} (defined : ∀ k ∈ keyframes, k.time ≤ k.time)
    (sorted : Sorted Keyframe.time c.keyframes) :
    keyframes.foldl (fun c k => c.insert k false) c =
      { c with keyframes := keyframes.foldl (fun stored k => placed (leads false k.time) k stored) c.keyframes } := by
  induction keyframes generalizing c with
  | nil => rfl
  | cons k keyframes ih =>
    have here := defined k List.mem_cons_self
    rw [List.foldl_cons, insert_eq sorted, List.foldl_cons]
    exact ih (fun k member => defined k (List.mem_cons_of_mem _ member))
      ((insert_inserted sorted here).sorted sorted here)

private theorem receive_eq {source : Channel α V} (sorted : Sorted Keyframe.time c.keyframes)
    (more : Sorted Keyframe.time source.keyframes) :
    c.receive source =
      { c with keyframes := (c.keyframes ++ source.keyframes).mergeSort fun a b => decide (a.time ≤ b.time) } := by
  rw [receive, foldl_insert more.defined sorted, ← foldl_placed sorted more.defined]
  rfl

end Insertion

namespace Edit
variable [DecidableEq ι] [Scalar α] [OrderLaws α] [BEq V] {store : ι → Channel α V}

/-- No time of the edit is undefined. -/
def Timed (edit : Edit ι α V) : Prop := ∀ time ∈ edit.time?, time ≤ time

omit [BEq V] in
private theorem inserts {c : Channel α V} {target : ι} {k : Keyframe α V} (here : store target = c) (before : Bool)
    (sorted : Sorted Keyframe.time c.keyframes) (defined : k.time ≤ k.time) :
    Inserts store (Function.update store target (c.insert k before)) target k before := by
  subst here
  exact ⟨_, insert_inserted sorted defined, by rw [insert_eq sorted]⟩

private theorem run_meets (sorted : ∀ i, Sorted Keyframe.time (store i).keyframes) (edit : Edit ι α V)
    (timed : edit.Timed) : edit.Meets store (edit.run store).2 (edit.run store).1 := by
  cases edit with
  | insert target k before => exact ⟨rfl, inserts rfl before (sorted target) (timed k.time rfl)⟩
  | add target time value => exact ⟨rfl, inserts rfl false (sorted target) (timed time rfl)⟩
  | insertSampled target time before =>
    have defined := timed time rfl
    cases blended : (store target).blend with
    | none => simp [Meets, run, Channel.insertSampled, sample, blended, bind, Except.bind]
    | some blend =>
      simp only [Meets, run, Channel.insertSampled, sample, blended]
      exact ⟨rfl, inserts rfl before (sorted target) defined⟩
  | hold target time =>
    have defined := timed time rfl
    cases ending : (store target).last? with
    | none => simp [Meets, run, hold?, ending]
    | some last =>
      simp only [Meets, run, hold?, ending]
      exact ⟨rfl, inserts rfl false (sorted target) defined⟩
  | simplify target tolerance deviation =>
    refine ⟨rfl, _, (simplify_trimmed (store target) tolerance deviation).sublist, ?_⟩
    have same : (store target).simplify tolerance deviation =
        { store target with keyframes := ((store target).simplify tolerance deviation).keyframes } := by
      unfold Channel.simplify
      split <;> rfl
    exact congrArg (Function.update store target) same
  | transfer source target apart emptied =>
    have received := receive_eq (sorted target) (sorted source)
    cases emptied with
    | false =>
      refine ⟨rfl, ?_, ?_, fun other target _ => Function.update_of_ne target _ _⟩
      · simp [run, received]
      · simp [run, apart]
    | true =>
      refine ⟨rfl, ?_, ?_, fun other target source => ?_⟩
      · simp [run, received, apart.symm]
      · simp [run, Channel.clear]
      · simp [run, target, source]
  | clear target => exact ⟨rfl, rfl⟩

omit [OrderLaws α] [BEq V] in
private theorem updated_sorted (sorted : ∀ i, Sorted Keyframe.time (store i).keyframes) (target : ι) {c : Channel α V}
    (changed : Sorted Keyframe.time c.keyframes) :
    ∀ i, Sorted Keyframe.time (Function.update store target c i).keyframes :=
  (Function.forall_update_iff store fun _ c => Sorted Keyframe.time c.keyframes).mpr ⟨changed, fun i _ => sorted i⟩

omit [BEq V] in
private theorem Inserts.sorted {after : ι → Channel α V} {target : ι} {k : Keyframe α V} {before : Bool}
    (inserts : Inserts store after target k before) (sorted : ∀ i, Sorted Keyframe.time (store i).keyframes)
    (defined : k.time ≤ k.time) : ∀ i, Sorted Keyframe.time (after i).keyframes := by
  obtain ⟨kept, inserted, rfl⟩ := inserts
  exact updated_sorted sorted target (inserted.sorted (sorted target) defined)

omit [BEq V] in
/-- What an edit makes of a store in order is in order. -/
private theorem Meets.sorted {edit : Edit ι α V} {after : ι → Channel α V} {answer : Answer α}
    (meets : edit.Meets store after answer) (sorted : ∀ i, Sorted Keyframe.time (store i).keyframes)
    (timed : edit.Timed) : ∀ i, Sorted Keyframe.time (after i).keyframes := by
  cases edit with
  | insert target k before => exact Inserts.sorted meets.2 sorted (timed k.time rfl)
  | add target time value => exact Inserts.sorted meets.2 sorted (timed time rfl)
  | insertSampled target time before =>
    simp only [Meets] at meets
    split at meets
    · exact Inserts.sorted meets.2 sorted (timed time rfl)
    · exact meets.2 ▸ sorted
  | hold target time =>
    simp only [Meets] at meets
    split at meets
    · exact Inserts.sorted meets.2 sorted (timed time rfl)
    · exact meets.2 ▸ sorted
  | simplify target tolerance deviation =>
    obtain ⟨_, kept, fewer, rfl⟩ := meets
    exact updated_sorted sorted target ((sorted target).sublist fewer)
  | transfer source target apart emptied =>
    obtain ⟨_, received, left, others⟩ := meets
    intro i
    by_cases own : i = target
    · rw [own, received]
      refine mergeSort_sorted fun k member => ?_
      exact (List.mem_append.mp member).elim ((sorted target).defined k) ((sorted source).defined k)
    · by_cases other : i = source
      · rw [other, left]
        cases emptied with
        | false => exact sorted source
        | true => exact ⟨nofun, List.Pairwise.nil⟩
      · exact others i own other ▸ sorted i
  | clear target =>
    obtain ⟨_, rfl⟩ := meets
    exact updated_sorted sorted target ⟨nofun, List.Pairwise.nil⟩

/-- Edits without undefined times keep a store in order. -/
theorem runAll_sorted (edits : List (Edit ι α V)) (timed : ∀ edit ∈ edits, edit.Timed)
    (sorted : ∀ i, Sorted Keyframe.time (store i).keyframes) :
    ∀ i, Sorted Keyframe.time (runAll store edits i).keyframes := by
  induction edits generalizing store with
  | nil => exact sorted
  | cons edit edits ih =>
    have here := timed edit List.mem_cons_self
    have reached := (run_meets sorted edit here).sorted sorted here
    exact ih (fun edit member => timed edit (List.mem_cons_of_mem _ member)) reached

end Edit

/-- From empty channels on, and without undefined times, every edit does what it has to do, and the
keyframes of every channel are in time order. -/
theorem edits_in_order [DecidableEq ι] [BEq V] (store : ι → Channel Float V) (empty : ∀ i, (store i).keyframes = [])
    (edits : List (Edit ι Float V)) (defined : ∀ edit ∈ edits, ∀ time ∈ edit.time?, time.isNaN = false) :
    let reached := Edit.runAll store edits
    (∀ i, Ordered (reached i).keyframes) ∧
      ∀ edit : Edit ι Float V, (∀ time ∈ edit.time?, time.isNaN = false) →
        edit.Meets reached (edit.run reached).2 (edit.run reached).1 := by
  have timed (edit : Edit ι Float V) (defined : ∀ time ∈ edit.time?, time.isNaN = false) : edit.Timed :=
    fun time found => Binary64.le_iff.mpr ⟨defined time found, defined time found, Int.le_refl _⟩
  have start : ∀ i, Sorted Keyframe.time (store i).keyframes := fun i => by
    rw [empty i]
    exact ⟨nofun, List.Pairwise.nil⟩
  have sorted := Edit.runAll_sorted edits (fun edit member => timed edit (defined edit member)) start
  exact ⟨fun i => (sorted i).ordered, fun edit defined => Edit.run_meets sorted edit (timed edit defined)⟩

/-- Two values at one time in one channel, one of the same time moved in from another. -/
def meetingEdits : List (Edit Bool Float Float) :=
  [.add true 2.0 1.0, .insert true { time := 2.0, value := 3.0 } true, .hold true 4.0, .add false 2.0 5.0,
    .transfer false true Bool.false_ne_true true]

theorem edits_in_order_meeting :
    let reached := Edit.runAll (fun _ => Channel.withBlend Blend.scalar 0.0) meetingEdits
    (∀ i, Ordered (reached i).keyframes) ∧
      Inserts reached (Edit.run reached (.add true 2.0 7.0)).2 true ⟨2.0, 7.0, .linear, false⟩ false := by
  have defined : ∀ edit ∈ meetingEdits, ∀ time ∈ edit.time?, time.isNaN = false := by
    simp only [meetingEdits, List.mem_cons, List.not_mem_nil, or_false, forall_eq_or_imp, forall_eq]
    decide
  obtain ⟨ordered, meets⟩ :=
    edits_in_order (fun _ => Channel.withBlend Blend.scalar 0.0) (fun _ => rfl) meetingEdits defined
  exact ⟨ordered, (meets (.add true 2.0 7.0) (by rintro _ ⟨⟩; decide)).2⟩

end Tween.Channel
