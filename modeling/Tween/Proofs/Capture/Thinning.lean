import Tween.Proofs.Capture.Sampling
import Tween.Proofs.Channel.Coarsening
import Tween.Proofs.Channel.PairCount

/-! The same recordings under two tolerances. Every span keeps less under the coarser one and keeps
its ends, so however the values are compared, at most as many pairs are needed. -/

namespace Tween.Capture
open Scalar OrderLaws Channel
variable {V : Type} {timeOffset : Float} {recordings : List (List (State Float))}

/-- Recordings of accepted states, none of them empty and no two states of one at the same time. -/
structure Apart (timeOffset : Float) (recordings : List (List (State Float))) : Prop where
  present : ∀ recorded ∈ recordings, recorded ≠ []
  accepted : ∀ recorded ∈ recordings, ∀ s ∈ recorded, s.Finite
  defined : ∀ recorded ∈ recordings, ∀ s ∈ recorded, s.time + timeOffset ≤ s.time + timeOffset
  distinct : ∀ recorded ∈ recordings,
    recorded.Pairwise fun s t => (s.time + timeOffset == t.time + timeOffset) = false

section Thinned
variable [BEq V] (base : Channel Float V) (value : State Float → V) (deviation : Deviation Float V)

def thinned (timeOffset tolerance : Float) (recorded : List (State Float)) : List (Keyframe Float V) :=
  ({ base with keyframes := keyed timeOffset value recorded }.simplify tolerance deviation).keyframes

variable {base value deviation} {tolerance fine coarse : Float}

theorem thinned_trimmed {recorded : List (State Float)} :
    Trimmed (thinned base value deviation timeOffset tolerance recorded) (keyed timeOffset value recorded) :=
  simplify_trimmed _ _ _

theorem thinned_stored {k : Keyframe Float V}
    (member : k ∈ (recordings.map (thinned base value deviation timeOffset tolerance)).flatten) :
    ∃ recorded ∈ recordings, ∃ s ∈ recorded, k = { time := s.time + timeOffset, value := value s } := by
  obtain ⟨run, found, inside⟩ := List.mem_flatten.mp member
  obtain ⟨recorded, present, rfl⟩ := List.mem_map.mp found
  obtain ⟨s, stored, same⟩ := List.mem_map.mp (thinned_trimmed.sublist.subset inside)
  exact ⟨recorded, present, s, stored, same.symm⟩

private theorem thinned_regular (apart : Apart timeOffset recordings) {edit : V → V} {c : Channel Float V}
    (shape : c.keyframes = joined (recordings.map (thinned base value deviation timeOffset tolerance)))
    (reflexive : ∀ k ∈ c.keyframes, (edit k.value == edit k.value) = true) :
    ∀ run ∈ recordings.map (thinned base value deviation timeOffset tolerance), Regular (edited edit run) := by
  intro run found
  have inside {k : Keyframe Float V} (member : k ∈ run) : k ∈ c.keyframes :=
    shape ▸ stored_joined (List.mem_flatten_of_mem found member)
  obtain ⟨recorded, present, rfl⟩ := List.mem_map.mp found
  have head := (@thinned_trimmed V timeOffset _ base value deviation tolerance recorded).head
  have stored {k : Keyframe Float V} (member : k ∈ thinned base value deviation timeOffset tolerance recorded) :
      ∃ s ∈ recorded, { time := s.time + timeOffset, value := value s } = k :=
    List.mem_map.mp (thinned_trimmed.sublist.subset member)
  refine ⟨?_, ?_, ?_, ?_⟩
  · intro empty
    rw [List.map_eq_nil_iff.mp empty, keyed, List.head?_map, eq_comm, List.head?_nil, Option.map_eq_none_iff,
      List.head?_eq_none_iff] at head
    exact apart.present recorded present head
  · refine List.pairwise_map.mpr (List.Pairwise.sublist thinned_trimmed.sublist (List.pairwise_map.mpr ?_))
    exact apart.distinct recorded present
  · intro k member
    obtain ⟨raw, kept, rfl⟩ := List.mem_map.mp member
    obtain ⟨s, source, rfl⟩ := stored kept
    exact beq_of_defined (apart.defined recorded present s source)
  · intro k member
    obtain ⟨raw, kept, rfl⟩ := List.mem_map.mp member
    exact reflexive raw (inside kept)

theorem thinned_coarser (positive : 0.0 < fine) (ordered : fine ≤ coarse) (recordings : List (List (State Float))) :
    List.Forall₂ Trimmed (recordings.map (thinned base value deviation timeOffset coarse))
      (recordings.map (thinned base value deviation timeOffset fine)) := by
  induction recordings with
  | nil => exact .nil
  | cons recorded recordings ih => exact .cons (simplify_coarser _ positive ordered deviation) ih

end Thinned

/-- Channels of the same recordings, of which the first was simplified by the coarser tolerance. -/
structure Pruned [BEq V] (timeOffset : Float) (recordings : List (List (State Float))) (value : State Float → V)
    (thin c : Channel Float V) : Prop where
  kept : ∃ base deviation fine coarse, 0.0 < fine ∧ fine ≤ coarse ∧
    thin.keyframes = joined (recordings.map (thinned base value deviation timeOffset coarse)) ∧
    c.keyframes = joined (recordings.map (thinned base value deviation timeOffset fine))

namespace Pruned
variable [BEq V] {value : State Float → V} {thin c : Channel Float V}
  (pruned : Pruned timeOffset recordings value thin c)
include pruned

theorem recorded {k : Keyframe Float V} (member : k ∈ c.keyframes) :
    ∃ recorded ∈ recordings, ∃ s ∈ recorded, k.value = value s := by
  obtain ⟨base, deviation, fine, coarse, _, _, _, many⟩ := pruned.kept
  obtain ⟨stored, found, same⟩ := joined_value (many ▸ member)
  obtain ⟨recorded, present, s, inside, rfl⟩ := thinned_stored found
  exact ⟨recorded, present, s, inside, same.symm⟩

theorem among {k : Keyframe Float V} (member : k ∈ thin.keyframes) :
    ∃ stored ∈ c.keyframes, stored.value = k.value := by
  obtain ⟨base, deviation, fine, coarse, positive, ordered, few, many⟩ := pruned.kept
  obtain ⟨stored, found, same⟩ := joined_value (few ▸ member)
  obtain ⟨run, within, inside⟩ := List.mem_flatten.mp found
  obtain ⟨recorded, present, rfl⟩ := List.mem_map.mp within
  refine ⟨stored, many ▸ stored_joined (List.mem_flatten_of_mem (List.mem_map_of_mem present) ?_), same⟩
  have trimmed := simplify_coarser { base with keyframes := keyed timeOffset value recorded } positive ordered deviation
  exact trimmed.sublist.subset inside

/-- A coarser tolerance needs no more pairs, if its edit tells apart at most what the finer one's does. -/
theorem pairs [PartialEquivBEq V] (apart : Apart timeOffset recordings) {rest : V} {edit blunt : V → V}
    (reflexive : ∀ k ∈ c.keyframes, (edit k.value == edit k.value) = true)
    (blunter : ∀ k ∈ thin.keyframes, ∀ k' ∈ thin.keyframes, (edit k.value == edit k'.value) = true →
      (blunt k.value == blunt k'.value) = true)
    (resting : ∀ k ∈ thin.keyframes, (edit k.value == rest) = true → (blunt k.value == rest) = true) :
    (thin.pairs { rest, edit := blunt }).length ≤ (c.pairs { rest, edit }).length := by
  have reflexive' : ∀ k ∈ thin.keyframes, (blunt k.value == blunt k.value) = true := by
    intro k member
    obtain ⟨stored, found, same⟩ := pruned.among member
    exact blunter k member k member (same ▸ reflexive stored found)
  obtain ⟨base, deviation, fine, coarse, positive, ordered, few, many⟩ := pruned.kept
  have inside {k : Keyframe Float V}
      (member : k ∈ (recordings.map (thinned base value deviation timeOffset coarse)).flatten) : k ∈ thin.keyframes :=
    few ▸ stored_joined member
  refine pairs_fewer few many (thinned_coarser positive ordered recordings) (thinned_regular apart few reflexive')
    (thinned_regular apart many reflexive) ?_ fun k member => resting k (inside member)
  exact fun k member k' member' => blunter k (inside member) k' (inside member')

end Pruned

section Runs
variable (config : Config Float) (bitmapSize : Vec2 Float) (timeOffset : Float)

/-- Only the opacity of a span depends on the spans before it. -/
theorem runs_map {β : Type} {of : Tracks Float → β} {alone : List (State Float) → β}
    (same : ∀ precedingEnd recorded, of (single config bitmapSize timeOffset precedingEnd recorded) = alone recorded)
    (precedingEnd : Option Float) (recordings : List (List (State Float))) :
    (runs config bitmapSize timeOffset precedingEnd recordings).map of = recordings.map alone := by
  induction recordings generalizing precedingEnd with
  | nil => rfl
  | cons recorded recordings ih => rw [runs, List.map_cons, List.map_cons, same, ih]

end Runs

end Tween.Capture
