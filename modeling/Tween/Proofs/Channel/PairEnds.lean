import Tween.Proofs.Channel.PairOrder

/-! What the ends of pairs are made of. Their times are those of keyframes or of the window, and
their values are edited values of keyframes. -/

namespace Tween.Channel
variable {α V : Type} {times : α → Prop} {values : V → Prop}

def Within (times : α → Prop) (values : V → Prop) (k : Keyframe α V) : Prop := times k.time ∧ values k.value

theorem Within.atTime {k : Keyframe α V} (within : Within times values k) {time : α} (here : times time) :
    Within times values (k.atTime time) := ⟨here, within.2⟩

/-- Both ends of every pair. -/
def BothWithin (times : α → Prop) (values : V → Prop) (pairs : List (Pair α V)) : Prop :=
  ∀ p ∈ pairs, Within times values p.start ∧ Within times values p.stop

private theorem given_within {time? : Option α} {time : α} (given : ∀ time ∈ time?, times time) (otherwise : times time) :
    times (time?.getD time) := by
  cases time? with
  | none => exact otherwise
  | some time => exact given time rfl

variable [Scalar α] {playback : Playback α V} {pairs : List (Pair α V)}

theorem leadIn_last : (leadIn playback pairs).getLast? = pairs.getLast? := by
  unfold leadIn
  split
  · split
    · exact List.getLast?_cons_cons
    · rfl
  · rfl

theorem leadOut_head : (leadOut playback pairs).head? = pairs.head? := by
  unfold leadOut
  split
  next last endTime found window =>
    split
    · obtain ⟨first, rest, rfl⟩ := List.exists_cons_of_ne_nil (List.ne_nil_of_mem (List.mem_of_mem_getLast? found))
      rfl
    · rfl
  next => rfl

section Both
variable {holds : Keyframe α V → Prop} (both : ∀ p ∈ pairs, holds p.start ∧ holds p.stop)
include both

/-- What survives a move to the start of the window goes on holding. -/
theorem leadIn_both (starts : ∀ time ∈ playback.startTime, ∀ k, holds k → holds (k.atTime time)) :
    ∀ p ∈ leadIn playback pairs, holds p.start ∧ holds p.stop := by
  unfold leadIn
  split
  next first rest startTime window =>
    split
    next =>
      have begun := (both first List.mem_cons_self).1
      have initial := starts startTime window first.start begun
      refine List.forall_mem_cons.mpr ⟨⟨initial, ?_⟩, both⟩
      cases playback.loopable with
      | false => exact initial
      | true => exact begun
    next => exact both
  next => exact both

theorem leadOut_both (stops : ∀ time ∈ playback.endTime, ∀ k, holds k → holds (k.atTime time)) :
    ∀ p ∈ leadOut playback pairs, holds p.start ∧ holds p.stop := by
  unfold leadOut
  split
  next last endTime found window =>
    split
    next =>
      have ended := (both last (List.mem_of_mem_getLast? found)).2
      exact List.forall_mem_append.mpr ⟨both, List.forall_mem_singleton.mpr ⟨ended, stops endTime window _ ended⟩⟩
    next => exact both
  next => exact both

end Both

theorem BothWithin.leadIn (both : BothWithin times values pairs) (starts : ∀ time ∈ playback.startTime, times time) :
    BothWithin times values (leadIn playback pairs) :=
  leadIn_both both fun time given _ within => within.atTime (starts time given)

theorem BothWithin.leadOut (both : BothWithin times values pairs) (stops : ∀ time ∈ playback.endTime, times time) :
    BothWithin times values (leadOut playback pairs) :=
  leadOut_both both fun time given _ within => within.atTime (stops time given)

variable [BEq V]

omit [Scalar α] in
private theorem constant_within {first last : Keyframe α V} (begun : Within times values first)
    (ended : Within times values last) (starts : ∀ time ∈ playback.startTime, times time)
    (stops : ∀ time ∈ playback.endTime, times time) : BothWithin times values (constant playback first last) := by
  have held := begun.atTime (given_within starts begun.1)
  unfold constant
  dsimp only
  split
  next =>
    refine List.forall_mem_singleton.mpr ⟨held, ?_⟩
    split
    next => exact held.atTime (given_within stops ended.1)
    next => exact held
  next => exact List.forall_mem_nil _

/-- Playing a channel makes up neither times nor values. -/
theorem pairs_within {c : Channel α V} (stored : ∀ k ∈ c.keyframes, times k.time ∧ values (playback.edit k.value))
    (starts : ∀ time ∈ playback.startTime, times time) (stops : ∀ time ∈ playback.endTime, times time) :
    BothWithin times values (c.pairs playback) := by
  have played : ∀ k ∈ c.keyframes.map fun k => k.withValue (playback.edit k.value), Within times values k :=
    List.forall_mem_map.mpr stored
  unfold pairs
  split
  next => exact List.forall_mem_nil _
  next first behind shape =>
    rw [shape] at played
    have moving : BothWithin times values (transitions playback.loopable none first behind) := by
      intro p member
      obtain ⟨begun, ended⟩ := transitions_members member
      exact ⟨played _ begun, played _ ended⟩
    dsimp only
    split
    next => exact (constant_within (played _ List.mem_cons_self) (played _ (List.getLast_mem _)) starts stops).leadOut stops
    next => exact (moving.leadIn starts).leadOut stops

end Tween.Channel
