import Tween.Blend
import Tween.Keyframe
import Tween.LeadingCount

/-! The keyframes of one animated value, in time order. Several keyframes may share a time; they
are a step at that instant, and their order says from where to where. -/

namespace Tween

/-- `rest` is the value while nothing is stored. A blend is only needed for sampling. -/
structure Channel (α V : Type) where
  keyframes : List (Keyframe α V) := []
  blend : Option (Blend α V)
  rest : V

namespace Channel
variable {α V : Type}

def withBlend (blend : Blend α V) (rest : V) : Channel α V := { blend := some blend, rest }

def first? (c : Channel α V) : Option (Keyframe α V) := c.keyframes.head?

def last? (c : Channel α V) : Option (Keyframe α V) := c.keyframes.getLast?

def startTime (c : Channel α V) : Option α := c.first?.map (·.time)

def endTime (c : Channel α V) : Option α := c.last?.map (·.time)

def startValue (c : Channel α V) : V := (c.first?.map (·.value)).getD c.rest

def endValue (c : Channel α V) : V := (c.last?.map (·.value)).getD c.rest

def clear (c : Channel α V) : Channel α V := { c with keyframes := [] }

variable [Scalar α]

/-- Where a keyframe at `time` goes: `before` or after the stored ones of the same time. -/
def slot (keyframes : List (Keyframe α V)) (time : α) (before : Bool) : Nat :=
  if before then leadingCount (fun k => k.time < time) keyframes
  else leadingCount (fun k => k.time ≤ time) keyframes

/-- Whether a keyframe belongs behind everything stored, which is the usual case. -/
def appends (keyframes : List (Keyframe α V)) (time : α) (before : Bool) : Bool :=
  match keyframes.getLast? with
  | none => true
  | some last => last.time < time || (time == last.time && !before)

def insert (c : Channel α V) (k : Keyframe α V) (before : Bool) : Channel α V :=
  let keyframes :=
    if appends c.keyframes k.time before then c.keyframes ++ [k]
    else c.keyframes.insertIdx (slot c.keyframes k.time before) k
  { c with keyframes }

/-- A linear keyframe behind the stored ones of the same time. -/
def add (c : Channel α V) (time : α) (value : V) : Channel α V := c.insert { time, value } false

/-- Keeps the end value up to `time`. An empty channel has no value to keep. -/
def hold? (c : Channel α V) (time : α) : Option (Channel α V) :=
  c.last?.map fun last => c.insert { time, value := last.value, hold := true } false

/-- The keyframes of `source` inserted into `target` one by one. -/
def receive (target source : Channel α V) : Channel α V :=
  source.keyframes.foldl (fun target k => target.insert k false) target

end Channel
end Tween
