/-! Problems as they are reported: what kind, and in which words. The arithmetic of channels is
total; problems arise only where input enters and where a channel is asked for what it lacks. -/

namespace Tween

/-- Times are kept as numbers of type `α`; `reason` is a text for people. -/
inductive Problem (α : Type) where
  /-- A value that cannot be worked with, and the time of the state that carries it. -/
  | validation (field : String) (time : α) (reason : String)
  /-- A setting out of range, or something used without the setting it needs. -/
  | configuration (reason : String)
  /-- A text that is not the exchanged form of what it should be. -/
  | serialization (reason : String)
  deriving BEq

namespace Problem
variable {α : Type}

def category : Problem α → String
  | validation .. => "validation"
  | configuration _ => "configuration"
  | serialization _ => "serialization"

/-- The report, given how a time is written. -/
def message (timeText : α → String) : Problem α → String
  | validation field time reason => "Invalid " ++ field ++ " at time " ++ timeText time ++ ": " ++ reason
  | configuration reason => "Configuration error: " ++ reason
  | serialization reason => "Serialization error: " ++ reason

/-- A channel without a blend has nothing to sample with. -/
def missingBlend : Problem α := configuration "value_at requires an interpolator on this channel"

end Problem
end Tween
