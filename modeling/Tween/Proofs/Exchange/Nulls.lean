import Tween.Exchange.Command
import Tween.Proofs.Emission.Numbers

/-! Where null stands in a written script. Nothing there is absent, so it can only stand in place of
a number, and it does so exactly for the numbers that are not finite. -/

namespace Tween

namespace Json

mutual

/-- Whether null stands anywhere in a tree. -/
def hasNull : Json → Bool
  | .null => true
  | .bool _ => false
  | .number _ => false
  | .string _ => false
  | .array items => hasNullItem items
  | .object fields => hasNullField fields

def hasNullItem : List Json → Bool
  | [] => false
  | item :: items => hasNull item || hasNullItem items

def hasNullField : List (Option String × Json) → Bool
  | [] => false
  | (_, field) :: fields => hasNull field || hasNullField fields

end

theorem hasNull_array (items : List Json) : (array items).hasNull = items.any hasNull := by
  rw [hasNull]
  induction items with
  | nil => rfl
  | cons item items ih => rw [hasNullItem, List.any_cons, ih]

theorem hasNull_ofFields (fields : List (String × Json)) :
    (ofFields fields).hasNull = fields.any fun field => field.2.hasNull := by
  rw [ofFields, hasNull]
  induction fields with
  | nil => rfl
  | cons field fields ih => rw [List.map_cons, hasNullField, List.any_cons, ih]

theorem hasNull_ofFloat (x : Float) : (ofFloat x).hasNull = !x.isFinite := by
  unfold ofFloat
  cases x.isFinite <;> rfl

theorem hasNull_str (text : String) : (str text).hasNull = false := rfl

end Json

open Json

theorem Vec2.hasNull_toJson (v : Vec2 Float) : v.toJson.hasNull = v.numbers.any fun x => !x.isFinite := by
  simp [toJson, numbers, hasNull_array, hasNull_ofFloat]

theorem Color.hasNull_toJson (c : Color Float) : c.toJson.hasNull = c.numbers.any fun x => !x.isFinite := by
  simp [toJson, numbers, hasNull_ofFields, hasNull_ofFloat]

theorem Command.hasNull_toJson (command : Command Float) :
    command.toJson.hasNull = command.numbers.any fun x => !x.isFinite := by
  obtain ⟨start, stop, change⟩ := command
  cases change <;>
    simp [toJson, numbers, Change.numbers, Change.ends, endNames, hasNull_ofFields, hasNull_ofFloat, hasNull_str,
      Vec2.hasNull_toJson, Color.hasNull_toJson, List.any_append]

theorem Script.hasNull_toJson (script : Script Float) :
    script.toJson.hasNull =
      ((script.initialPosition.numbers.any fun x => !x.isFinite) ||
        script.commands.any fun command => command.numbers.any fun x => !x.isFinite) := by
  have commands : (Json.array (script.commands.map Command.toJson)).hasNull =
      script.commands.any fun command => command.numbers.any fun x => !x.isFinite := by
    rw [hasNull_array, List.any_map]
    exact congrArg (List.any script.commands) (funext Command.hasNull_toJson)
  simp [toJson, hasNull_ofFields, hasNull_str, Origin.toJson, Vec2.hasNull_toJson, commands]

/-- More commands bring in a null only with a number that is not finite. -/
theorem Script.hasNull_append {script : Script Float} (whole : script.toJson.hasNull = false)
    {appended : List (Command Float)} (finite : ∀ command ∈ appended, ∀ x ∈ command.numbers, Float.isFinite x = true) :
    ({ script with commands := script.commands ++ appended } : Script Float).toJson.hasNull = false := by
  have none : (appended.any fun command => command.numbers.any fun x => !x.isFinite) = false := by
    simpa [List.any_eq_false] using finite
  rw [hasNull_toJson] at whole ⊢
  rw [List.any_append, none, Bool.or_false]
  exact whole

end Tween
