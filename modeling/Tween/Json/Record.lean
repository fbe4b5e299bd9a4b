import Tween.Json.Number

/-! Records in trees: an object with the record's names in any order, or an array of the values in
the order of declaration. -/

namespace Tween.Json

/-- The values that are present, under their names. Other names are ignored, whatever their
values; a name of the record must not come twice, and an array must not be longer than the
record. -/
def record? (names : List String) : Json → Option (List (String × Json))
  | .array items => if items.length ≤ names.length then some (names.zip items) else none
  | .object fields => do
    let named ← fields.mapM fun (name, value) => name.map (·, value)
    let known := named.filter fun field => names.contains field.1
    guard (known.map (·.1)).Nodup
    return known
  | _ => none

/-- A value that has to be there. -/
def required {β : Type} (read : Json → Option β) (name : String) (record : List (String × Json)) : Option β :=
  record.lookup name >>= read

/-- A value that may be left out. -/
def withDefault {β : Type} (value : β) (read : Json → Option β) (name : String)
    (record : List (String × Json)) : Option β :=
  match record.lookup name with
  | some json => read json
  | none => some value

/-- Whether all of a tree can be kept as values: no lone surrogates, no numbers out of range, and
at most `depth` levels of brackets. -/
def isKeepable : Nat → Json → Bool
  | _, .null => true
  | _, .bool _ => true
  | _, .number n => (numeralValue? n).isSome
  | _, .string text => text.isSome
  | 0, .array _ => false
  | 0, .object _ => false
  | depth + 1, .array items => items.all (isKeepable depth)
  | depth + 1, .object fields => fields.all fun (name, value) => name.isSome && isKeepable depth value

end Tween.Json
