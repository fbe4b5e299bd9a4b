import Tween.Decimal.Numeral

/-! JSON texts as trees. Numbers stay the numerals they are written as, and fields keep their
order and repetitions, so that a tree says all that a text says apart from blanks. -/

namespace Tween

/-- A string whose escapes name half of a surrogate pair is well-formed, but it is no sequence of
characters; such a string is `none`. -/
inductive Json where
  | null
  | bool (value : Bool)
  | number (numeral : Numeral)
  | string (text : Option String)
  | array (items : List Json)
  | object (fields : List (Option String × Json))

namespace Json

def str (text : String) : Json := .string (some text)

def ofNat (n : Nat) : Json := .number (.ofNat n)

/-- An object with the given names. -/
def ofFields (fields : List (String × Json)) : Json := .object (fields.map fun (name, value) => (some name, value))

/-! Reading one value; `none` where it has another shape. -/

def bool? : Json → Option Bool
  | bool value => some value
  | _ => none

def string? : Json → Option String
  | string text => text
  | _ => none

def array? : Json → Option (List Json)
  | array items => some items
  | _ => none

/-- A choice without data is a name, alone or as the only key of an object with nothing in it. -/
def name? : Json → Option String
  | string text => text
  | object [(name, null)] => name
  | _ => none

/-- A choice with data is an object with the name as its only key. -/
def choice? : Json → Option (String × Json)
  | object [(some name, data)] => some (name, data)
  | _ => none

/-- An absent value may be written as null. -/
def optional? {β : Type} (read : Json → Option β) : Json → Option (Option β)
  | null => some none
  | json => (read json).map some

/-- A natural number that fits into 32 bits. -/
def word? : Json → Option UInt32
  | number n =>
    let value := Numeral.digitsValue n.whole
    if n.isInteger && !n.negative && value < UInt32.size then some (UInt32.ofNat value) else none
  | _ => none

end Json
end Tween
