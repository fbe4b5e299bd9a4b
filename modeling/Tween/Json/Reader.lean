import Tween.Json

/-! From texts to trees, by the strict grammar: no comma at the end of a list, no leading zeros, no
control characters in strings. Every function returns what it leaves of the text. -/

namespace Tween.Json.Reader

def isBlank (c : Char) : Bool := c == ' ' || c == '\n' || c == '\t' || c == '\r'

def skipBlanks (text : List Char) : List Char := text.dropWhile isBlank

/-! Strings. -/

def hexValue? (c : Char) : Option Nat :=
  if '0' ≤ c ∧ c ≤ '9' then some (c.toNat - '0'.toNat)
  else if 'a' ≤ c ∧ c ≤ 'f' then some (c.toNat - 'a'.toNat + 10)
  else if 'A' ≤ c ∧ c ≤ 'F' then some (c.toNat - 'A'.toNat + 10)
  else none

def escapeValue? : Char → Option Char
  | '"' => some '"'
  | '\\' => some '\\'
  | '/' => some '/'
  | 'b' => some '\x08'
  | 'f' => some '\x0c'
  | 'n' => some '\n'
  | 'r' => some '\r'
  | 't' => some '\t'
  | _ => none

/-- What one item of a string stands for: a character, or a unit of 16 bits. -/
inductive Piece where
  | char (c : Char)
  | unit (value : Nat)

/-- The pieces up to the closing quote. -/
def pieces : List Char → Option (List Piece × List Char)
  | '"' :: rest => some ([], rest)
  | '\\' :: 'u' :: a :: b :: c :: d :: rest => do
    let digits ← [a, b, c, d].mapM hexValue?
    let (others, rest) ← pieces rest
    return (.unit (digits.foldl (fun value digit => 16 * value + digit) 0) :: others, rest)
  | '\\' :: c :: rest => do
    let c ← escapeValue? c
    let (others, rest) ← pieces rest
    return (.char c :: others, rest)
  | c :: rest => do
    guard (32 ≤ c.toNat ∧ c ≠ '\\')
    let (others, rest) ← pieces rest
    return (.char c :: others, rest)
  | [] => none

def isHighSurrogate (unit : Nat) : Bool := 0xd800 ≤ unit && unit < 0xdc00

def isLowSurrogate (unit : Nat) : Bool := 0xdc00 ≤ unit && unit < 0xe000

/-- The characters of the pieces; a surrogate needs its other half right behind or before it. -/
def characters? : List Piece → Option (List Char)
  | [] => some []
  | .char c :: rest => (characters? rest).map (c :: ·)
  | .unit high :: .unit low :: rest =>
    if isHighSurrogate high then
      if isLowSurrogate low then
        (characters? rest).map (Char.ofNat (0x10000 + (high - 0xd800) * 0x400 + (low - 0xdc00)) :: ·)
      else none
    else if isLowSurrogate high then none
    else (characters? (.unit low :: rest)).map (Char.ofNat high :: ·)
  | .unit unit :: rest =>
    if isHighSurrogate unit || isLowSurrogate unit then none
    else (characters? rest).map (Char.ofNat unit :: ·)

/-- A string behind its opening quote. -/
def string (text : List Char) : Option (Option String × List Char) :=
  (pieces text).map fun (pieces, rest) => ((characters? pieces).map String.ofList, rest)

/-! Numbers. -/

/-- At least one digit. -/
def digits (text : List Char) : Option (List Char × List Char) :=
  match text.takeWhile Char.isDigit with
  | [] => none
  | digits => some (digits, text.dropWhile Char.isDigit)

def whole : List Char → Option (List Char × List Char)
  | '0' :: rest => some (['0'], rest)
  | text => digits text

def fraction : List Char → Option (List Char × List Char)
  | '.' :: rest => digits rest
  | text => some ([], text)

def exponentSign : List Char → ExponentSign × List Char
  | '+' :: rest => (.plus, rest)
  | '-' :: rest => (.minus, rest)
  | text => (.bare, text)

def exponentAfter (text : List Char) : Option (Option Exponent × List Char) := do
  let (sign, rest) := exponentSign text
  let (digits, rest) ← digits rest
  return (some ⟨sign, digits⟩, rest)

def exponent : List Char → Option (Option Exponent × List Char)
  | 'e' :: rest => exponentAfter rest
  | 'E' :: rest => exponentAfter rest
  | text => some (none, text)

def numeral (text : List Char) : Option (Numeral × List Char) := do
  let (negative, rest) := match text with
    | '-' :: rest => (true, rest)
    | _ => (false, text)
  let (whole, rest) ← whole rest
  let (fraction, rest) ← fraction rest
  let (exponent, rest) ← exponent rest
  return ({ negative, whole, fraction, exponent }, rest)

/-! Trees. A list and what it holds may start at the same character, so two steps for every
character are enough fuel. -/

mutual

def value : Nat → List Char → Option (Json × List Char)
  | 0, _ => none
  | fuel + 1, text =>
    match skipBlanks text with
    | 'n' :: 'u' :: 'l' :: 'l' :: rest => some (.null, rest)
    | 't' :: 'r' :: 'u' :: 'e' :: rest => some (.bool true, rest)
    | 'f' :: 'a' :: 'l' :: 's' :: 'e' :: rest => some (.bool false, rest)
    | '"' :: rest => (string rest).map fun (text, rest) => (.string text, rest)
    | '[' :: rest =>
      match skipBlanks rest with
      | ']' :: rest => some (.array [], rest)
      | rest => (items fuel rest).map fun (items, rest) => (.array items, rest)
    | '\x7b' :: rest =>
      match skipBlanks rest with
      | '\x7d' :: rest => some (.object [], rest)
      | rest => (fields fuel rest).map fun (fields, rest) => (.object fields, rest)
    | rest => (numeral rest).map fun (numeral, rest) => (.number numeral, rest)

/-- At least one item, up to the closing bracket. -/
def items : Nat → List Char → Option (List Json × List Char)
  | 0, _ => none
  | fuel + 1, text => do
    let (item, rest) ← value fuel text
    match skipBlanks rest with
    | ',' :: rest =>
      let (others, rest) ← items fuel rest
      return (item :: others, rest)
    | ']' :: rest => return ([item], rest)
    | _ => none

/-- At least one field, up to the closing brace. -/
def fields : Nat → List Char → Option (List (Option String × Json) × List Char)
  | 0, _ => none
  | fuel + 1, text =>
    match skipBlanks text with
    | '"' :: rest => do
      let (name, rest) ← string rest
      match skipBlanks rest with
      | ':' :: rest =>
        let (value, rest) ← value fuel rest
        match skipBlanks rest with
        | ',' :: rest =>
          let (others, rest) ← fields fuel rest
          return ((name, value) :: others, rest)
        | '\x7d' :: rest => return ([(name, value)], rest)
        | _ => none
      | _ => none
    | _ => none

end

end Reader

/-- The tree of a whole text, blanks around it allowed. -/
def ofText? (text : String) : Option Json := do
  let characters := text.toList
  let (json, rest) ← Reader.value (2 * characters.length + 2) characters
  guard (Reader.skipBlanks rest).isEmpty
  return json

end Tween.Json
