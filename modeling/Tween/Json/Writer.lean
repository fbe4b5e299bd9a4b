import Tween.Json

/-! From trees to texts. -/

namespace Tween.Json

/-- The blanks between the parts of a text. -/
structure Layout where
  /-- What stands before an item or a closing bracket at a depth. -/
  lineBreak : Nat → List Char
  afterColon : List Char

def Layout.compact : Layout := ⟨fun _ => [], []⟩

/-- One item a line, each level `width` blanks further in. -/
def Layout.indented (width : Nat) : Layout := ⟨fun depth => '\n' :: List.replicate (width * depth) ' ', [' ']⟩

namespace Writer

def hexDigit (n : Nat) : Char := if n < 10 then Char.ofNat (48 + n) else Char.ofNat (87 + n)

/-- Quotes, backslashes and control characters are escaped, and nothing else. -/
def escaped : Char → List Char
  | '"' => ['\\', '"']
  | '\\' => ['\\', '\\']
  | '\x08' => ['\\', 'b']
  | '\x0c' => ['\\', 'f']
  | '\n' => ['\\', 'n']
  | '\r' => ['\\', 'r']
  | '\t' => ['\\', 't']
  | c => if c.toNat < 32 then ['\\', 'u', '0', '0', hexDigit (c.toNat / 16), hexDigit (c.toNat % 16)] else [c]

/-- A string that is no sequence of characters is written as a lone surrogate. -/
def string : Option String → List Char
  | some text => '"' :: text.toList.flatMap escaped ++ ['"']
  | none => ['"', '\\', 'u', 'd', '8', '0', '0', '"']

mutual

def value (layout : Layout) (depth : Nat) : Json → List Char
  | .null => ['n', 'u', 'l', 'l']
  | .bool true => ['t', 'r', 'u', 'e']
  | .bool false => ['f', 'a', 'l', 's', 'e']
  | .number numeral => numeral.text
  | .string text => string text
  | .array [] => ['[', ']']
  | .array (item :: others) =>
    '[' :: layout.lineBreak (depth + 1) ++ value layout (depth + 1) item
      ++ items layout (depth + 1) others ++ layout.lineBreak depth ++ [']']
  | .object [] => ['\x7b', '\x7d']
  | .object ((name, first) :: others) =>
    '\x7b' :: layout.lineBreak (depth + 1) ++ string name ++ ':' :: layout.afterColon
      ++ value layout (depth + 1) first ++ fields layout (depth + 1) others ++ layout.lineBreak depth ++ ['\x7d']

/-- Further items, each behind a comma. -/
def items (layout : Layout) (depth : Nat) : List Json → List Char
  | [] => []
  | item :: others => ',' :: layout.lineBreak depth ++ value layout depth item ++ items layout depth others

/-- Further fields, each behind a comma. -/
def fields (layout : Layout) (depth : Nat) : List (Option String × Json) → List Char
  | [] => []
  | (name, field) :: others =>
    ',' :: layout.lineBreak depth ++ string name ++ ':' :: layout.afterColon
      ++ value layout depth field ++ fields layout depth others

end

end Writer

def text (layout : Layout) (json : Json) : String := String.ofList (Writer.value layout 0 json)

end Tween.Json
