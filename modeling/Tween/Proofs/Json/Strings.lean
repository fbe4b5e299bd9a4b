import Tween.Json.Reader
import Tween.Json.Writer
import Mathlib.Data.Option.Basic

/-! Strings that were written are read back. A character is written as one piece, an escape or
itself, and the pieces stand for the characters again. -/

namespace Tween.Json
open Reader

/-- The piece that a character is written as. The long escapes are those that give a code. -/
def piece (c : Char) : Piece := if (Writer.escaped c).length = 6 then .unit c.toNat else .char c

private theorem hexValue?_hexDigit {n : Nat} (digit : n < 16) : hexValue? (Writer.hexDigit n) = some n := by
  revert n
  decide

/-! One piece is read. The closing quote has no part in it, so what follows is arbitrary. -/

section
variable (rest : List Char)

private theorem pieces_short {letter c : Char} (value : escapeValue? letter = some c) :
    pieces ('\\' :: letter :: rest) = (pieces rest).map fun (others, rest) => (.char c :: others, rest) := by
  have noCode : letter ≠ 'u' := by
    rintro rfl
    cases value
  rw [pieces, value]
  · cases pieces rest <;> rfl
  · exact fun _ _ _ _ _ same => absurd same noCode

private theorem pieces_code {high low : Nat} (first : high < 16) (second : low < 16) :
    pieces ('\\' :: 'u' :: '0' :: '0' :: Writer.hexDigit high :: Writer.hexDigit low :: rest) =
      (pieces rest).map fun (others, rest) => (.unit (16 * high + low) :: others, rest) := by
  have zero : hexValue? '0' = some 0 := rfl
  rw [pieces]
  simp only [List.mapM_cons, List.mapM_nil, zero, hexValue?_hexDigit first, hexValue?_hexDigit second]
  cases pieces rest <;> simp

private theorem pieces_plain {c : Char} (quote : c ≠ '"') (backslash : c ≠ '\\') (printable : 32 ≤ c.toNat) :
    pieces (c :: rest) = (pieces rest).map fun (others, rest) => (.char c :: others, rest) := by
  rw [pieces, guard, if_pos ⟨printable, backslash⟩]
  · cases pieces rest <;> rfl
  · exact quote
  · exact fun _ _ _ _ _ same => absurd same backslash
  · exact fun _ _ same => absurd same backslash

theorem pieces_escaped (c : Char) :
    pieces (Writer.escaped c ++ rest) = (pieces rest).map fun (others, rest) => (piece c :: others, rest) := by
  unfold piece Writer.escaped
  split
  case h_8 quote backslash _ _ _ _ _ =>
    split
    next control =>
      have code : c.toNat = 16 * (c.toNat / 16) + c.toNat % 16 := (Nat.div_add_mod _ _).symm
      conv => rhs; rw [code]
      exact pieces_code rest (by omega) (by omega)
    next printable =>
      exact pieces_plain rest quote backslash (Nat.le_of_not_lt printable)
  all_goals exact pieces_short rest rfl

theorem pieces_text (text : List Char) :
    pieces (text.flatMap Writer.escaped ++ '"' :: rest) = some (text.map piece, rest) := by
  induction text with
  | nil => rfl
  | cons c text ih =>
    rw [List.flatMap_cons, List.append_assoc, pieces_escaped, ih]
    rfl

end

/-! The pieces stand for the characters. -/

private theorem piece_eq (c : Char) : piece c = .char c ∨ piece c = .unit c.toNat ∧ c.toNat < 32 := by
  unfold piece Writer.escaped
  split
  case h_8 =>
    split
    next control => exact .inr ⟨rfl, control⟩
    next => exact .inl rfl
  all_goals exact .inl rfl

/-- Only surrogates look at their neighbours. -/
private theorem characters?_unit {unit : Nat} (control : unit < 32) (others : List Piece) :
    characters? (.unit unit :: others) = (characters? others).map (Char.ofNat unit :: ·) := by
  have high : isHighSurrogate unit = false := by simp [isHighSurrogate]; omega
  have low : isLowSurrogate unit = false := by simp [isLowSurrogate]; omega
  cases others with
  | nil => simp [characters?, high, low]
  | cons other others => cases other <;> simp [characters?, high, low]

theorem characters?_pieces (text : List Char) : characters? (text.map piece) = some text := by
  induction text with
  | nil => rfl
  | cons c text ih =>
    rw [List.map_cons]
    rcases piece_eq c with same | ⟨code, control⟩
    · rw [same, characters?, ih]
      rfl
    · rw [code, characters?_unit control, ih, Char.ofNat_toNat]
      rfl

/-- A string that is no sequence of characters comes back too, as a surrogate on its own. -/
theorem string_written (text : Option String) (rest : List Char) :
    ∃ tail, Writer.string text ++ rest = '"' :: tail ∧ Reader.string tail = some (text, rest) := by
  cases text with
  | none => exact ⟨_, rfl, rfl⟩
  | some text =>
    refine ⟨text.toList.flatMap Writer.escaped ++ '"' :: rest, by simp [Writer.string], ?_⟩
    rw [Reader.string, pieces_text]
    simp only [Option.map_some, characters?_pieces, String.ofList_toList]

end Tween.Json
