import Tween.Json.Reader
import Mathlib.Data.List.TakeWhile

/-! Numerals that were written are read back, as long as what follows does not look like more of
the numeral. -/

namespace Tween

namespace Numeral

def IsDigits (text : List Char) : Prop := text ≠ [] ∧ ∀ c ∈ text, c.isDigit

/-- What the grammar of numbers asks of the parts of a numeral: no leading zeros, and digits wherever
digits are announced. -/
structure Formed (n : Numeral) : Prop where
  whole : n.whole = ['0'] ∨ IsDigits n.whole ∧ n.whole.head? ≠ some '0'
  fraction : ∀ c ∈ n.fraction, c.isDigit
  exponent : ∀ exponent ∈ n.exponent, IsDigits exponent.digits

theorem isDigits_zero : IsDigits ['0'] := ⟨List.cons_ne_nil _ _, List.forall_mem_singleton.mpr rfl⟩

variable {n : Numeral}

theorem Formed.digits (formed : n.Formed) : IsDigits n.whole := by
  rcases formed.whole with zero | ⟨digits, _⟩
  · rw [zero]
    exact isDigits_zero
  · exact digits

/-- The first character alone tells a numeral from everything else. -/
theorem Formed.text_eq_cons (formed : n.Formed) : ∃ c tail, n.text = c :: tail ∧ (c = '-' ∨ c.isDigit) := by
  obtain ⟨nonempty, digits⟩ := formed.digits
  obtain ⟨digit, others, whole⟩ := List.exists_cons_of_ne_nil nonempty
  unfold text
  cases n.negative with
  | true => exact ⟨'-', _, rfl, .inl rfl⟩
  | false => exact ⟨digit, _, by rw [whole]; rfl, .inr (digits digit (whole ▸ List.mem_cons_self))⟩

end Numeral

namespace Json.Reader
open Numeral

/-- Whether a numeral could go on with a character. -/
def continuesNumeral (c : Char) : Bool := c.isDigit || c == '.' || c == 'e' || c == 'E'

/-- A numeral in front of this text ends there. -/
def Stops (rest : List Char) : Prop := ∀ c ∈ rest.head?, continuesNumeral c = false

theorem Stops.cons {c : Char} (stops : continuesNumeral c = false) (rest : List Char) : Stops (c :: rest) := by
  intro first same
  cases same
  exact stops

theorem Stops.digit {rest : List Char} (stops : Stops rest) {c : Char} (first : c ∈ rest.head?) :
    c.isDigit = false := by
  have past := stops c first
  simp_all [continuesNumeral]

theorem Stops.point {rest : List Char} (stops : Stops rest) {c : Char} (first : c ∈ rest.head?) : c ≠ '.' := by
  have past := stops c first
  rintro rfl
  cases past

section
variable {text rest : List Char}

private theorem digits_append (digits : IsDigits text) (past : ∀ c ∈ rest.head?, c.isDigit = false) :
    Reader.digits (text ++ rest) = some (text, rest) := by
  obtain ⟨nonempty, all⟩ := digits
  obtain ⟨digit, others, rfl⟩ := List.exists_cons_of_ne_nil nonempty
  have none : rest.takeWhile Char.isDigit = [] := by
    cases rest with
    | nil => rfl
    | cons c rest => exact List.takeWhile_cons_of_neg (by simp [past c rfl])
  have same : rest.dropWhile Char.isDigit = rest := by
    cases rest with
    | nil => rfl
    | cons c rest => exact List.dropWhile_cons_of_neg (by simp [past c rfl])
  rw [Reader.digits, List.takeWhile_append_of_pos all, List.dropWhile_append_of_pos all, none, same, List.append_nil]

/-- A zero is a whole number on its own. -/
private theorem whole_append (formed : text = ['0'] ∨ IsDigits text ∧ text.head? ≠ some '0')
    (past : ∀ c ∈ rest.head?, c.isDigit = false) : whole (text ++ rest) = some (text, rest) := by
  rcases formed with rfl | ⟨digits, nonzero⟩
  · rfl
  · obtain ⟨digit, others, rfl⟩ := List.exists_cons_of_ne_nil digits.1
    rw [List.cons_append, whole]
    · exact digits_append digits past
    · rintro rest same
      cases same
      exact nonzero rfl

private theorem fraction_append (digits : ∀ c ∈ text, c.isDigit)
    (past : ∀ c ∈ rest.head?, c.isDigit = false ∧ c ≠ '.') :
    fraction ((if text.isEmpty then [] else '.' :: text) ++ rest) = some (text, rest) := by
  cases text with
  | nil =>
    rw [List.isEmpty_nil, if_pos rfl, List.nil_append, fraction]
    rintro tail rfl
    exact (past '.' rfl).2 rfl
  | cons digit others => exact digits_append ⟨List.cons_ne_nil _ _, digits⟩ fun c first => (past c first).1

/-- The first digit is no sign, so that a bare exponent is read as one. -/
private theorem exponentSign_bare (digits : IsDigits text) : exponentSign (text ++ rest) = (.bare, text ++ rest) := by
  obtain ⟨digit, others, rfl⟩ := List.exists_cons_of_ne_nil digits.1
  have first : digit.isDigit := digits.2 digit List.mem_cons_self
  rw [List.cons_append, exponentSign]
  all_goals
    rintro tail same
    cases same
    cases first

private theorem exponentText_append {e : Exponent} (formed : IsDigits e.digits)
    (past : ∀ c ∈ rest.head?, c.isDigit = false) :
    exponent (exponentText e ++ rest) = some (some e, rest) := by
  obtain ⟨sign, digits⟩ := e
  have read : Reader.digits (digits ++ rest) = some (digits, rest) := digits_append formed past
  cases sign with
  | bare =>
    have sign : exponentSign (digits ++ rest) = (.bare, digits ++ rest) := exponentSign_bare formed
    change exponentAfter (digits ++ rest) = _
    simp [exponentAfter, sign, read]
  | plus =>
    change exponentAfter ('+' :: (digits ++ rest)) = _
    simp [exponentAfter, exponentSign, read]
  | minus =>
    change exponentAfter ('-' :: (digits ++ rest)) = _
    simp [exponentAfter, exponentSign, read]

private theorem exponent_append {e : Option Exponent} (formed : ∀ exponent ∈ e, IsDigits exponent.digits)
    (stops : Stops rest) : exponent ((e.map exponentText).getD [] ++ rest) = some (e, rest) := by
  cases e with
  | none =>
    rw [Option.map_none, Option.getD_none, List.nil_append, exponent]
    all_goals
      rintro tail rfl
      cases stops _ rfl
  | some e => exact exponentText_append (formed e rfl) fun c first => stops.digit first

/-- What follows the fraction is an exponent or the end. -/
private theorem exponentText_stops (e : Option Exponent) (stops : Stops rest) :
    ∀ c ∈ ((e.map exponentText).getD [] ++ rest).head?, c.isDigit = false ∧ c ≠ '.' := by
  intro c first
  cases e with
  | none => exact ⟨stops.digit first, stops.point first⟩
  | some e =>
    cases first
    decide

private theorem fractionText_stops (fraction : List Char) (past : ∀ c ∈ rest.head?, c.isDigit = false) :
    ∀ c ∈ ((if fraction.isEmpty then [] else '.' :: fraction) ++ rest).head?, c.isDigit = false := by
  intro c first
  cases fraction with
  | nil => exact past c first
  | cons digit others =>
    cases first
    decide

/-- A numeral behind its sign. -/
private def unsigned (negative : Bool) (text : List Char) : Option (Numeral × List Char) := do
  let (whole, rest) ← whole text
  let (fraction, rest) ← fraction rest
  let (exponent, rest) ← exponent rest
  return ({ negative, whole, fraction, exponent }, rest)

private theorem numeral_unsigned (positive : '-' ∉ text.head?) : numeral text = unsigned false text := by
  unfold numeral
  split
  next sign same =>
    split at same
    next => exact absurd rfl positive
    next =>
      cases same
      rfl

private theorem unsigned_append {n : Numeral} (formed : n.Formed) (stops : Stops rest) :
    unsigned n.negative (n.whole ++ ((if n.fraction.isEmpty then [] else '.' :: n.fraction)
      ++ ((n.exponent.map exponentText).getD [] ++ rest))) = some (n, rest) := by
  have afterFraction := exponentText_stops n.exponent stops
  have afterWhole := fractionText_stops n.fraction fun c first => (afterFraction c first).1
  rw [unsigned, whole_append formed.whole afterWhole]
  simp only [Option.bind_eq_bind, Option.bind_some, fraction_append formed.fraction afterFraction,
    exponent_append formed.exponent stops]
  rfl

theorem numeral_written {n : Numeral} (formed : n.Formed) (stops : Stops rest) :
    numeral (n.text ++ rest) = some (n, rest) := by
  have read := unsigned_append formed stops
  obtain ⟨nonempty, digits⟩ := formed.digits
  obtain ⟨negative, whole, fraction, e⟩ := n
  simp only [Numeral.text, List.append_assoc]
  cases negative with
  | true => exact read
  | false =>
    obtain ⟨digit, others, rfl⟩ := List.exists_cons_of_ne_nil nonempty
    rw [← read]
    refine numeral_unsigned fun same => ?_
    cases same
    cases digits '-' List.mem_cons_self

end

end Json.Reader
end Tween
