import Tween.Proofs.Json.Numerals
import Tween.Proofs.Json.Strings

/-! Trees that were written are read back, whatever blanks the layout puts between their parts. The
induction is on the tree; each list in it has an induction of its own, over what follows its first
item. -/

namespace Tween.Json
open Reader

/-- A tree whose numbers are numbers of the grammar. -/
inductive Formed : Json → Prop
  | null : Formed .null
  | bool (value : Bool) : Formed (.bool value)
  | number {numeral : Numeral} (formed : numeral.Formed) : Formed (.number numeral)
  | string (text : Option String) : Formed (.string text)
  | array {items : List Json} (all : ∀ item ∈ items, Formed item) : Formed (.array items)
  | object {fields : List (Option String × Json)} (all : ∀ field ∈ fields, Formed field.2) : Formed (.object fields)

structure Layout.IsBlank (layout : Layout) : Prop where
  lineBreak : ∀ depth, ∀ c ∈ layout.lineBreak depth, Reader.isBlank c
  afterColon : ∀ c ∈ layout.afterColon, Reader.isBlank c

theorem Layout.indented_isBlank (width : Nat) : (indented width).IsBlank where
  lineBreak depth c member := by
    rcases List.mem_cons.mp member with rfl | blank
    · rfl
    · rw [List.eq_of_mem_replicate blank]
      rfl
  afterColon c member := by
    rw [List.mem_singleton.mp member]
    rfl

/-! Blanks are skipped wherever something new may start. -/

section
variable {blanks : List Char} (blank : ∀ c ∈ blanks, isBlank c) (fuel : Nat) (text : List Char)
include blank

private theorem skipBlanks_append : skipBlanks (blanks ++ text) = skipBlanks text :=
  List.dropWhile_append_of_pos blank

private theorem value_blanks : value fuel (blanks ++ text) = value fuel text := by
  cases fuel with
  | zero => rfl
  | succ fuel => rw [value, value, skipBlanks_append blank]

private theorem items_blanks : items fuel (blanks ++ text) = items fuel text := by
  cases fuel with
  | zero => rfl
  | succ fuel => rw [items, items, value_blanks blank]

private theorem fields_blanks : fields fuel (blanks ++ text) = fields fuel text := by
  cases fuel with
  | zero => rfl
  | succ fuel => rw [fields, fields, skipBlanks_append blank]

end

theorem Reader.Stops.blanks {blanks rest : List Char} (blank : ∀ c ∈ blanks, isBlank c) (stops : Stops rest) :
    Stops (blanks ++ rest) := by
  cases blanks with
  | nil => exact stops
  | cons c blanks =>
    refine .cons ?_ _
    have space := blank c List.mem_cons_self
    simp only [isBlank, Bool.or_eq_true, beq_iff_eq] at space
    rcases space with ((rfl | rfl) | rfl) | rfl <;> rfl

/-! A tree starts with a character that is neither a blank nor the end of a list. -/

private theorem numeral_start {c : Char} (starts : c = '-' ∨ c.isDigit) : isBlank c = false ∧ c ≠ ']' := by
  refine ⟨Bool.eq_false_iff.mpr fun blank => ?_, ?_⟩
  · simp only [isBlank, Bool.or_eq_true, beq_iff_eq] at blank
    rcases blank with ((rfl | rfl) | rfl) | rfl <;> revert starts <;> decide
  · rintro rfl
    revert starts
    decide

private theorem value_start {json : Json} (formed : json.Formed) (layout : Layout) (depth : Nat) :
    ∃ c tail, Writer.value layout depth json = c :: tail ∧ isBlank c = false ∧ c ≠ ']' := by
  cases formed with
  | null => exact ⟨'n', _, rfl, by decide⟩
  | bool value => cases value <;> exact ⟨_, _, rfl, by decide⟩
  | number formed =>
    obtain ⟨c, tail, text, starts⟩ := formed.text_eq_cons
    exact ⟨c, tail, text, numeral_start starts⟩
  | string text => cases text <;> exact ⟨'"', _, rfl, by decide⟩
  | @array items => cases items <;> exact ⟨'[', _, rfl, by decide⟩
  | @object fields => cases fields <;> exact ⟨'\x7b', _, rfl, by decide⟩

/-- A tree is read off the front of a text. -/
private def ReadsBack (layout : Layout) (json : Json) : Prop :=
  ∀ depth fuel rest, Stops rest → 2 * (Writer.value layout depth json).length ≤ fuel + 1 →
    value (fuel + 1) (Writer.value layout depth json ++ rest) = some (json, rest)

section
variable {layout : Layout}

private theorem readsBack_number {numeral : Numeral} (formed : numeral.Formed) :
    ReadsBack layout (.number numeral) := by
  intro depth fuel rest stops _
  obtain ⟨c, tail, text, starts⟩ := formed.text_eq_cons
  have first : skipBlanks (numeral.text ++ rest) = numeral.text ++ rest := by
    rw [text, List.cons_append, skipBlanks, List.dropWhile_cons_of_neg (by simp [(numeral_start starts).1])]
  rw [Writer.value, value, first]
  split
  case h_7 =>
    rw [numeral_written formed stops]
    rfl
  all_goals
    next same =>
      rw [text, List.cons_append] at same
      exact absurd ((List.cons.inj same).1 ▸ starts) (by decide)

private theorem readsBack_string (text : Option String) : ReadsBack layout (.string text) := by
  intro depth fuel rest _ _
  obtain ⟨tail, written, read⟩ := string_written text rest
  rw [Writer.value, written]
  change (Reader.string tail).map _ = _
  rw [read]
  rfl

section
variable (blank : layout.IsBlank)
include blank

/-- The items behind an opening bracket. -/
private theorem items_written {item : Json} {others : List Json} (first : ReadsBack layout item)
    (all : ∀ other ∈ others, ReadsBack layout other) {blanks : List Char} (space : ∀ c ∈ blanks, isBlank c)
    (depth fuel : Nat) (rest : List Char)
    (enough : 2 * ((Writer.value layout depth item).length + (Writer.items layout depth others).length) ≤ fuel + 1) :
    items (fuel + 2) (Writer.value layout depth item ++ (Writer.items layout depth others ++ (blanks ++ ']' :: rest))) =
      some (item :: others, rest) := by
  induction others generalizing item fuel with
  | nil =>
    rw [Writer.items, List.nil_append, items, first depth fuel]
    · simp only [Option.bind_eq_bind, Option.bind_some, skipBlanks_append space]
      rfl
    · exact .blanks space (.cons rfl _)
    · omega
  | cons other others ih =>
    obtain ⟨second, all⟩ := List.forall_mem_cons.mp all
    simp only [Writer.items, List.cons_append, List.length_cons, List.length_append, List.append_assoc] at enough ⊢
    obtain ⟨fuel, rfl⟩ := Nat.exists_eq_add_of_le' (show 1 ≤ fuel by omega)
    rw [items, first depth]
    · change (items (fuel + 2) _).bind _ = _
      rw [items_blanks (blank.lineBreak depth), ih second all fuel (by omega)]
      rfl
    · exact .cons rfl _
    · omega

/-- One field, and what is done about the rest. -/
private theorem field_written (name : Option String) {json : Json} (first : ReadsBack layout json) {rest : List Char}
    (stops : Stops rest) {depth fuel : Nat} (enough : 2 * (Writer.value layout depth json).length ≤ fuel + 1) :
    fields (fuel + 2) (Writer.string name ++ ':' :: (layout.afterColon ++ (Writer.value layout depth json ++ rest))) =
      match skipBlanks rest with
      | ',' :: rest => (fields (fuel + 1) rest).bind fun (others, rest) => some ((name, json) :: others, rest)
      | '\x7d' :: rest => some ([(name, json)], rest)
      | _ => none := by
  obtain ⟨tail, written, named⟩ :=
    string_written name (':' :: (layout.afterColon ++ (Writer.value layout depth json ++ rest)))
  rw [written, fields]
  change (Reader.string tail).bind _ = _
  rw [named]
  change (value (fuel + 1) _).bind _ = _
  rw [value_blanks blank.afterColon, first depth fuel rest stops enough]
  rfl

/-- The fields behind an opening brace. -/
private theorem fields_written {name : Option String} {json : Json} {others : List (Option String × Json)}
    (first : ReadsBack layout json) (all : ∀ other ∈ others, ReadsBack layout other.2) {blanks : List Char}
    (space : ∀ c ∈ blanks, isBlank c) (depth fuel : Nat) (rest : List Char)
    (enough : 2 * ((Writer.value layout depth json).length + (Writer.fields layout depth others).length) ≤ fuel + 1) :
    fields (fuel + 2) (Writer.string name ++ ':' :: (layout.afterColon ++ (Writer.value layout depth json
      ++ (Writer.fields layout depth others ++ (blanks ++ '\x7d' :: rest))))) = some ((name, json) :: others, rest) := by
  induction others generalizing name json fuel with
  | nil =>
    have stops : Stops (blanks ++ '\x7d' :: rest) := .blanks space (.cons rfl rest)
    rw [Writer.fields, List.nil_append, field_written blank name first stops (by omega), skipBlanks_append space]
    rfl
  | cons other others ih =>
    obtain ⟨second, all⟩ := List.forall_mem_cons.mp all
    simp only [Writer.fields, List.cons_append, List.length_cons, List.length_append, List.append_assoc] at enough ⊢
    obtain ⟨fuel, rfl⟩ := Nat.exists_eq_add_of_le' (show 1 ≤ fuel by omega)
    rw [field_written blank name first (.cons rfl _) (by omega)]
    change (fields (fuel + 2) _).bind _ = _
    rw [fields_blanks (blank.lineBreak depth), ih second all fuel (by omega)]
    rfl

end

private theorem value_list (fuel : Nat) (text : List Char) :
    value (fuel + 1) ('[' :: text) = match skipBlanks text with
      | ']' :: rest => some (Json.array [], rest)
      | rest => (items fuel rest).map fun (items, rest) => (Json.array items, rest) := rfl

private theorem value_record (fuel : Nat) (text : List Char) :
    value (fuel + 1) ('\x7b' :: text) = match skipBlanks text with
      | '\x7d' :: rest => some (Json.object [], rest)
      | rest => (fields fuel rest).map fun (fields, rest) => (Json.object fields, rest) := rfl

/-- A list that does not end at once has items. -/
private theorem value_bracket {blanks : List Char} (space : ∀ c ∈ blanks, isBlank c) {c : Char}
    (visible : isBlank c = false) (more : c ≠ ']') (fuel : Nat) (tail : List Char) :
    value (fuel + 1) ('[' :: (blanks ++ c :: tail)) =
      (items fuel (c :: tail)).map fun (items, rest) => (Json.array items, rest) := by
  have start : skipBlanks (blanks ++ c :: tail) = c :: tail := by
    rw [skipBlanks_append space, skipBlanks, List.dropWhile_cons_of_neg (by simp [visible])]
  rw [value_list, start]
  split
  next same => exact absurd (List.cons.inj same).1 more
  next => rfl

private theorem value_brace {blanks : List Char} (space : ∀ c ∈ blanks, isBlank c) (fuel : Nat) (tail : List Char) :
    value (fuel + 1) ('\x7b' :: (blanks ++ '"' :: tail)) =
      (fields fuel ('"' :: tail)).map fun (fields, rest) => (Json.object fields, rest) := by
  rw [value_record, skipBlanks_append space]
  rfl

private theorem readsBack_array (blank : layout.IsBlank) {items : List Json} (formed : ∀ item ∈ items, Formed item)
    (all : ∀ item ∈ items, ReadsBack layout item) : ReadsBack layout (.array items) := by
  intro depth fuel rest _ enough
  cases items with
  | nil => rfl
  | cons item others =>
    obtain ⟨first, all⟩ := List.forall_mem_cons.mp all
    obtain ⟨c, tail, text, visible, more⟩ := value_start (formed item List.mem_cons_self) layout (depth + 1)
    simp only [Writer.value, List.cons_append, List.length_cons, List.length_append, List.append_assoc] at enough ⊢
    obtain ⟨fuel, rfl⟩ := Nat.exists_eq_add_of_le' (show 2 ≤ fuel by omega)
    have read := items_written blank first all (blank.lineBreak depth) (depth + 1) fuel rest (by omega)
    rw [text, List.cons_append] at read
    rw [text, List.cons_append, value_bracket (blank.lineBreak (depth + 1)) visible more, List.nil_append, read]
    rfl

private theorem readsBack_object (blank : layout.IsBlank) {fields : List (Option String × Json)}
    (all : ∀ field ∈ fields, ReadsBack layout field.2) : ReadsBack layout (.object fields) := by
  intro depth fuel rest _ enough
  cases fields with
  | nil => rfl
  | cons field others =>
    obtain ⟨name, json⟩ := field
    have first : ReadsBack layout json := all _ List.mem_cons_self
    have all : ∀ other ∈ others, ReadsBack layout other.2 := (List.forall_mem_cons.mp all).2
    simp only [Writer.value, List.cons_append, List.length_cons, List.length_append, List.append_assoc] at enough ⊢
    obtain ⟨fuel, rfl⟩ := Nat.exists_eq_add_of_le' (show 2 ≤ fuel by omega)
    obtain ⟨tail, written, _⟩ := string_written name (':' :: (layout.afterColon ++ (Writer.value layout (depth + 1) json
      ++ (Writer.fields layout (depth + 1) others ++ (layout.lineBreak depth ++ '\x7d' :: rest)))))
    rw [List.nil_append, written, value_brace (blank.lineBreak (depth + 1)), ← written,
      fields_written blank first all (blank.lineBreak depth) (depth + 1) fuel rest (by omega)]
    rfl

private theorem readsBack {json : Json} (formed : json.Formed) (blank : layout.IsBlank) : ReadsBack layout json := by
  induction formed with
  | null =>
    intro depth fuel rest _ _
    rfl
  | bool value =>
    intro depth fuel rest _ _
    cases value <;> rfl
  | number formed => exact readsBack_number formed
  | string text => exact readsBack_string text
  | array formed ih => exact readsBack_array blank formed ih
  | object _ ih => exact readsBack_object blank ih

end

/-- A written text has one tree, the one that was written. -/
theorem ofText?_text {json : Json} (formed : json.Formed) {layout : Layout} (blank : layout.IsBlank) :
    ofText? (json.text layout) = some json := by
  have stops : Stops [] := fun c first => by cases first
  have read := readsBack formed blank 0 (2 * (Writer.value layout 0 json).length + 1) [] stops (by omega)
  rw [List.append_nil] at read
  rw [ofText?, text, String.toList_ofList, read]
  rfl

end Tween.Json
