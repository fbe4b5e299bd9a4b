import Tween.Exchange.Text
import Tween.Proofs.Decimal.Digits
import Tween.Proofs.Emission.Numbers
import Tween.Proofs.Json.Records
import Tween.Proofs.Json.Trees

/-! Scripts that were written are read back, or not at all. Their texts are texts of their trees, and
from a tree all parts of a script come back unless a number of them is not finite. -/

namespace Tween
open Json

namespace Json

theorem ofFloat_formed (x : Float) : (ofFloat x).Formed := by
  unfold ofFloat
  split
  next => exact .number (numberStyle.numeral_formed x)
  next => exact .null

theorem str_formed (text : String) : (str text).Formed := .string (some text)

theorem ofFields_formed {fields : List (String × Json)} (all : ∀ field ∈ fields, field.2.Formed) :
    (ofFields fields).Formed := .object (List.forall_mem_map.mpr all)

end Json

theorem Vec2.toJson_formed (v : Vec2 Float) : v.toJson.Formed :=
  .array (forall_pair.mpr ⟨ofFloat_formed v.x, ofFloat_formed v.y⟩)

theorem Vec2.keeps (v : Vec2 Float) : Keeps ofJson? v.toJson v.numbers v where
  returns reads := by
    obtain ⟨x, y⟩ := Vec2.forall_numbers.mp reads
    rw [Returns] at x y
    simp [toJson, ofJson?, x, y]
  spoilt := by
    rintro ⟨x, member, infinite⟩
    have none := float?_infinite infinite
    rcases List.mem_pair.mp member with rfl | rfl <;> simp [toJson, ofJson?, none]

theorem Color.toJson_formed (c : Color Float) : c.toJson.Formed := by
  refine ofFields_formed ?_
  simp only [List.forall_mem_cons]
  exact ⟨ofFloat_formed c.red, ofFloat_formed c.green, ofFloat_formed c.blue, List.forall_mem_nil _⟩

theorem Color.keeps (c : Color Float) : Keeps ofJson? c.toJson c.numbers c where
  returns reads := by
    obtain ⟨⟨r, g⟩, b⟩ := Color.forall_numbers.mp reads
    rw [Returns] at r g b
    rw [ofJson?, toJson, record?_ofFields ["r", "g", "b"] rfl (by decide) (by decide)]
    simp [required_cons, r, g, b]
  spoilt := by
    rintro ⟨x, member, infinite⟩
    have none := float?_infinite infinite
    rw [ofJson?, toJson, record?_ofFields ["r", "g", "b"] rfl (by decide) (by decide)]
    simp only [numbers, List.mem_cons, List.not_mem_nil, or_false] at member
    rcases member with rfl | rfl | rfl <;> simp [required_cons, none]

theorem Vec2.isKeepable_toJson {v : Vec2 Float} (reads : ∀ x ∈ v.numbers, Returns x) {depth : Nat} :
    isKeepable (depth + 1) v.toJson = true := by
  obtain ⟨x, y⟩ := Vec2.forall_numbers.mp reads
  simp [toJson, isKeepable, isKeepable_ofFloat x, isKeepable_ofFloat y]

theorem Color.isKeepable_toJson {c : Color Float} (reads : ∀ x ∈ c.numbers, Returns x) {depth : Nat} :
    isKeepable (depth + 1) c.toJson = true := by
  obtain ⟨⟨r, g⟩, b⟩ := Color.forall_numbers.mp reads
  refine isKeepable_ofFields ?_
  simp [isKeepable_ofFloat r, isKeepable_ofFloat g, isKeepable_ofFloat b]

theorem Origin.ofJson?_toJson (origin : Origin) : ofJson? origin.toJson = some origin := by
  cases origin <;> rfl

namespace Command

private theorem partition_head {α : Type} {p : α → Bool} {a : α} {behind : List α} (head : p a = true)
    (others : ∀ b ∈ behind, p b = false) : (a :: behind).partition p = ([a], behind) := by
  have picked : behind.filter p = [] := List.filter_eq_nil_iff.mpr fun b member => by simp [others b member]
  have left : behind.filter (not ∘ p) = behind := List.filter_eq_self.mpr fun b member => by simp [others b member]
  rw [List.partition_eq_filter_filter, List.filter_cons_of_pos head, List.filter_cons_of_neg (by simp [head]), picked,
    left]

/-- The kind is found where it stands, and no other field is taken for it. -/
private theorem tagged?_ofFields (kind : String) {fields : List (String × Json)}
    (fresh : ∀ field ∈ fields, field.1 ≠ "type") :
    tagged? (ofFields (("type", str kind) :: fields)) = some (kind, ofFields fields) := by
  rw [ofFields, List.map_cons, tagged?, partition_head rfl (List.forall_mem_map.mpr fun field member => ?_)]
  · rfl
  · simp [fresh field member]

/-- The record of a change between two values. -/
private def between {β : Type} (read : Json → Option β) (change : β → β → Change Float) (data : Json) :
    Option (Command Float) := do
  let record ← data.record? (timeNames ++ endNames)
  let change := change (← required read "start" record) (← required read "end" record)
  return ⟨← required float? "start_time" record, ← required float? "end_time" record, change⟩

private def flag (change : Change Float) (data : Json) : Option (Command Float) := do
  let record ← data.record? timeNames
  return ⟨← required float? "start_time" record, ← required float? "end_time" record, change⟩

section
variable {start stop : Float}

private theorem keeps_between {β : Type} {read : Json → Option β} {first last : Json} {numbers numbers' : List Float}
    {a b : β} (keeps : Keeps read first numbers a) (keeps' : Keeps read last numbers' b)
    (change : β → β → Change Float) :
    Keeps (between read change)
      (ofFields [("start_time", .ofFloat start), ("end_time", .ofFloat stop), ("start", first), ("end", last)])
      (start :: stop :: (numbers ++ numbers')) ⟨start, stop, change a b⟩ where
  returns reads := by
    simp only [List.forall_mem_cons, List.forall_mem_append] at reads
    obtain ⟨s, e, reads, reads'⟩ := reads
    rw [Returns] at s e
    rw [between, record?_ofFields ["start_time", "end_time", "start", "end"] rfl (by decide) (by decide)]
    simp [required_cons, s, e, keeps.returns reads, keeps'.returns reads']
  spoilt := by
    rintro ⟨x, member, infinite⟩
    have none := float?_infinite infinite
    rw [between, record?_ofFields ["start_time", "end_time", "start", "end"] rfl (by decide) (by decide)]
    simp only [List.mem_cons, List.mem_append] at member
    rcases member with rfl | rfl | member | member
    · simp [required_cons, none]
    · simp [required_cons, none]
    · simp [required_cons, keeps.spoilt ⟨x, member, infinite⟩]
    · simp [required_cons, keeps'.spoilt ⟨x, member, infinite⟩]

private theorem keeps_flag (change : Change Float) :
    Keeps (flag change) (ofFields [("start_time", .ofFloat start), ("end_time", .ofFloat stop)]) [start, stop]
      ⟨start, stop, change⟩ where
  returns reads := by
    obtain ⟨s, e⟩ := forall_pair.mp reads
    rw [Returns] at s e
    rw [flag, record?_ofFields ["start_time", "end_time"] rfl (by decide) (by decide)]
    simp [required_cons, s, e]
  spoilt := by
    rintro ⟨x, member, infinite⟩
    have none := float?_infinite infinite
    rw [flag, record?_ofFields ["start_time", "end_time"] rfl (by decide) (by decide)]
    rcases List.mem_pair.mp member with rfl | rfl <;> simp [required_cons, none]

end

/-- The record behind the kind. -/
private theorem keeps_record (c : Command Float) :
    Keeps (ofRecord? c.change.name)
      (ofFields ([("start_time", .ofFloat c.startTime), ("end_time", .ofFloat c.endTime)] ++ endNames.zip c.change.ends))
      c.numbers c := by
  obtain ⟨start, stop, change⟩ := c
  cases change with
  | move a b => exact keeps_between a.keeps b.keeps .move
  | moveX a b => exact keeps_between (keeps_float a) (keeps_float b) .moveX
  | moveY a b => exact keeps_between (keeps_float a) (keeps_float b) .moveY
  | scale a b => exact keeps_between (keeps_float a) (keeps_float b) .scale
  | scaleVec a b => exact keeps_between a.keeps b.keeps .scaleVec
  | rotate a b => exact keeps_between (keeps_float a) (keeps_float b) .rotate
  | color a b => exact keeps_between a.keeps b.keeps .color
  | fade a b => exact keeps_between (keeps_float a) (keeps_float b) .fade
  | flipH => exact keeps_flag .flipH
  | flipV => exact keeps_flag .flipV
  | additive => exact keeps_flag .additive

private theorem tagged?_toJson (c : Command Float) :
    tagged? c.toJson = some (c.change.name,
      ofFields ([("start_time", .ofFloat c.startTime), ("end_time", .ofFloat c.endTime)] ++
        endNames.zip c.change.ends)) := by
  refine tagged?_ofFields _ (List.forall_mem_append.mpr ⟨by simp, fun field member => ?_⟩)
  have name : field.1 ∈ endNames := (List.of_mem_zip member).1
  intro kind
  rw [kind] at name
  revert name
  decide

private theorem isKeepable_ends {depth : Nat} {change : Change Float} (reads : ∀ x ∈ change.numbers, Returns x) :
    ∀ tree ∈ change.ends, isKeepable (depth + 1) tree = true := by
  have vectors {a b : Vec2 Float} (reads : ∀ x ∈ a.numbers ++ b.numbers, Returns x) :
      ∀ tree ∈ [a.toJson, b.toJson], isKeepable (depth + 1) tree = true :=
    have ⟨first, last⟩ := List.forall_mem_append.mp reads
    forall_pair.mpr ⟨Vec2.isKeepable_toJson first, Vec2.isKeepable_toJson last⟩
  have numbers {a b : Float} (reads : ∀ x ∈ [a, b], Returns x) :
      ∀ tree ∈ [Json.ofFloat a, Json.ofFloat b], isKeepable (depth + 1) tree = true :=
    have ⟨first, last⟩ := forall_pair.mp reads
    forall_pair.mpr ⟨isKeepable_ofFloat first _, isKeepable_ofFloat last _⟩
  cases change with
  | move a b | scaleVec a b => exact vectors reads
  | moveX a b | moveY a b | scale a b | rotate a b | fade a b => exact numbers reads
  | color a b =>
    obtain ⟨first, last⟩ := List.forall_mem_append.mp reads
    exact forall_pair.mpr ⟨Color.isKeepable_toJson first, Color.isKeepable_toJson last⟩
  | flipH | flipV | additive => exact List.forall_mem_nil _

private theorem isKeepable_toJson {depth : Nat} {c : Command Float} (reads : ∀ x ∈ c.numbers, Returns x) :
    isKeepable (depth + 2) c.toJson = true := by
  obtain ⟨start, stop, ends⟩ : Returns c.startTime ∧ Returns c.endTime ∧ ∀ x ∈ c.change.numbers, Returns x := by
    simpa [numbers] using reads
  refine isKeepable_ofFields (List.forall_mem_append.mpr ⟨?_, fun field member => ?_⟩)
  · simp [isKeepable_ofFloat, isKeepable, str, start, stop]
  · exact isKeepable_ends ends _ (List.of_mem_zip member).2

theorem keeps {depth : Nat} (deep : 2 ≤ depth) (c : Command Float) : Keeps (ofJson? depth) c.toJson c.numbers c where
  returns reads := by
    have kept : isKeepable depth c.toJson = true := by
      obtain ⟨levels, rfl⟩ := Nat.exists_eq_add_of_le' deep
      exact isKeepable_toJson reads
    rw [ofJson?, kept, tagged?_toJson]
    exact (keeps_record c).returns reads
  spoilt := by
    intro spoilt
    have none := (keeps_record c).spoilt spoilt
    rw [ofJson?, tagged?_toJson]
    cases isKeepable depth c.toJson with
    | false => rfl
    | true => exact none

private theorem ends_formed (change : Change Float) : ∀ tree ∈ change.ends, tree.Formed := by
  cases change with
  | move a b | scaleVec a b | color a b => exact forall_pair.mpr ⟨a.toJson_formed, b.toJson_formed⟩
  | moveX a b | moveY a b | scale a b | rotate a b | fade a b =>
    exact forall_pair.mpr ⟨ofFloat_formed a, ofFloat_formed b⟩
  | flipH | flipV | additive => exact List.forall_mem_nil _

theorem toJson_formed (c : Command Float) : c.toJson.Formed := by
  refine ofFields_formed (List.forall_mem_append.mpr ⟨?_, fun field member => ?_⟩)
  · simp only [List.forall_mem_cons]
    exact ⟨str_formed _, ofFloat_formed c.startTime, ofFloat_formed c.endTime, List.forall_mem_nil _⟩
  · exact ends_formed c.change _ (List.of_mem_zip member).2

end Command

namespace Script

/-- All numbers that a script is written with. -/
def numbers {α : Type} (script : Script α) : List α :=
  script.initialPosition.numbers ++ script.commands.flatMap Command.numbers

theorem toJson_formed (script : Script Float) : script.toJson.Formed := by
  refine ofFields_formed ?_
  simp only [List.forall_mem_cons]
  refine ⟨str_formed _, str_formed _, script.initialPosition.toJson_formed, .array ?_, List.forall_mem_nil _⟩
  exact List.forall_mem_map.mpr fun command _ => command.toJson_formed

/-- Only the numbers of a script can be lost. -/
private theorem ofJson?_toJson (script : Script Float) : ofJson? script.toJson =
    (Vec2.ofJson? script.initialPosition.toJson).bind fun position =>
      ((script.commands.map Command.toJson).mapM (Command.ofJson? (Command.maxDepth - 2))).bind fun commands =>
        some { script with initialPosition := position, commands } := by
  rw [ofJson?, toJson,
    record?_ofFields ["texture_path", "origin", "initial_position", "commands"] rfl (by decide) (by decide)]
  simp [required_cons, Origin.ofJson?_toJson, str, string?, array?]

theorem keeps (script : Script Float) : Keeps ofJson? script.toJson script.numbers script where
  returns reads := by
    obtain ⟨position, commands⟩ := List.forall_mem_append.mp reads
    rw [ofJson?_toJson, script.initialPosition.keeps.returns position, list_returns (Command.keeps (by decide)) commands]
    rfl
  spoilt := by
    rintro ⟨x, member, infinite⟩
    rw [ofJson?_toJson]
    rcases List.mem_append.mp member with position | commands
    · rw [script.initialPosition.keeps.spoilt ⟨x, position, infinite⟩]
      rfl
    · rw [list_spoilt (Command.keeps (by decide)) ⟨x, commands, infinite⟩]
      cases Vec2.ofJson? script.initialPosition.toJson <;> rfl

/-- Writing never fails, and what it writes is a text of the script's tree. If the numbers are finite
and come back from their numerals, the script comes back; reading is quick rather than exact, so that
this has to be asked of the numbers. If one of them is not finite, no script comes back at all. -/
theorem ofText_toText (script : Script Float) :
    Json.ofText? script.toText = some script.toJson ∧
      ((∀ x ∈ script.numbers, x.isFinite = true → Returns x) → (∀ x ∈ script.numbers, x.isFinite = true) →
        ofText script.toText = .ok script) ∧
      ((∃ x ∈ script.numbers, x.isFinite = false) → ofText script.toText = .error (.serialization "not a script")) := by
  have read : Json.ofText? script.toText = some script.toJson :=
    ofText?_text script.toJson_formed (Layout.indented_isBlank 2)
  refine ⟨read, fun reads finite => ?_, fun spoilt => ?_⟩
  · have returns : ∀ x ∈ script.numbers, Returns x := fun x member => reads x member (finite x member)
    rw [ofText, read, Option.bind_eq_bind, Option.bind_some, script.keeps.returns returns]
  · rw [ofText, read, Option.bind_eq_bind, Option.bind_some, script.keeps.spoilt spoilt]

/-- Reading misses some finite numbers by a unit. -/
example : ¬Returns (632.0 / 7.0) := by decide +kernel

/-- A path that needs every kind of escape, and commands of every shape. -/
def intricate : Script Float where
  texturePath := "sb\\\"é\"\n\x01/😀.png"
  origin := .bottomCentre
  initialPosition := ⟨320.0, -0.0⟩
  commands := [
    ⟨-1500.5, 1.0e300, .move ⟨0.1, 2.5⟩ ⟨-7.0, 5.0e-324⟩⟩,
    ⟨0.0, 1.0e21, .fade 0.0 1.0⟩,
    ⟨0.001, 3.25, .color ⟨1.0, 0.5, 0.25⟩ ⟨0.0, 0.0, 0.0⟩⟩,
    ⟨2.0, 3.0, .additive⟩]

theorem ofText_toText_intricate :
    ofText intricate.toText = .ok intricate ∧
      ofText (intricate.push ⟨0.0, 1.0, .rotate 0.0 (0.0 / 0.0)⟩).toText = .error (.serialization "not a script") :=
  ⟨(ofText_toText intricate).2.1 (by decide +kernel) (by decide +kernel), (ofText_toText _).2.2 (by decide +kernel)⟩

end Script

end Tween
