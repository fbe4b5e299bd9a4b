import Tween.Json.Number
import Tween.Json.Record
import Mathlib.Data.List.Basic

/-! Values in trees. A written value is kept if it comes back whenever its numbers do, and if nothing
comes back once a number is not finite. -/

namespace Tween

namespace Json

private theorem named_ofFields (fields : List (String × Json)) :
    (fields.map fun (name, value) => (some name, value)).mapM (fun (name, value) => name.map (·, value)) =
      some fields := by
  rw [List.mapM_map]
  exact (List.mapM_pure (m := Option)).trans (congrArg some (List.map_id fields))

/-- Known names that come once are a record as they stand. -/
theorem record?_ofFields {names : List String} {fields : List (String × Json)} (written : List String)
    (same : fields.map (·.1) = written) (known : ∀ name ∈ written, name ∈ names) (once : written.Nodup) :
    record? names (ofFields fields) = some fields := by
  subst same
  have all : (fields.filter fun field => names.contains field.1) = fields :=
    List.filter_eq_self.mpr fun field member =>
      List.contains_iff_mem.mpr (known field.1 (List.mem_map_of_mem member))
  rw [ofFields, record?, named_ofFields]
  simp only [Option.bind_eq_bind, Option.bind_some, all, guard, if_pos once]
  rfl

theorem required_cons {β : Type} (read : Json → Option β) (name other : String) (value : Json)
    (fields : List (String × Json)) :
    required read name ((other, value) :: fields) = if name = other then read value else required read name fields := by
  rw [required, List.lookup_cons]
  split <;> simp_all [required]

/-- Whether the numeral that a number is written with is read as the same number. -/
def Returns (x : Float) : Prop := (ofFloat x).float? = some x

instance (x : Float) : Decidable (Returns x) := inferInstanceAs (Decidable (_ = _))

theorem float?_infinite {x : Float} (infinite : x.isFinite = false) : (ofFloat x).float? = none := by
  rw [ofFloat, infinite]
  rfl

/-- A tree that stands for a value, seen from its reader. -/
structure Keeps {β : Type} (read : Json → Option β) (tree : Json) (numbers : List Float) (value : β) : Prop where
  returns : (∀ x ∈ numbers, Returns x) → read tree = some value
  spoilt : (∃ x ∈ numbers, x.isFinite = false) → read tree = none

theorem keeps_float (x : Float) : Keeps float? (ofFloat x) [x] x where
  returns reads := reads x List.mem_cons_self
  spoilt := by
    rintro ⟨y, member, infinite⟩
    cases List.mem_singleton.mp member
    exact float?_infinite infinite

section
variable {β : Type} {read : Json → Option β} {write : β → Json} {numbers : β → List Float}
  (keeps : ∀ value, Keeps read (write value) (numbers value) value) {values : List β}
include keeps

theorem list_returns (reads : ∀ x ∈ values.flatMap numbers, Returns x) :
    (values.map write).mapM read = some values := by
  induction values with
  | nil => rfl
  | cons value values ih =>
    rw [List.flatMap_cons] at reads
    obtain ⟨first, others⟩ := List.forall_mem_append.mp reads
    rw [List.map_cons, List.mapM_cons, (keeps value).returns first, ih others]
    rfl

theorem list_spoilt (spoilt : ∃ x ∈ values.flatMap numbers, x.isFinite = false) :
    (values.map write).mapM read = none := by
  obtain ⟨x, member, infinite⟩ := spoilt
  induction values with
  | nil => cases member
  | cons value values ih =>
    rw [List.flatMap_cons] at member
    rw [List.map_cons, List.mapM_cons]
    rcases List.mem_append.mp member with first | later
    · rw [(keeps value).spoilt ⟨x, first, infinite⟩]
      rfl
    · rw [ih later]
      cases read (write value) <;> rfl

end

/-! Values whose numbers come back can be put aside until their kind is known. -/

theorem isKeepable_ofFloat {x : Float} (returns : Returns x) (depth : Nat) : isKeepable depth (ofFloat x) = true := by
  rw [Returns] at returns
  unfold ofFloat at returns ⊢
  split
  next finite =>
    rw [if_pos finite, float?] at returns
    simp [isKeepable, returns]
  next => simp [isKeepable]

theorem isKeepable_ofFields {fields : List (String × Json)} {depth : Nat}
    (all : ∀ field ∈ fields, isKeepable depth field.2 = true) : isKeepable (depth + 1) (ofFields fields) = true := by
  rw [ofFields, isKeepable, List.all_map, List.all_eq_true]
  exact fun field member => all field member

end Json

end Tween
