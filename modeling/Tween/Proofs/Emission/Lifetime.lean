import Tween.Proofs.Emission.Written

/-! How long the commands of a script last. Undefined times do not count, and whatever is defined
lies between the first time and the last one. -/

namespace Tween
open Scalar OrderLaws
variable {α : Type}

/-- A pick that is never worse than either of two leaves a fold that is no worse than any. -/
private theorem foldl_reaches (related : α → α → Prop) {pick : α → α → α}
    (trans : ∀ {a b c}, related a b → related b c → related a c) (right : ∀ {a b}, related a b → related b b)
    (first : ∀ a b, related a a → related a (pick a b)) (second : ∀ a b, related b b → related b (pick a b))
    (rest : List α) (a : α) : ∀ x ∈ a :: rest, related x x → related x (rest.foldl pick a) := by
  induction rest generalizing a with
  | nil =>
    intro x member defined
    exact List.mem_singleton.mp member ▸ defined
  | cons b rest ih =>
    have onward {x : α} (picked : related x (pick a b)) : related x (rest.foldl pick (pick a b)) :=
      trans picked (ih _ _ List.mem_cons_self (right picked))
    intro x member defined
    rcases List.mem_cons.mp member with rfl | member
    · exact onward (first x b defined)
    · rcases List.mem_cons.mp member with rfl | member
      · exact onward (second a x defined)
      · exact ih _ x (List.mem_cons_of_mem _ member) defined

private theorem foldl_member {pick : α → α → α} (cases : ∀ a b, pick a b = a ∨ pick a b = b) (rest : List α) (a : α) :
    rest.foldl pick a ∈ a :: rest := by
  induction rest generalizing a with
  | nil => exact List.mem_singleton_self a
  | cons b rest ih =>
    have picked := ih (pick a b)
    rcases List.mem_cons.mp picked with same | later
    · rcases cases a b with first | second
      · exact List.mem_cons.mpr (Or.inl (same.trans first))
      · exact List.mem_cons_of_mem _ (List.mem_cons.mpr (Or.inl (same.trans second)))
    · exact List.mem_cons_of_mem _ (List.mem_cons_of_mem _ later)

variable [Scalar α]

private theorem greatest_cases (a b : α) : greatest a b = a ∨ greatest a b = b := by
  unfold greatest
  split
  · split
    · exact Or.inr rfl
    · exact Or.inl rfl
  · exact Or.inr rfl

section Order
variable [OrderLaws α]

private theorem le_greatest (a b : α) : (a ≤ a → a ≤ greatest a b) ∧ (b ≤ b → b ≤ greatest a b) := by
  unfold greatest
  split
  next same =>
    have defined := ge_of_beq same
    split
    next less => exact ⟨fun _ => le_of_lt less, id⟩
    next least => exact ⟨id, fun other => le_of_not_lt defined other least⟩
  next undefined => exact ⟨fun defined => absurd (beq_of_defined defined) undefined, id⟩

private theorem least_le (a b : α) : (a ≤ a → least a b ≤ a) ∧ (b ≤ b → least a b ≤ b) := by
  unfold least
  split
  next same =>
    have defined := ge_of_beq same
    split
    next less => exact ⟨fun _ => le_of_lt less, id⟩
    next greatest => exact ⟨id, fun other => le_of_not_lt other defined greatest⟩
  next undefined => exact ⟨fun defined => absurd (beq_of_defined defined) undefined, id⟩

end Order

namespace Script
variable {script : Script α} {command : Command α}

theorem endTime_command : ∀ stop ∈ script.endTime, ∃ command ∈ script.commands, command.endTime = stop := by
  intro stop found
  unfold endTime at found
  split at found
  next => cases found
  next first rest shape =>
    obtain rfl := Option.some.inj found
    have member := foldl_member greatest_cases rest first
    rw [← shape] at member
    exact List.mem_map.mp member

variable [OrderLaws α]

theorem le_endTime (member : command ∈ script.commands) (defined : command.endTime ≤ command.endTime) :
    ∃ stop ∈ script.endTime, command.endTime ≤ stop := by
  have listed : command.endTime ∈ script.commands.map (·.endTime) := List.mem_map_of_mem member
  cases shape : script.commands.map (·.endTime) with
  | nil =>
    rw [shape] at listed
    cases listed
  | cons first rest =>
    rw [shape] at listed
    have latest := foldl_reaches (· ≤ ·) OrderLaws.le_trans (fun ordered => (le_defined ordered).2)
      (fun a b => (le_greatest a b).1) (fun a b => (le_greatest a b).2) rest first _ listed defined
    exact ⟨_, by rw [endTime, shape]; rfl, latest⟩

theorem startTime_le (member : command ∈ script.commands) (defined : command.startTime ≤ command.startTime) :
    ∃ start ∈ script.startTime, start ≤ command.startTime := by
  have listed : command.startTime ∈ script.commands.map (·.startTime) := List.mem_map_of_mem member
  cases shape : script.commands.map (·.startTime) with
  | nil =>
    rw [shape] at listed
    cases listed
  | cons first rest =>
    rw [shape] at listed
    have earliest := foldl_reaches (fun a b => b ≤ a) (fun later earlier => OrderLaws.le_trans earlier later)
      (fun ordered => (le_defined ordered).1) (fun a b => (least_le a b).1) (fun a b => (least_le a b).2) rest first _ listed
      defined
    exact ⟨_, by rw [startTime, shape]; rfl, earliest⟩

end Script
end Tween
