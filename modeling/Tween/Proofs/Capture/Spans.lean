import Mathlib.Data.List.TakeWhile
import Tween.Proofs.Capture.Segmentation

/-! Which states the spans are made of. Every visible state stands in exactly one of them, and each
span is as long as the visible states around it. -/

namespace Tween.Span
variable {α : Type} {visible : State α → Bool}

/-- Visible states between hidden ones or the ends of the list. -/
structure Maximal (visible : State α → Bool) (states : List (State α)) (span : Span α) : Prop where
  placed : ∃ front back, states = front ++ span.seen ++ back ∧ front.getLast? = span.before ∧ back.head? = span.after
  seen : ∀ s ∈ span.seen, visible s = true
  before : ∀ s ∈ span.before, visible s = false
  after : ∀ s ∈ span.after, visible s = false

private theorem hidden_behind (states : List (State α)) : ∀ s ∈ (states.dropWhile visible).head?, visible s = false := by
  intro s found
  have stops := List.head?_dropWhile_not visible states
  rw [found] at stops
  exact stops

private theorem ofStates_placed {before : Option (State α)} {states front : List (State α)}
    (entry : ∀ s ∈ states.head?, visible s = true → front.getLast? = before ∧ ∀ b ∈ before, visible b = false) :
    ∀ span ∈ ofStates visible before states, span.Maximal visible (front ++ states) := by
  induction before, states using ofStates.induct visible generalizing front with
  | case1 before =>
    rw [ofStates]
    intro span member
    exact absurd member List.not_mem_nil
  | case2 before state states seen behind =>
    rename_i ih
    rw [ofStates, if_pos seen]
    have split : states.takeWhile visible ++ states.dropWhile visible = states := List.takeWhile_append_dropWhile
    obtain ⟨last, hidden⟩ := entry state rfl seen
    intro span member
    cases member with
    | head =>
      refine ⟨⟨front, states.dropWhile visible, ?_, last, rfl⟩, ?_, hidden, hidden_behind states⟩
      · simp [Span.seen, split]
      · intro s member
        cases member with
        | head => exact seen
        | tail _ member => exact List.mem_takeWhile_imp member
    | tail _ member =>
      have whole : front ++ state :: states = front ++ state :: states.takeWhile visible ++ states.dropWhile visible := by
        simp [split]
      rw [whole]
      refine ih ?_ span member
      intro s found visible
      exact absurd visible (by simp [hidden_behind states s found])
  | case3 before state states hidden ih =>
    rw [ofStates, if_neg hidden]
    have whole : front ++ state :: states = front ++ [state] ++ states := by simp
    rw [whole]
    refine ih fun s _ _ => ⟨List.getLast?_concat, ?_⟩
    rintro b ⟨⟩
    simpa using hidden

theorem ofStates_maximal (states : List (State α)) :
    ∀ span ∈ ofStates visible none states, span.Maximal visible states := by
  have placed : ∀ span ∈ ofStates visible none states, span.Maximal visible ([] ++ states) :=
    ofStates_placed fun _ _ _ => ⟨rfl, nofun⟩
  exact placed

/-- The state behind a span is not recorded again as long as what follows begins with a visible one. -/
private theorem exit_sublist {behind later : List (State α)} (stops : ∀ s ∈ behind.head?, visible s = false)
    (onward : later.Sublist (behind.dropWhile (!visible ·))) : (behind.head?.toList ++ later).Sublist behind := by
  cases behind with
  | nil => exact onward
  | cons hidden others =>
    rw [List.dropWhile_cons_of_pos (by simp [stops hidden rfl])] at onward
    exact (onward.trans (List.dropWhile_sublist _)).cons_cons hidden

/-- Recording skips hidden states only, and takes none twice. -/
private theorem recordings_sublist (leading : Bool) (before : Option (State α)) (states : List (State α)) :
    (recordings leading (ofStates visible before states)).flatten.Sublist
      (if leading then before.toList ++ states else states.dropWhile (!visible ·)) := by
  induction before, states using ofStates.induct visible generalizing leading with
  | case1 before => rw [ofStates]; exact List.nil_sublist _
  | case2 before state states seen behind ih =>
    rw [ofStates, if_pos seen, recordings, List.flatten_cons]
    have later : (recordings false (ofStates visible none (states.dropWhile visible))).flatten.Sublist
        ((states.dropWhile visible).dropWhile (!visible ·)) := ih false
    have split : states.takeWhile visible ++ states.dropWhile visible = states := List.takeWhile_append_dropWhile
    have rest := exit_sublist (hidden_behind states) later
    have lead : (if leading then before.toList ++ state :: states else (state :: states).dropWhile (!visible ·)) =
        (if leading then before.toList else []) ++ (state :: states) := by
      cases leading
      · rw [if_neg Bool.false_ne_true, if_neg Bool.false_ne_true, List.dropWhile_cons_of_neg (by simp [seen])]
        rfl
      · rfl
    rw [lead, Span.recorded, Span.seen, List.append_assoc, List.append_assoc]
    apply (List.Sublist.refl _).append
    have seen := (List.Sublist.refl (states.takeWhile visible)).append rest
    rw [split] at seen
    exact seen.cons_cons state
  | case3 before state states hidden ih =>
    rw [ofStates, if_neg hidden]
    cases leading with
    | true => exact (ih true).trans (List.sublist_append_right _ _)
    | false =>
      rw [if_neg Bool.false_ne_true, List.dropWhile_cons_of_pos (by simpa using hidden)]
      exact ih false

theorem recorded_sublist (states : List (State α)) :
    (recordings true (ofStates visible none states)).flatten.Sublist states :=
  recordings_sublist true none states

private theorem recordings_visible (leading : Bool) {before : Option (State α)} (states : List (State α))
    (entry : ∀ s ∈ before, visible s = false) :
    (recordings leading (ofStates visible before states)).flatten.filter visible = states.filter visible := by
  induction before, states using ofStates.induct visible generalizing leading with
  | case1 before => rw [ofStates]; rfl
  | case2 before state states seen behind =>
    rename_i ih
    rw [ofStates, if_pos seen, recordings, List.flatten_cons, List.filter_append, ih false fun s found => absurd found (Option.not_mem_none s)]
    have bordering (border : Option (State α)) (hidden : ∀ s ∈ border, visible s = false) :
        border.toList.filter visible = [] := by
      cases border with
      | none => rfl
      | some s => simp [hidden s rfl]
    have lead : (if leading then before.toList else []).filter visible = [] := by
      cases leading
      · rfl
      · exact bordering before entry
    have all : (states.takeWhile visible).filter visible = states.takeWhile visible :=
      List.filter_eq_self.mpr fun s member => List.mem_takeWhile_imp member
    have split : states.takeWhile visible ++ states.dropWhile visible = states := List.takeWhile_append_dropWhile
    rw [Span.recorded, Span.seen, List.filter_append, List.filter_append, lead, bordering _ (hidden_behind states),
      List.filter_cons_of_pos seen, List.filter_cons_of_pos seen, all, List.nil_append, List.append_nil, List.cons_append]
    apply congrArg (state :: ·)
    rw [← all, ← List.filter_append, split]
  | case3 before state states hidden ih =>
    rw [ofStates, if_neg hidden, List.filter_cons_of_neg hidden]
    apply ih leading
    rintro s ⟨⟩
    simpa using hidden

theorem recorded_visible (states : List (State α)) :
    (recordings true (ofStates visible none states)).flatten.filter visible = states.filter visible :=
  recordings_visible true states nofun

end Tween.Span
