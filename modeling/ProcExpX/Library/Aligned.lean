import Mathlib.Data.List.Forall2

/-!
# Lists aligned position by position

`List.Forall₂` relates the objects of a table to the records they were built from.
These lemmas read single positions off such a relation and split it along nested
lists.
-/

namespace Library

variable {α β γ δ : Type} {R S : α → β → Prop} {l : List α} {u : List β}

/-- An element of the right list stands next to one of the left list. -/
theorem forall₂_exists_of_mem_right (h : List.Forall₂ R l u) {b : β} (hb : b ∈ u) :
    ∃ a ∈ l, R a b := by
  induction h with
  | nil => cases hb
  | cons hab _ ih =>
    rcases List.mem_cons.mp hb with rfl | hb
    · exact ⟨_, by simp, hab⟩
    · obtain ⟨a, ha, hr⟩ := ih hb
      exact ⟨a, by simp [ha], hr⟩

/-- Two relations between aligned lists hold together. -/
theorem forall₂_and (hr : List.Forall₂ R l u) (hs : List.Forall₂ S l u) :
    List.Forall₂ (fun a b => R a b ∧ S a b) l u :=
  List.Forall₂.mp (fun _ _ h₁ h₂ => ⟨h₁, h₂⟩) hr hs

/-- A relation between aligned lists may use that its arguments are elements. -/
theorem forall₂_imp_of_mem (h : List.Forall₂ R l u)
    (himp : ∀ a ∈ l, ∀ b ∈ u, R a b → S a b) : List.Forall₂ S l u := by
  induction h with
  | nil => exact List.Forall₂.nil
  | cons hab _ ih =>
    exact List.Forall₂.cons (himp _ (by simp) _ (by simp) hab)
      (ih fun a ha b hb => himp a (by simp [ha]) b (by simp [hb]))

/-- Lists aligned by appending two pairs of equal length are aligned pair by pair. -/
theorem forall₂_append_split {l₁ l₂ : List α} {u₁ u₂ : List β}
    (h : List.Forall₂ R (l₁ ++ l₂) (u₁ ++ u₂)) (hlength : u₁.length = l₁.length) :
    List.Forall₂ R l₁ u₁ ∧ List.Forall₂ R l₂ u₂ := by
  constructor
  · simpa [hlength] using List.forall₂_take_append (l₁ ++ l₂) u₁ u₂ h
  · simpa [hlength] using List.forall₂_drop_append (l₁ ++ l₂) u₁ u₂ h

/-- Lists aligned by joining parts of equal lengths are aligned part by part. -/
theorem forall₂_flatMap_split {f : δ → List α} {g : δ → List β} {parts : List δ}
    (h : List.Forall₂ R (parts.flatMap f) (parts.flatMap g))
    (hlength : ∀ d ∈ parts, (g d).length = (f d).length) :
    ∀ d ∈ parts, List.Forall₂ R (f d) (g d) := by
  induction parts with
  | nil => simp
  | cons d parts ih =>
    obtain ⟨hhead, htail⟩ := forall₂_append_split h (hlength d (by simp))
    intro d' hd'
    rcases List.mem_cons.mp hd' with rfl | hd'
    · exact hhead
    · exact ih htail (fun e he => hlength e (by simp [he])) d' hd'

end Library
