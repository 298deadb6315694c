import Mathlib.Data.List.Induction

/-!
# Properties along a history

A history is a list of entries, oldest first. Many properties of a run say
something of each entry in view of the entries before it.
-/

namespace Library

variable {α : Type*} {P Q : List α → α → Prop} {l : List α}

/-- A property of each entry of a list and the entries before it. -/
def AtEach (P : List α → α → Prop) (l : List α) : Prop :=
  ∀ before a after, l = before ++ a :: after → P before a

namespace AtEach

/-- A list without entries has every such property. -/
theorem nil : AtEach P [] := by
  intro before a after heq
  simp at heq

/-- A property along a history holds along its beginning. -/
theorem of_append {more : List α} (h : AtEach P (l ++ more)) : AtEach P l :=
  fun before a after heq =>
    h before a (after ++ more) (by rw [heq, List.append_assoc, List.cons_append])

/-- With one more entry, the property holds at the entries before it and at that one. -/
theorem concat_iff {a : α} : AtEach P (l ++ [a]) ↔ AtEach P l ∧ P l a := by
  constructor
  · exact fun h => ⟨h.of_append, h l a [] rfl⟩
  · rintro ⟨h, ha⟩ before b after heq
    rcases List.eq_nil_or_concat after with rfl | ⟨after, c, rfl⟩
    · obtain ⟨rfl, hlast⟩ := List.append_inj' heq rfl
      rwa [← (List.cons.inj hlast).1]
    · rw [List.concat_eq_append, ← List.cons_append, ← List.append_assoc] at heq
      exact h before b after (List.append_inj' heq rfl).1

/-- At a single entry the property holds after nothing. -/
theorem singleton_iff {a : α} : AtEach P [a] ↔ P [] a := by
  rw [← List.nil_append [a], concat_iff, and_iff_right nil]

/-- At two entries the property holds after nothing and after the first. -/
theorem pair_iff {a b : α} : AtEach P [a, b] ↔ P [] a ∧ P [a] b := by
  rw [← List.singleton_append, concat_iff, singleton_iff]

/-- What holds of all entries holds of each and of the entries before it. -/
theorem of_forall_mem {p : α → Prop} (h : ∀ a ∈ l, p a) :
    AtEach (fun before a => (∀ b ∈ before, p b) ∧ p a) l := by
  rintro before a after rfl
  exact ⟨fun b hb => h b (List.mem_append_left _ hb), h a (by simp)⟩

/-- Two properties that agree wherever a third holds agree along a history. -/
theorem congr {R : List α → α → Prop} (hR : AtEach R l)
    (h : ∀ before a, R before a → (P before a ↔ Q before a)) : AtEach P l ↔ AtEach Q l := by
  constructor
  · intro hP before a after heq
    exact (h before a (hR before a after heq)).mp (hP before a after heq)
  · intro hQ before a after heq
    exact (h before a (hR before a after heq)).mpr (hQ before a after heq)

section Firsts

/-! Two conditions on entries pick the same first entry precisely when they agree up to it. -/

variable {past late : α → Prop}

/-- While no earlier entry is late the two conditions agree. -/
def AgreeUntil (past late : α → Prop) : List α → Prop :=
  AtEach fun before a => (∀ b ∈ before, ¬ late b) → (past a ↔ late a)

/-- Conditions that agree until the first late entry both hold nowhere or both hold
somewhere. -/
theorem AgreeUntil.none_iff (h : AgreeUntil past late l) :
    (∀ b ∈ l, ¬ past b) ↔ ∀ b ∈ l, ¬ late b := by
  induction l using List.reverseRecOn with
  | nil => simp
  | append_singleton l a ih =>
    obtain ⟨hl, ha⟩ := concat_iff.mp h
    simp only [List.forall_mem_append, List.forall_mem_singleton]
    rw [ih hl]
    exact and_congr_right fun hnone => not_congr (ha hnone)

/-- **The same first entry.** The first entry past is everywhere the first late one
precisely when the conditions agree until the first late entry. -/
theorem firsts_agree_iff :
    AtEach (fun before a => (∀ b ∈ before, ¬ past b) ∧ past a ↔
      (∀ b ∈ before, ¬ late b) ∧ late a) l ↔ AgreeUntil past late l := by
  induction l using List.reverseRecOn with
  | nil => exact iff_of_true nil nil
  | append_singleton l a ih =>
    rw [AgreeUntil, concat_iff, concat_iff, ih]
    refine and_congr_right fun hl => ?_
    rw [AgreeUntil.none_iff hl]
    exact and_congr_right_iff

/-- Along a list both conditions first hold at the same entry precisely when they
agree until the first late entry. -/
theorem none_agree_iff :
    (∀ before after, l = before ++ after →
      ((∀ b ∈ before, ¬ past b) ↔ ∀ b ∈ before, ¬ late b)) ↔ AgreeUntil past late l := by
  constructor
  · rintro h before a after rfl hnone
    have hbefore := (h before (a :: after) rfl).mpr hnone
    have hboth := h (before ++ [a]) after (by rw [List.append_assoc, List.singleton_append])
    simp only [List.forall_mem_append, List.forall_mem_singleton] at hboth
    rw [and_iff_right hbefore, and_iff_right hnone] at hboth
    exact not_iff_not.mp hboth
  · rintro h before after rfl
    exact AgreeUntil.none_iff h.of_append

end Firsts

end AtEach

end Library
