import Mathlib.Data.List.Basic
import Mathlib.Data.Nat.Notation

/-!
# Texts made of parts

A text can be made of groups with a separator between them, which is `List.intercalate`
of the groups, or of strings with a terminator behind each. A list of strings is written
with one more terminator at its end, so the strings must not be empty.
-/

namespace Library

section Groups

variable {α : Type*} {sep : α}

/-- What stands before the first group can be counted to it. -/
theorem append_intercalate (l g : List α) (groups : List (List α)) :
    l ++ [sep].intercalate (g :: groups) = [sep].intercalate ((l ++ g) :: groups) := by
  cases groups with
  | nil => rw [List.intercalate_singleton, List.intercalate_singleton]
  | cons g' groups =>
    rw [List.intercalate_cons_cons, List.intercalate_cons_cons, List.append_assoc,
      List.append_assoc, List.append_assoc]

/-- The length, if all groups but the first are of one length. -/
theorem length_intercalate {size : ℕ} (g : List α) {groups : List (List α)}
    (hgroups : ∀ h ∈ groups, h.length = size) :
    ([sep].intercalate (g :: groups)).length = g.length + (size + 1) * groups.length := by
  induction groups generalizing g with
  | nil => rw [List.intercalate_singleton, List.length_nil, Nat.mul_zero, Nat.add_zero]
  | cons g' groups ih =>
    obtain ⟨hg', hrest⟩ := List.forall_mem_cons.mp hgroups
    rw [List.intercalate_cons_cons, List.length_append, List.length_append, ih g' hrest, hg',
      List.length_singleton, List.length_cons, Nat.mul_add]
    omega

/-- Without the separators the groups stand one after another. -/
theorem filter_intercalate [DecidableEq α] {groups : List (List α)}
    (hgroups : ∀ g ∈ groups, sep ∉ g) :
    ([sep].intercalate groups).filter (· ≠ sep) = groups.flatten := by
  have hkept : ∀ g : List α, sep ∉ g → g.filter (· ≠ sep) = g := by
    intro g hg
    refine List.filter_eq_self.mpr fun a ha => ?_
    exact decide_eq_true fun heq => hg (heq ▸ ha)
  induction groups with
  | nil => rfl
  | cons g groups ih =>
    obtain ⟨hg, hrest⟩ := List.forall_mem_cons.mp hgroups
    cases groups with
    | nil => rw [List.intercalate_singleton, hkept g hg, List.flatten_singleton]
    | cons g' groups =>
      rw [List.intercalate_cons_cons, List.filter_append, List.filter_append, ih hrest,
        hkept g hg, List.flatten_cons]
      simp

/-- A text of groups that have something in them has something in it. -/
theorem intercalate_ne_nil {g : List α} (hg : g ≠ []) (groups : List (List α)) :
    [sep].intercalate (g :: groups) ≠ [] := by
  cases groups with
  | nil => rwa [List.intercalate_singleton]
  | cons g' groups =>
    rw [List.intercalate_cons_cons]
    simp

/-- The text does not begin with a separator if the first group has something in it. -/
theorem head_intercalate_ne {g : List α} (hg : g ≠ []) (hsep : sep ∉ g)
    (groups : List (List α)) : ([sep].intercalate (g :: groups)).head? ≠ some sep := by
  obtain ⟨a, l, rfl⟩ := List.exists_cons_of_ne_nil hg
  rw [List.intercalate_cons_cons_left, List.head?_cons, Ne, Option.some.injEq]
  rintro rfl
  exact hsep List.mem_cons_self

/-- The text does not end with a separator if each group has something in it. -/
theorem getLast_intercalate_ne {groups : List (List α)}
    (hgroups : ∀ g ∈ groups, g ≠ [] ∧ sep ∉ g) :
    ([sep].intercalate groups).getLast? ≠ some sep := by
  induction groups with
  | nil => exact (Option.some_ne_none sep).symm
  | cons g groups ih =>
    obtain ⟨⟨_, hsep⟩, hrest⟩ := List.forall_mem_cons.mp hgroups
    cases groups with
    | nil =>
      rw [List.intercalate_singleton]
      exact fun hlast => hsep (List.mem_of_getLast? hlast)
    | cons g' groups =>
      have hne := @intercalate_ne_nil _ sep _ (hrest g' List.mem_cons_self).1 groups
      rw [List.intercalate_cons_cons, List.getLast?_append_of_ne_nil _ hne]
      exact ih hrest

end Groups

section Strings

variable {α : Type*} {z : α}

/-- A non-empty string without the terminator. -/
structure TerminableString (z : α) where
  /-- The elements of the string. -/
  chars : List α
  /-- There is at least one. -/
  ne_nil : chars ≠ []
  /-- None is the terminator. -/
  not_mem : z ∉ chars

/-- A list of strings as one string. -/
def multiString : List (TerminableString z) → List α
  | [] => [z]
  | s :: strs => s.chars ++ z :: multiString strs

/-- The strings of a list. -/
def texts (strs : List (TerminableString z)) : List (List α) :=
  strs.map TerminableString.chars

/-- The list after its first string. -/
theorem multiString_cons_begins {strs : List (TerminableString z)} {t : TerminableString z}
    {p : List α} (h : multiString strs <+: p) :
    multiString (t :: strs) <+: t.chars ++ z :: p := by
  rw [multiString]
  exact List.prefix_append_right_inj _ |>.mpr (List.cons_prefix_cons.mpr ⟨rfl, h⟩)

end Strings

end Library
