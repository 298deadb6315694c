import Mathlib.Data.List.Induction
import Mathlib.Data.List.Forall2

/-!
# Positions noted before a rearrangement

The positions of the elements of a list that pass a test are noted, the list is
rearranged, and the noted positions are looked up. What is found are the elements of
the rearranged list that pass, in order, precisely when these stand at the positions
at which elements stood that passed before.
-/

namespace Library

variable {α β : Type}

/-- The positions that are marked. -/
def positions (marks : List Bool) : List ℕ :=
  (List.range marks.length).filter fun i => marks[i]? = some true

/-- A position is noted precisely when it is marked. -/
theorem mem_positions {marks : List Bool} {i : ℕ} :
    i ∈ positions marks ↔ marks[i]? = some true := by
  rw [positions, List.mem_filter, List.mem_range, decide_eq_true_eq, and_iff_right_iff_imp]
  exact fun hi => (List.getElem?_eq_some_iff.mp hi).1

/-- The positions are in ascending order. -/
theorem positions_ascending (marks : List Bool) : (positions marks).Pairwise (· < ·) :=
  List.pairwise_lt_range.filter _

/-- One more mark. -/
theorem positions_concat (marks : List Bool) (b : Bool) :
    positions (marks ++ [b]) = positions marks ++ if b then [marks.length] else [] := by
  unfold positions
  rw [List.length_append, List.length_singleton, List.range_succ, List.filter_append]
  congr 1
  · refine List.filter_congr fun i hi => ?_
    rw [List.getElem?_append_left (List.mem_range.mp hi)]
  · cases b <;> simp

/-- There are as many positions as marks. -/
theorem length_positions (marks : List Bool) : (positions marks).length = marks.count true := by
  induction marks using List.reverseRecOn with
  | nil => rfl
  | append_singleton marks b ih =>
    rw [positions_concat, List.length_append, ih, List.count_append]
    cases b <;> rfl

/-- The elements at the positions of those that pass a test are those that pass. -/
theorem filterMap_positions (test : α → Bool) (l : List α) :
    (positions (l.map test)).filterMap (fun i => l[i]?) = l.filter test := by
  induction l using List.reverseRecOn with
  | nil => rfl
  | append_singleton l a ih =>
    have hbefore : (positions (l.map test)).filterMap (fun i => (l ++ [a])[i]?) =
        (positions (l.map test)).filterMap fun i => l[i]? := by
      refine List.filterMap_congr fun i hi => ?_
      obtain ⟨hlt, _⟩ := List.getElem?_eq_some_iff.mp (mem_positions.mp hi)
      rw [List.getElem?_append_left (by simpa using hlt)]
    rw [List.map_append, List.map_singleton, positions_concat, List.filterMap_append, hbefore, ih,
      List.filter_append]
    cases hpass : test a <;> simp [hpass]

/-- Marks that are kept are not fewer. -/
theorem count_le_of_kept {marks marks' : List Bool}
    (h : List.Forall₂ (fun b b' => b = true → b' = true) marks marks') :
    marks.count true ≤ marks'.count true := by
  induction h with
  | nil => exact Nat.le_refl _
  | @cons b b' _ _ hb _ ih =>
    cases b <;> cases b' <;> simp_all
    omega

/-- Marks that are kept, and are not more, are the same. -/
theorem eq_of_kept {marks marks' : List Bool}
    (h : List.Forall₂ (fun b b' => b = true → b' = true) marks marks')
    (hcount : marks'.count true ≤ marks.count true) : marks = marks' := by
  induction h with
  | nil => rfl
  | @cons b b' _ _ hb hrest ih =>
    have hle := count_le_of_kept hrest
    cases b <;> cases b' <;> simp_all
    omega

/-- Looking up all places of a list in order, some of which lead nowhere. -/
theorem filterMap_range (l : List α) (g : α → Option β) :
    (List.range l.length).filterMap (fun j => l[j]? >>= g) = l.filterMap g := by
  induction l using List.reverseRecOn with
  | nil => rfl
  | append_singleton l a ih =>
    have hbefore : (List.range l.length).filterMap (fun j => (l ++ [a])[j]? >>= g) =
        (List.range l.length).filterMap fun j => l[j]? >>= g := by
      refine List.filterMap_congr fun j hj => ?_
      rw [List.getElem?_append_left (List.mem_range.mp hj)]
    rw [List.length_append, List.length_singleton, List.range_succ, List.filterMap_append, hbefore,
      ih, List.filterMap_append]
    simp [List.filterMap_cons]

/-- **Positions after a rearrangement.** The elements of the rearranged list at the
noted positions, without those that fail a second test, are those of its elements that
pass the first one precisely when the rearrangement has moved such elements to places
of such elements only and all of them pass the second test. -/
theorem picked_eq_iff {l l' : List α} (hperm : l'.Perm l) (test ok : α → Bool) :
    (positions (l.map test)).filterMap (fun i => l'[i]?.filter ok) = l'.filter test ↔
      l'.map test = l.map test ∧ ∀ a ∈ l, test a = true → ok a = true := by
  have hcount : ∀ l : List α, (l.filter test).length = (l.map test).count true := by
    intro l
    rw [← List.countP_eq_length_filter, List.count, List.countP_map]
    exact List.countP_congr fun a _ => by simp
  have hsame : (l'.map test).count true = (l.map test).count true := (hperm.map test).count_eq true
  constructor
  · intro h
    have hlength : ((positions (l.map test)).filterMap fun i => l'[i]?.filter ok).length =
        (positions (l.map test)).length := by
      rw [h, hcount, hsame, length_positions]
    have hfound : ∀ i : ℕ, (l.map test)[i]? = some true →
        ∃ a : α, l'[i]? = some a ∧ test a = true := by
      intro i hi
      have hi' := mem_positions.mpr hi
      have hsome := List.filterMap_length_eq_length.mp hlength i hi'
      obtain ⟨a, ha⟩ := Option.isSome_iff_exists.mp hsome
      have hmem : a ∈ l'.filter test := h ▸ List.mem_filterMap.mpr ⟨i, hi', ha⟩
      exact ⟨a, (Option.filter_eq_some_iff.mp ha).1, (List.mem_filter.mp hmem).2⟩
    refine ⟨(eq_of_kept ?_ (Nat.le_of_eq hsame)).symm, fun a ha hpass => ?_⟩
    · refine List.forall₂_iff_get.mpr ⟨by simp [hperm.length_eq], fun i hi hi' hmark => ?_⟩
      have hmarked : (l.map test)[i]? = some true := by
        rw [List.getElem?_eq_getElem hi]
        exact congrArg some hmark
      obtain ⟨a, ha, hpass⟩ := hfound i hmarked
      have hmarked' : (l'.map test)[i]? = some true := by
        rw [List.getElem?_map, ha, Option.map_some, hpass]
      rw [List.getElem?_eq_getElem hi'] at hmarked'
      exact Option.some.inj hmarked'
    · have hmem : a ∈ l'.filter test := List.mem_filter.mpr ⟨hperm.mem_iff.mpr ha, hpass⟩
      rw [← h] at hmem
      obtain ⟨i, _, hi⟩ := List.mem_filterMap.mp hmem
      exact (Option.filter_eq_some_iff.mp hi).2
  · rintro ⟨hmarks, hok⟩
    rw [← hmarks, ← List.filter_filterMap, filterMap_positions, List.filter_eq_self]
    intro a ha
    obtain ⟨hmem, hpass⟩ := List.mem_filter.mp ha
    exact hok a (hperm.mem_iff.mp hmem) hpass

end Library
