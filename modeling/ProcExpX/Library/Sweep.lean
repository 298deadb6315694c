import Mathlib.Data.List.Dedup
import Mathlib.Data.List.Induction
import Mathlib.Tactic.Tauto
import ProcExpX.Library.UnorderedMap

/-!
# Comparing a keyed set with a listing

A sweep goes through a listing with a set of keyed entries at hand. An entry whose key
is in the set is crossed off a copy of the set as it was before; any other entry is
added. In the end the additions and what has not been crossed off are the difference
of the listing and the set.
-/

namespace Library

variable {κ ν : Type} [DecidableEq κ]

/-- The state of a sweep. -/
structure Sweep (κ ν : Type) where
  /-- The set with the additions so far. -/
  present : UnorderedMap κ ν
  /-- The entries of the former set that have not been crossed off. -/
  unseen : UnorderedMap κ ν
  /-- The additions so far. -/
  added : List ν

/-- Every entry of a map is stored under its own key. -/
def UnorderedMap.Own (keyOf : ν → κ) (m : UnorderedMap κ ν) : Prop :=
  ∀ k v, m.lookup k = some v → keyOf v = k

/-- The keys of the values of a map, in any order, are its keys, each once. -/
theorem UnorderedMap.Own.map_values {keyOf : ν → κ} {m : UnorderedMap κ ν} (hm : m.Own keyOf)
    (order : IterationOrder) :
    ((m.values order).map keyOf).Nodup ∧ ∀ k, k ∈ (m.values order).map keyOf ↔ k ∈ m := by
  have hkey : m.entries.map (fun e => keyOf e.2) = m.entries.map Sigma.fst :=
    List.map_congr_left fun e he => hm e.1 e.2 (AList.mem_lookup_iff.mpr he)
  have hperm : ((m.values order).map keyOf).Perm (m.entries.map Sigma.fst) := by
    rw [← hkey, ← Function.comp_def, ← List.map_map]
    exact (order.perm _).map _
  exact ⟨hperm.nodup_iff.mpr m.nodupKeys, fun k => hperm.mem_iff⟩

/-- A map with the keys of a list has as many entries as the list has different keys. -/
theorem UnorderedMap.length_entries {m : UnorderedMap κ ν} {ks : List κ}
    (h : ∀ k, k ∈ m ↔ k ∈ ks) : m.entries.length = ks.dedup.length := by
  have hperm : (m.entries.map Sigma.fst).Perm ks.dedup :=
    (List.perm_ext_iff_of_nodup m.nodupKeys ks.nodup_dedup).mpr fun k =>
      (h k).trans List.mem_dedup.symm
  rw [← hperm.length_eq, List.length_map]

/-- Inserting entries one by one into a map adds their keys. -/
theorem UnorderedMap.Own.foldl_insertNew {keyOf : ν → κ} {m : UnorderedMap κ ν}
    (hm : m.Own keyOf) (vs : List ν) :
    UnorderedMap.Own keyOf (vs.foldl (fun m v => m.insertNew (keyOf v) v) m) ∧
      ∀ k, k ∈ vs.foldl (fun m v => m.insertNew (keyOf v) v) m ↔ k ∈ m ∨ k ∈ vs.map keyOf := by
  induction vs generalizing m with
  | nil => exact ⟨hm, by simp⟩
  | cons v vs ih =>
    have hinsert : (m.insertNew (keyOf v) v).Own keyOf := by
      intro k w hlookup
      rcases UnorderedMap.lookup_insertNew_cases hlookup with hold | ⟨rfl, rfl, _⟩
      · exact hm k w hold
      · rfl
    obtain ⟨hown, hmem⟩ := ih hinsert
    refine ⟨hown, fun k => (hmem k).trans ?_⟩
    rw [← AList.lookup_isSome, UnorderedMap.lookup_insertNew, ← AList.lookup_isSome, List.map_cons,
      List.mem_cons]
    by_cases hk : k = keyOf v <;> simp [hk]

/-- Inserting entries one by one: a key keeps its value, or gets the first entry with it. -/
theorem UnorderedMap.lookup_foldl_insertNew (keyOf : ν → κ) (m : UnorderedMap κ ν) (vs : List ν)
    (k : κ) : (vs.foldl (fun m v => m.insertNew (keyOf v) v) m).lookup k =
      (m.lookup k).or (vs.find? fun v => keyOf v = k) := by
  induction vs generalizing m with
  | nil => rw [List.foldl_nil, List.find?_nil, Option.or_none]
  | cons v vs ih =>
    rw [List.foldl_cons, ih, UnorderedMap.lookup_insertNew, List.find?_cons]
    by_cases hk : keyOf v = k
    · subst hk
      cases m.lookup (keyOf v) <;> simp
    · simp [hk, Ne.symm hk]

/-- Erasing keys one by one from a map takes these keys out. -/
theorem UnorderedMap.Own.foldl_erase {keyOf : ν → κ} {m : UnorderedMap κ ν} (hm : m.Own keyOf)
    (vs : List ν) :
    UnorderedMap.Own keyOf (vs.foldl (fun m v => AList.erase (keyOf v) m) m) ∧
      ∀ k, k ∈ vs.foldl (fun m v => AList.erase (keyOf v) m) m ↔ k ∈ m ∧ k ∉ vs.map keyOf := by
  induction vs generalizing m with
  | nil => exact ⟨hm, by simp⟩
  | cons v vs ih =>
    have herase : UnorderedMap.Own keyOf (AList.erase (keyOf v) m) := by
      intro k w hlookup
      rw [UnorderedMap.lookup_erase_eq] at hlookup
      split at hlookup
      · cases hlookup
      · exact hm k w hlookup
    obtain ⟨hown, hmem⟩ := ih herase
    refine ⟨hown, fun k => (hmem k).trans ?_⟩
    rw [AList.mem_erase, List.map_cons, List.mem_cons]
    tauto

/-- Erasing the keys of entries, read back at every key. -/
theorem UnorderedMap.lookup_foldl_erase (keyOf : ν → κ) (m : UnorderedMap κ ν) (vs : List ν)
    (k : κ) : (vs.foldl (fun m v => AList.erase (keyOf v) m) m).lookup k =
      if k ∈ vs.map keyOf then none else m.lookup k := by
  rw [← UnorderedMap.lookup_eraseAll, UnorderedMap.eraseAll, List.foldl_map]

namespace Sweep

/-- A sweep starts with the set and a copy of it. -/
def start (m : UnorderedMap κ ν) : Sweep κ ν := ⟨m, m, []⟩

/-- Go over one entry of the listing. -/
def visit (keyOf : ν → κ) (s : Sweep κ ν) (v : ν) : Sweep κ ν :=
  if keyOf v ∈ s.present then { s with unseen := AList.erase (keyOf v) s.unseen }
  else { s with present := s.present.insertNew (keyOf v) v, added := s.added ++ [v] }

/-- What a sweep over the entries `seen` from the set `m` has found. -/
structure Found (keyOf : ν → κ) (m : UnorderedMap κ ν) (seen : List ν) (s : Sweep κ ν) :
    Prop where
  /-- The set has the former keys and the visited ones. -/
  mem_present : ∀ k, k ∈ s.present ↔ k ∈ m ∨ k ∈ seen.map keyOf
  /-- The set stores its entries under their own keys. -/
  present_own : s.present.Own keyOf
  /-- Former entries are crossed off when their key is visited. -/
  unseen_lookup : ∀ k, s.unseen.lookup k = if k ∈ seen.map keyOf then none else m.lookup k
  /-- No key is added twice. -/
  added_nodup : (s.added.map keyOf).Nodup
  /-- The added keys are the visited ones that the set did not have. -/
  mem_added : ∀ k, k ∈ s.added.map keyOf ↔ k ∈ seen.map keyOf ∧ k ∉ m

/-- Before the first entry nothing is found. -/
theorem Found.start {keyOf : ν → κ} {m : UnorderedMap κ ν} (hm : m.Own keyOf) :
    Found keyOf m [] (start m) :=
  ⟨by simp [Sweep.start], hm, by simp [Sweep.start], by simp [Sweep.start], by simp [Sweep.start]⟩

/-- **Step of the sweep.** -/
theorem Found.visit {keyOf : ν → κ} {m : UnorderedMap κ ν} {seen : List ν} {s : Sweep κ ν}
    (hs : Found keyOf m seen s) (v : ν) : Found keyOf m (seen ++ [v]) (s.visit keyOf v) := by
  have hkeys : ∀ k, k ∈ (seen ++ [v]).map keyOf ↔ k ∈ seen.map keyOf ∨ k = keyOf v := by
    intro k
    rw [List.map_append, List.mem_append, List.map_singleton, List.mem_singleton]
  by_cases hv : keyOf v ∈ s.present
  · rw [Sweep.visit, if_pos hv]
    refine ⟨fun k => ?_, hs.present_own, fun k => ?_, hs.added_nodup, fun k => ?_⟩
    · rw [hkeys, hs.mem_present]
      constructor
      · exact fun h => h.imp_right Or.inl
      · rintro (h | h | rfl)
        · exact Or.inl h
        · exact Or.inr h
        · exact (hs.mem_present _).mp hv
    · rw [UnorderedMap.lookup_erase_eq, hs.unseen_lookup]
      by_cases hk : k = keyOf v <;> simp [hk]
    · rw [hkeys, hs.mem_added]
      constructor
      · exact fun h => ⟨Or.inl h.1, h.2⟩
      · rintro ⟨h | rfl, hnot⟩
        · exact ⟨h, hnot⟩
        · exact ⟨((hs.mem_present _).mp hv).resolve_left hnot, hnot⟩
  · rw [Sweep.visit, if_neg hv]
    obtain ⟨hvm, hvseen⟩ := not_or.mp (mt (hs.mem_present _).mpr hv)
    refine ⟨fun k => ?_, fun k w hlookup => ?_, fun k => ?_, ?_, fun k => ?_⟩
    · rw [hkeys, ← or_assoc, ← hs.mem_present, ← AList.lookup_isSome,
        UnorderedMap.lookup_insertNew, ← AList.lookup_isSome]
      by_cases hk : k = keyOf v <;> simp [hk]
    · rcases UnorderedMap.lookup_insertNew_cases hlookup with hold | ⟨rfl, rfl, _⟩
      · exact hs.present_own k w hold
      · rfl
    · rw [hs.unseen_lookup]
      by_cases hk : k = keyOf v
      · subst hk
        rw [if_neg hvseen, if_pos ((hkeys _).mpr (Or.inr rfl)), AList.lookup_eq_none.mpr hvm]
      · simp [hk]
    · rw [List.map_append, List.map_singleton]
      refine List.Nodup.append hs.added_nodup (List.nodup_singleton _) ?_
      rw [List.disjoint_singleton, hs.mem_added]
      exact fun h => hvseen h.1
    · rw [List.map_append, List.mem_append, List.map_singleton, List.mem_singleton, hs.mem_added,
        hkeys]
      constructor
      · rintro (⟨h, hnot⟩ | rfl)
        · exact ⟨Or.inl h, hnot⟩
        · exact ⟨Or.inr rfl, hvm⟩
      · rintro ⟨h | rfl, hnot⟩
        · exact Or.inl ⟨h, hnot⟩
        · exact Or.inr rfl

/-- **The whole sweep.** -/
theorem Found.visitAll {keyOf : ν → κ} {m : UnorderedMap κ ν} (hm : m.Own keyOf) (vs : List ν) :
    Found keyOf m vs (vs.foldl (Sweep.visit keyOf) (Sweep.start m)) := by
  induction vs using List.reverseRecOn with
  | nil => exact Found.start hm
  | append_singleton vs v ih =>
    rw [List.foldl_append]
    exact ih.visit v

/-- The additions are visited in the order of the listing. -/
theorem visitAll_added_sublist (keyOf : ν → κ) (m : UnorderedMap κ ν) (vs : List ν) :
    (vs.foldl (Sweep.visit keyOf) (Sweep.start m)).added.Sublist vs := by
  induction vs using List.reverseRecOn with
  | nil => exact List.Sublist.slnil
  | append_singleton vs v ih =>
    rw [List.foldl_append, List.foldl_cons, List.foldl_nil, Sweep.visit]
    split
    · exact ih.trans (List.sublist_append_left _ _)
    · exact ih.append (List.Sublist.refl _)

/-- An entry of the listing is added to the set unless its key is there. -/
theorem visit_present (keyOf : ν → κ) (s : Sweep κ ν) (v : ν) :
    (s.visit keyOf v).present = s.present.insertNew (keyOf v) v := by
  unfold visit
  split
  · rw [UnorderedMap.insertNew, if_pos ‹_›]
  · rfl

/-- The set after a sweep: a key keeps its value, or gets the first entry with it. -/
theorem visitAll_lookup_present (keyOf : ν → κ) (m : UnorderedMap κ ν) (vs : List ν) (k : κ) :
    (vs.foldl (Sweep.visit keyOf) (Sweep.start m)).present.lookup k =
      (m.lookup k).or (vs.find? fun v => keyOf v = k) := by
  rw [← UnorderedMap.lookup_foldl_insertNew]
  congr 1
  induction vs using List.reverseRecOn with
  | nil => rfl
  | append_singleton vs v ih =>
    rw [List.foldl_append, List.foldl_append, ← ih]
    exact visit_present keyOf _ v

/-- A former key is not crossed off precisely when it is not in the listing. -/
theorem Found.mem_unseen {keyOf : ν → κ} {m : UnorderedMap κ ν} {seen : List ν} {s : Sweep κ ν}
    (hs : Found keyOf m seen s) (k : κ) : k ∈ s.unseen ↔ k ∈ m ∧ k ∉ seen.map keyOf := by
  rw [← AList.lookup_isSome, hs.unseen_lookup, ← AList.lookup_isSome]
  by_cases hk : k ∈ seen.map keyOf <;> simp [hk]

/-- The entries that have not been crossed off are stored under their own keys. -/
theorem Found.unseen_own {keyOf : ν → κ} {m : UnorderedMap κ ν} {seen : List ν} {s : Sweep κ ν}
    (hs : Found keyOf m seen s) (hm : m.Own keyOf) : s.unseen.Own keyOf := by
  intro k v hlookup
  rw [hs.unseen_lookup] at hlookup
  split at hlookup
  · cases hlookup
  · exact hm k v hlookup

end Sweep

end Library
