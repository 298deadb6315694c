import Mathlib.Data.List.AList

/-!
# Hash maps with insertion of absent keys

A hash map is an association list with distinct keys; its buckets and capacity
are not observable. Two operations differ from the ones of `AList`: insertion
leaves an existing entry alone, and traversal visits the entries in an order
that the caller may not rely on, which is supplied as an arbitrary permutation.
-/

namespace Library

/-- A hash map from `κ` to `ν`: finitely many entries with distinct keys. -/
abbrev UnorderedMap (κ ν : Type) := AList (fun _ : κ => ν)

/-- An order in which a hash container hands out its entries. The container
promises only that each entry is visited exactly once. -/
structure IterationOrder where
  /-- The arrangement of a list of entries. -/
  arrange : {α : Type} → List α → List α
  /-- Every entry is visited exactly once. -/
  perm : ∀ {α : Type} (l : List α), (arrange l).Perm l

/-- The order in which the entries are stored, one possible traversal. -/
def IterationOrder.stored : IterationOrder := ⟨id, fun _ => List.Perm.refl _⟩

namespace UnorderedMap

variable {κ ν : Type} [DecidableEq κ]

/-- Insert an entry unless its key is already present. -/
def insertNew (m : UnorderedMap κ ν) (k : κ) (v : ν) : UnorderedMap κ ν :=
  if k ∈ m then m else AList.insert k v m

/-- The values of all entries, in the given traversal order. -/
def values (order : IterationOrder) (m : UnorderedMap κ ν) : List ν :=
  order.arrange (m.entries.map Sigma.snd)

/-- Erase the entries of several keys. -/
def eraseAll (m : UnorderedMap κ ν) (ks : List κ) : UnorderedMap κ ν :=
  ks.foldl (fun m k => AList.erase k m) m

/-- Insertion of an absent key, read back at every key. -/
theorem lookup_insertNew (m : UnorderedMap κ ν) (k k' : κ) (v : ν) :
    (insertNew m k v).lookup k' =
      if k' = k then some ((m.lookup k).getD v) else m.lookup k' := by
  unfold insertNew
  by_cases hk : k' = k
  · subst hk
    rw [if_pos rfl]
    by_cases hm : k' ∈ m
    · obtain ⟨w, hw⟩ := Option.isSome_iff_exists.mp (AList.lookup_isSome.mpr hm)
      simp [hm, hw]
    · simp [hm, AList.lookup_eq_none.mpr hm]
  · rw [if_neg hk]
    split
    · rfl
    · exact AList.lookup_insert_ne hk

/-- A present key keeps its value under insertion. -/
theorem lookup_insertNew_of_some {m : UnorderedMap κ ν} {k : κ} {w : ν}
    (h : m.lookup k = some w) (k' : κ) (v : ν) :
    (insertNew m k' v).lookup k = some w := by
  rw [lookup_insertNew]
  by_cases hk : k = k'
  · subst hk
    rw [if_pos rfl, h, Option.getD_some]
  · rw [if_neg hk, h]

/-- Every entry after an insertion is an old one or the inserted one. -/
theorem lookup_insertNew_cases {m : UnorderedMap κ ν} {k k' : κ} {v w : ν}
    (h : (insertNew m k v).lookup k' = some w) :
    m.lookup k' = some w ∨ (k' = k ∧ w = v ∧ m.lookup k = none) := by
  rw [lookup_insertNew] at h
  by_cases hk : k' = k
  · subst hk
    rw [if_pos rfl] at h
    cases hm : m.lookup k' with
    | none => exact Or.inr ⟨rfl, by simpa [hm] using h.symm, rfl⟩
    | some u => exact Or.inl (by simpa [hm] using h)
  · exact Or.inl (by simpa only [if_neg hk] using h)

/-- An index of listed values stays one when a value is listed last and entered
under its key unless the key is taken. -/
theorem lookup_insertNew_sound {m : UnorderedMap κ ν} {listed : List ν} {keyOf keyOf' : ν → κ}
    {k : κ} {v : ν} (hsound : ∀ k w, m.lookup k = some w → w ∈ listed ∧ keyOf w = k)
    (hsame : ∀ w ∈ listed, keyOf' w = keyOf w) (hv : keyOf' v = k) (k' : κ) (w : ν)
    (h : (insertNew m k v).lookup k' = some w) : w ∈ listed ++ [v] ∧ keyOf' w = k' := by
  rcases lookup_insertNew_cases h with hold | ⟨rfl, rfl, _⟩
  · obtain ⟨hmem, hkey⟩ := hsound k' w hold
    exact ⟨List.mem_append_left _ hmem, (hsame w hmem).trans hkey⟩
  · exact ⟨List.mem_append_right _ (List.mem_singleton_self _), hv⟩

/-- An insertion keeps what is present, and makes its own key present. -/
theorem isSome_lookup_insertNew {m : UnorderedMap κ ν} {k k' : κ} {v : ν}
    (h : k' = k ∨ (m.lookup k').isSome) : ((insertNew m k v).lookup k').isSome := by
  rw [lookup_insertNew]
  split
  · rfl
  · rename_i hne
    exact h.resolve_left hne

/-- Erasure, read back at every key. -/
theorem lookup_erase_eq (m : UnorderedMap κ ν) (k k' : κ) :
    (AList.erase k m).lookup k' = if k' = k then none else m.lookup k' := by
  by_cases hk : k' = k
  · subst hk
    rw [if_pos rfl, AList.lookup_erase]
  · rw [if_neg hk, AList.lookup_erase_ne hk]

/-- Erasure of several keys, read back at every key. -/
theorem lookup_eraseAll (m : UnorderedMap κ ν) (ks : List κ) (k : κ) :
    (m.eraseAll ks).lookup k = if k ∈ ks then none else m.lookup k := by
  induction ks generalizing m with
  | nil => rfl
  | cons k' ks ih =>
    refine (ih (AList.erase k' m)).trans ?_
    rw [lookup_erase_eq]
    by_cases hk : k = k' <;> simp [hk]

/-- Erasing the keys of all values that fail a test keeps the values that pass it. -/
theorem lookup_eraseAll_failing {m : UnorderedMap κ ν} {ks : List κ} {test : ν → Bool}
    (hks : ∀ k, k ∈ ks ↔ ∃ v, m.lookup k = some v ∧ test v = false) (k : κ) (v : ν) :
    (m.eraseAll ks).lookup k = some v ↔ m.lookup k = some v ∧ test v = true := by
  rw [lookup_eraseAll]
  split
  · rename_i hmem
    obtain ⟨w, hw, hfails⟩ := (hks k).mp hmem
    refine ⟨fun hnone => (Option.some_ne_none v hnone.symm).elim, fun ⟨hv, hpasses⟩ => ?_⟩
    obtain rfl := Option.some.inj (hv.symm.trans hw)
    exact absurd (hpasses.symm.trans hfails) (by decide)
  · rename_i hmem
    refine ⟨fun hv => ⟨hv, ?_⟩, And.left⟩
    by_contra hfails
    exact hmem ((hks k).mpr ⟨v, hv, Bool.not_eq_true _ ▸ hfails⟩)

/-- A map without entries is empty. -/
theorem eq_empty {m : UnorderedMap κ ν} (h : ∀ k, m.lookup k = none) : m = ∅ := by
  refine AList.ext (List.eq_nil_iff_forall_not_mem.mpr ?_)
  rintro ⟨k, v⟩ hmem
  have hlookup : m.lookup k = some v := AList.mem_lookup_iff.mpr hmem
  simp [h k] at hlookup

/-- A value is visited in a traversal precisely when some key maps to it. -/
theorem mem_values {order : IterationOrder} {m : UnorderedMap κ ν} {v : ν} :
    v ∈ values order m ↔ ∃ k, m.lookup k = some v := by
  rw [values, (order.perm _).mem_iff, List.mem_map]
  constructor
  · rintro ⟨⟨k, w⟩, hmem, rfl⟩
    exact ⟨k, AList.mem_lookup_iff.mpr hmem⟩
  · rintro ⟨k, hk⟩
    exact ⟨⟨k, v⟩, AList.mem_lookup_iff.mp hk, rfl⟩

/-- A map that sends different keys to different values hands out every value
once. -/
theorem values_nodup {order : IterationOrder} {m : UnorderedMap κ ν}
    (h : ∀ k k' v, m.lookup k = some v → m.lookup k' = some v → k = k') :
    (values order m).Nodup := by
  rw [values, (order.perm _).nodup_iff]
  refine List.Nodup.map_on ?_ m.nodupKeys.nodup
  rintro ⟨k, v⟩ hkv ⟨k', v'⟩ hkv' (hvv : v = v')
  subst hvv
  have hk : k = k' := h k k' v (AList.mem_lookup_iff.mpr hkv) (AList.mem_lookup_iff.mpr hkv')
  rw [hk]

end UnorderedMap

end Library
