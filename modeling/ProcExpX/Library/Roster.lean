import ProcExpX.Library.Intake

/-!
# The table between two snapshots

A roster is what remains of a rebuilding loop: the objects of the last snapshot
by key, by identifier and in order, together with the report of what the loop
added and what it left unmatched. This file states what a roster holds between two
rebuilds, and what its lookups then return.
-/

namespace Library

/-- A table of keyed objects with the report of its last rebuild. -/
structure Roster (κ ι α : Type) where
  /-- The objects by key. -/
  byKey : UnorderedMap κ (Ref α)
  /-- The objects by identifier. -/
  byId : UnorderedMap ι (Ref α)
  /-- The objects in the order of the last snapshot. -/
  all : List (Ref α)
  /-- The objects the last rebuild added. -/
  added : List (Ref α)
  /-- The objects the last rebuild left unmatched. -/
  removed : List (Ref α)
  /-- The heap the objects live in. -/
  heap : Heap α

namespace Roster

variable {ρ κ ι α : Type} [DecidableEq κ] [DecidableEq ι]

/-- The key that an object carries at present. -/
def keyAt (idn : Identity κ ι α) (g : Roster κ ι α) (r : Ref α) : κ :=
  idn.keyOf (g.heap.read r)

/-- The roster holds the objects of a list of keys. This is what remains true of
it until the next rebuild, whether or not keys repeat. -/
structure Holds (idn : Identity κ ι α) (g : Roster κ ι α) (ks : List κ) : Prop where
  /-- The list follows the keys. -/
  keys_eq : g.all.map (g.keyAt idn) = ks
  /-- Entries by key point to allocated objects that carry the key. -/
  keyed : idn.Keyed g.byKey g.heap
  /-- Entries by key are listed. -/
  byKey_mem : ∀ k r, g.byKey.lookup k = some r → r ∈ g.all
  /-- Every key has an entry. -/
  byKey_complete : ∀ k ∈ ks, (g.byKey.lookup k).isSome
  /-- Entries by identifier are listed and carry the identifier. -/
  byId_mem : ∀ i r, g.byId.lookup i = some r → r ∈ g.all ∧ idn.identOf (g.heap.read r) = i
  /-- The identifier of every key has an entry. -/
  byId_complete : ∀ k ∈ ks, (g.byId.lookup (idn.ident k)).isSome
  /-- Listed objects are allocated. -/
  all_live : ∀ r ∈ g.all, g.heap.Live r
  /-- No object is listed twice. -/
  all_nodup : g.all.Nodup
  /-- A listed object carries the identifier in its key. -/
  all_carry : ∀ r ∈ g.all, idn.Carries (g.heap.read r) (g.keyAt idn r)

section Holds

variable {idn : Identity κ ι α} {g : Roster κ ι α} {ks : List κ} (hg : g.Holds idn ks)
include hg

/-- The key of a listed object is one of the keys. -/
theorem Holds.keyAt_mem {r : Ref α} (hr : r ∈ g.all) : g.keyAt idn r ∈ ks := by
  rw [← hg.keys_eq]
  exact List.mem_map_of_mem hr

/-- The map by key has precisely the keys. -/
theorem Holds.mem_byKey {k : κ} : k ∈ g.byKey ↔ k ∈ ks := by
  constructor
  · intro hk
    obtain ⟨r, hr⟩ := Option.isSome_iff_exists.mp (AList.lookup_isSome.mpr hk)
    have hkey : g.keyAt idn r = k := (hg.keyed k r hr).2.1
    exact hkey ▸ hg.keyAt_mem (hg.byKey_mem k r hr)
  · exact fun hk => AList.lookup_isSome.mp (hg.byKey_complete k hk)

/-- With distinct keys an object is determined by its key. -/
theorem Holds.key_inj (hks : ks.Nodup) {r r' : Ref α} (hr : r ∈ g.all) (hr' : r' ∈ g.all)
    (hkey : g.keyAt idn r = g.keyAt idn r') : r = r' := by
  rw [← hg.keys_eq] at hks
  exact List.inj_on_of_nodup_map hks hr hr' hkey

/-- With distinct keys the map by key holds precisely the listed objects. -/
theorem Holds.lookup_iff (hks : ks.Nodup) {k : κ} {r : Ref α} :
    g.byKey.lookup k = some r ↔ r ∈ g.all ∧ g.keyAt idn r = k := by
  constructor
  · exact fun h => ⟨hg.byKey_mem k r h, (hg.keyed k r h).2.1⟩
  · rintro ⟨hmem, rfl⟩
    obtain ⟨r', hr'⟩ := Option.isSome_iff_exists.mp (hg.byKey_complete _ (hg.keyAt_mem hmem))
    have heq : r' = r := hg.key_inj hks (hg.byKey_mem _ _ hr') hmem (hg.keyed _ _ hr').2.1
    rw [hr', heq]

/-- With distinct identifiers the map by identifier holds precisely the listed
objects. -/
theorem Holds.lookup_id_iff (hids : (ks.map idn.ident).Nodup) {i : ι} {r : Ref α} :
    g.byId.lookup i = some r ↔ r ∈ g.all ∧ idn.identOf (g.heap.read r) = i := by
  constructor
  · exact hg.byId_mem i r
  · rintro ⟨hmem, rfl⟩
    have hk := hg.keyAt_mem hmem
    obtain ⟨r', hr'⟩ := Option.isSome_iff_exists.mp (hg.byId_complete _ hk)
    obtain ⟨hmem', hident⟩ := hg.byId_mem _ r' hr'
    have hkey : g.keyAt idn r' = g.keyAt idn r :=
      List.inj_on_of_nodup_map hids (hg.keyAt_mem hmem') hk
        ((hg.all_carry r' hmem').2.symm.trans hident)
    have heq : r' = r := hg.key_inj hids.of_map hmem' hmem hkey
    rw [(hg.all_carry r hmem).2, hr', heq]

end Holds

/-- An empty table holds no key. -/
theorem Holds.empty (idn : Identity κ ι α) {g : Roster κ ι α} (hkey : g.byKey = ∅)
    (hid : g.byId = ∅) (hall : g.all = []) : g.Holds idn [] := by
  refine ⟨by simp [hall], ?_, ?_, by simp, ?_, by simp, by simp [hall], by simp [hall],
    by simp [hall]⟩
  · intro k r hlookup
    simp [hkey] at hlookup
  · intro k r hlookup
    simp [hkey] at hlookup
  · intro i r hlookup
    simp [hid] at hlookup

end Roster

end Library
