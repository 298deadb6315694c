import Mathlib.Data.Finset.Basic
import ProcExpX.Library.Rebuild

/-!
# Exact reports between two snapshots

When the keys of two successive snapshots are distinct, what a rebuild reports as
added and removed is the exact difference of the two key lists, and an object
whose key is in both is kept. A client that only sees the reports can therefore
reconstruct the set of keys.
-/

namespace Library.Roster

variable {ρ κ ι α : Type} [DecidableEq κ] [DecidableEq ι]

/-- The roster `g'`, rebuilt from `g`, reports the exact difference between the
keys `ks` that `g` holds and the keys `ks'` that `g'` holds. -/
structure Reports (idn : Identity κ ι α) (g g' : Roster κ ι α) (ks ks' : List κ) : Prop where
  /-- The added objects are, in order, the listed ones with a key that was not held. -/
  added_eq : g'.added = g'.all.filter (fun r => g'.keyAt idn r ∉ ks)
  /-- The removed objects are the previously listed ones whose key is gone. -/
  removed_perm : g'.removed.Perm (g.all.filter (fun r => g.keyAt idn r ∉ ks'))
  /-- A previously listed object whose key is still there stays listed. -/
  kept : ∀ r ∈ g.all, g.keyAt idn r ∈ ks' → r ∈ g'.all
  /-- A previously listed object keeps its key. -/
  keyAt_eq : ∀ r ∈ g.all, g'.keyAt idn r = g.keyAt idn r

/-- **Exact report.** Rebuilding a table with distinct keys from records with
distinct keys reports the exact difference. -/
theorem RebuildsTo.reports {bp : Blueprint ρ κ ι α} {order : IterationOrder}
    {g g' : Roster κ ι α} {recs : List ρ} {ks : List κ} (h : g.RebuildsTo bp order recs g')
    (hg : g.Holds bp.toIdentity ks) (hks : ks.Nodup) (hrecs : (recs.map bp.key).Nodup) :
    Reports bp.toIdentity g g' ks (recs.map bp.key) where
  added_eq := by
    rw [h.added hrecs]
    simp only [hg.mem_byKey]
  removed_perm := h.removed_perm hg hks
  kept := fun r hr hkey => (h.known_mem ((hg.lookup_iff hks).mpr ⟨hr, rfl⟩)).mpr hkey
  keyAt_eq := fun r hr => h.keyAt_of_live (hg.all_live r hr)

section Reports

variable {idn : Identity κ ι α} {g g' : Roster κ ι α} {ks ks' : List κ}
  (hreports : Reports idn g g' ks ks') (hg : g.Holds idn ks) (hg' : g'.Holds idn ks')
include hreports

omit [DecidableEq ι] in
/-- An object is removed precisely when it was listed and its key is gone. -/
theorem Reports.mem_removed {r : Ref α} :
    r ∈ g'.removed ↔ r ∈ g.all ∧ g.keyAt idn r ∉ ks' := by
  rw [hreports.removed_perm.mem_iff, List.mem_filter, decide_eq_true_eq]

include hg in
/-- The keys of the removed objects are the held keys that are gone, each once
for every time it was held. -/
theorem Reports.map_removed_perm :
    (g'.removed.map (g'.keyAt idn)).Perm (ks.filter (fun k => k ∉ ks')) := by
  have hsame : g'.removed.map (g'.keyAt idn) = g'.removed.map (g.keyAt idn) :=
    List.map_congr_left fun r hr => hreports.keyAt_eq r (hreports.mem_removed.mp hr).1
  rw [hsame, ← hg.keys_eq, List.filter_map]
  exact hreports.removed_perm.map _

include hg' in
/-- The keys of the added objects are, in order, the new keys that were not held. -/
theorem Reports.map_added : g'.added.map (g'.keyAt idn) = ks'.filter (fun k => k ∉ ks) := by
  rw [hreports.added_eq, ← hg'.keys_eq, List.filter_map]
  rfl

include hg in
/-- A held key that is gone is reported removed once. -/
theorem Reports.count_removed (hks : ks.Nodup) {k : κ} (hk : k ∈ ks) (hgone : k ∉ ks') :
    (g'.removed.map (g'.keyAt idn)).count k = 1 := by
  rw [(hreports.map_removed_perm hg).count_eq]
  exact List.count_eq_one_of_mem (hks.filter _)
    (List.mem_filter.mpr ⟨hk, decide_eq_true hgone⟩)

include hg' in
/-- A new key that was not held is reported added once. -/
theorem Reports.count_added (hks' : ks'.Nodup) {k : κ} (hk : k ∈ ks') (hfresh : k ∉ ks) :
    (g'.added.map (g'.keyAt idn)).count k = 1 := by
  rw [hreports.map_added hg']
  exact List.count_eq_one_of_mem (hks'.filter _)
    (List.mem_filter.mpr ⟨hk, decide_eq_true hfresh⟩)

include hg hg' in
/-- **Replay.** Taking the removed keys out of the held ones and putting the added
keys in gives the keys held afterwards. -/
theorem Reports.replay :
    (ks.toFinset \ (g'.removed.map (g'.keyAt idn)).toFinset) ∪
      (g'.added.map (g'.keyAt idn)).toFinset = ks'.toFinset := by
  rw [List.toFinset_eq_of_perm _ _ (hreports.map_removed_perm hg), hreports.map_added hg']
  ext k
  simp only [Finset.mem_union, Finset.mem_sdiff, List.mem_toFinset, List.mem_filter,
    decide_eq_true_eq]
  tauto

end Reports

end Library.Roster
