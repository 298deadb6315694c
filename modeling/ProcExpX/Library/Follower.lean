import ProcExpX.Library.Report

/-!
# Lists that follow a roster

A client of a roster keeps a list of rows of its own. It appends what a rebuild
reports as added, and it may keep a removed object for a while. When a key that is
gone never comes back, such a list has one row for each object of the roster, and
its keys stay distinct whatever it keeps.
-/

namespace Library.Roster

variable {ρ κ ι α : Type} [DecidableEq κ] [DecidableEq ι]

/-- The rows follow the roster: they contain its objects, and their keys are
distinct and have been seen before. -/
structure FollowedBy (idn : Identity κ ι α) (g : Roster κ ι α) (rows : List (Ref α))
    (seen : List κ) : Prop where
  /-- The rows are allocated. -/
  live : ∀ r ∈ rows, g.heap.Live r
  /-- The keys of the rows are distinct. -/
  keys_nodup : (rows.map (g.keyAt idn)).Nodup
  /-- Every object of the roster has a row. -/
  listed : ∀ r ∈ g.all, r ∈ rows
  /-- The keys of the rows have been seen. -/
  seen_mem : ∀ r ∈ rows, g.keyAt idn r ∈ seen

section FollowedBy

variable {bp : Blueprint ρ κ ι α} {order : IterationOrder} {g g' : Roster κ ι α} {recs : List ρ}
  {ks seen : List κ} {rows rows' : List (Ref α)}

omit [DecidableEq κ] [DecidableEq ι] in
/-- No row is listed twice. -/
theorem FollowedBy.nodup {idn : Identity κ ι α} (hrows : g.FollowedBy idn rows seen) :
    rows.Nodup :=
  hrows.keys_nodup.of_map

omit [DecidableEq κ] [DecidableEq ι] in
/-- Rearranged rows follow as well. -/
theorem FollowedBy.perm {idn : Identity κ ι α} (hrows : g.FollowedBy idn rows seen)
    (hperm : rows'.Perm rows) : g.FollowedBy idn rows' seen where
  live r hr := hrows.live r (hperm.mem_iff.mp hr)
  keys_nodup := (hperm.map _).nodup_iff.mpr hrows.keys_nodup
  listed r hr := hperm.mem_iff.mpr (hrows.listed r hr)
  seen_mem r hr := hrows.seen_mem r (hperm.mem_iff.mp hr)

omit [DecidableEq κ] [DecidableEq ι] in
/-- A row that is not in the roster can be dropped. -/
theorem FollowedBy.drop {idn : Identity κ ι α} (hrows : g.FollowedBy idn rows seen)
    (hsub : rows'.Sublist rows) (hkept : ∀ r ∈ g.all, r ∈ rows → r ∈ rows') :
    g.FollowedBy idn rows' seen where
  live r hr := hrows.live r (hsub.mem hr)
  keys_nodup := hrows.keys_nodup.sublist (hsub.map _)
  listed r hr := hkept r hr (hrows.listed r hr)
  seen_mem r hr := hrows.seen_mem r (hsub.mem hr)

/-- The objects of a roster with distinct keys follow it. -/
theorem Holds.followedBy_all {idn : Identity κ ι α} (hg : g.Holds idn ks) (hks : ks.Nodup)
    (hseen : ∀ k ∈ ks, k ∈ seen) : g.FollowedBy idn g.all seen where
  live := hg.all_live
  keys_nodup := hg.keys_eq ▸ hks
  listed _ hr := hr
  seen_mem _ hr := hseen _ (hg.keyAt_mem hr)

/-- **Following a rebuild.** Appending the added objects keeps the rows following,
provided that a key seen before is only in the new snapshot if it was in the last. -/
theorem FollowedBy.extend (h : g.RebuildsTo bp order recs g') (hg : g.Holds bp.toIdentity ks)
    (hks : ks.Nodup) (hrecs : (recs.map bp.key).Nodup)
    (hback : ∀ k ∈ recs.map bp.key, k ∈ seen → k ∈ ks)
    (hrows : g.FollowedBy bp.toIdentity rows seen) :
    g'.FollowedBy bp.toIdentity (rows ++ g'.added) (seen ++ recs.map bp.key) := by
  have hg' := h.holds
  have hreports := h.reports hg hks hrecs
  have hkey : ∀ r ∈ rows, g'.keyAt bp.toIdentity r = g.keyAt bp.toIdentity r :=
    fun r hr => h.keyAt_of_live (hrows.live r hr)
  have hadded : ∀ r ∈ g'.added, r ∈ g'.all ∧ g'.keyAt bp.toIdentity r ∉ ks := by
    intro r hr
    rw [hreports.added_eq, List.mem_filter, decide_eq_true_eq] at hr
    exact hr
  refine ⟨?_, ?_, ?_, ?_⟩
  · intro r hr
    rcases List.mem_append.mp hr with hold | hnew
    · exact h.live (hrows.live r hold)
    · exact hg'.all_live r (hadded r hnew).1
  · rw [List.map_append, List.map_congr_left hkey]
    refine List.nodup_append.mpr ⟨hrows.keys_nodup, ?_, ?_⟩
    · rw [hreports.map_added hg']
      exact hrecs.filter _
    · intro k hold k' hnew heq
      obtain ⟨r, hr, rfl⟩ := List.mem_map.mp hold
      obtain ⟨r', hr', rfl⟩ := List.mem_map.mp hnew
      obtain ⟨hmem, hfresh⟩ := hadded r' hr'
      exact hfresh (hback _ (hg'.keyAt_mem hmem) (heq ▸ hrows.seen_mem r hr))
  · intro r hr
    by_cases hlive : g.heap.Live r
    · exact List.mem_append_left _ (hrows.listed r (h.mem_all_of_live hg hr hlive))
    · refine List.mem_append_right _ ?_
      rw [h.added_eq, List.mem_filter]
      exact ⟨hr, decide_eq_true hlive⟩
  · intro r hr
    rcases List.mem_append.mp hr with hold | hnew
    · rw [hkey r hold]
      exact List.mem_append_left _ (hrows.seen_mem r hold)
    · exact List.mem_append_right _ (hg'.keyAt_mem (hadded r hnew).1)

end FollowedBy

end Library.Roster
