import ProcExpX.WinSys.RegionsTracker

/-!
# Reports of memory regions

What is listed as new is new with respect to all walks of the run, and what is listed as
deleted is listed once for each region that the walk returned before it met the key. The
two reports are therefore exact only for certain sequences of walks.
-/

namespace WinSys

open Library

namespace VMTracker

/-- The new regions are those of the current walk that the previous one did not have, each
once. -/
structure ReportsNew (t : VMTracker) (previous current : List MemoryRegionItem) : Prop where
  /-- The regions are listed in the order of the walk. -/
  sublist : t.newItems.Sublist current
  /-- No region is listed twice. -/
  nodup : (t.newItems.map (·.key)).Nodup
  /-- What is listed is current and not previous. -/
  mem_iff : ∀ k, k ∈ t.newItems.map (·.key) ↔
    k ∈ current.map (·.key) ∧ k ∉ previous.map (·.key)

/-- The deleted regions are those of the previous walk that the current one does not have,
each once. -/
structure ReportsDeleted (t : VMTracker) (previous current : List MemoryRegionItem) : Prop where
  /-- No region is listed twice. -/
  nodup : (t.deletedItems.map (·.key)).Nodup
  /-- What is listed is previous and not current. -/
  mem_iff : ∀ k, k ∈ t.deletedItems.map (·.key) ↔
    k ∈ previous.map (·.key) ∧ k ∉ current.map (·.key)

/-- After a walk that returned some region, a call reports as new what no walk of the run
has returned before. -/
theorem Tracks.reportsNew {t : VMTracker} {seen latest : List MemoryRegionItem}
    (ht : t.Tracks true seen latest) (hlatest : latest ≠ []) (c : RegionCall) :
    (t.enumRegions c).1.ReportsNew seen c.walk := by
  rw [← ht.items_eq] at hlatest
  obtain ⟨e, hcall, hcompared⟩ := enumRegions_compared ht.isValid_eq hlatest ht.own c
  have hfound := Sweep.Found.visitAll ht.own c.walk
  have hsublist := Sweep.visitAll_added_sublist (·.key) t.set c.walk
  rw [← hcompared.sweep_eq] at hfound hsublist
  rw [hcall]
  refine ⟨hsublist, hfound.added_nodup, fun k => (hfound.mem_added k).trans ?_⟩
  rw [ht.mem_set]

/-- **New regions in one call.** After a walk that returned some region, the report is
exact precisely when no region comes back that the latest walk did not return. -/
theorem Tracks.reportsNew_iff {t : VMTracker} {seen latest : List MemoryRegionItem}
    (ht : t.Tracks true seen latest) (hlatest : latest ≠ [])
    (hseen : ∀ k ∈ latest.map (·.key), k ∈ seen.map (·.key)) (c : RegionCall) :
    (t.enumRegions c).1.ReportsNew latest c.walk ↔
      ∀ k ∈ seen.map (·.key), k ∈ c.walk.map (·.key) → k ∈ latest.map (·.key) := by
  obtain ⟨hsublist, hnodup, hmem⟩ := ht.reportsNew hlatest c
  constructor
  · intro h k hk hcurrent
    by_contra hlatest
    exact ((hmem k).mp ((h.mem_iff k).mpr ⟨hcurrent, hlatest⟩)).2 hk
  · intro h
    refine ⟨hsublist, hnodup, fun k => (hmem k).trans ?_⟩
    exact and_congr_right fun hcurrent =>
      not_congr ⟨fun hk => h k hk hcurrent, hseen k⟩

/-- After a walk that returned some region, a call lists a key seen in the run as deleted
once for each region before the first one with the key. -/
theorem Tracks.count_deleted {t : VMTracker} {seen latest : List MemoryRegionItem}
    (ht : t.Tracks true seen latest) (hlatest : latest ≠ []) (c : RegionCall) (k : RegionKey) :
    ((t.enumRegions c).1.deletedItems.map (·.key)).count k =
      if k ∈ seen.map (·.key) then (c.walk.map (·.key)).idxOf k else 0 := by
  rw [← ht.items_eq] at hlatest
  obtain ⟨e, hcall, hcompared⟩ := enumRegions_compared ht.isValid_eq hlatest ht.own c
  rw [hcall, hcompared.count_deleted]
  exact if_congr (ht.mem_set k) rfl rfl

/-- After a walk that returned nothing, a call lists nothing as deleted. -/
theorem Tracks.deletedItems_eq_nil {t : VMTracker} {isValid : Bool}
    {seen : List MemoryRegionItem} (ht : t.Tracks isValid seen []) (c : RegionCall) :
    (t.enumRegions c).1.deletedItems = [] := by
  cases isValid with
  | false =>
    rw [VMTracker.enumRegions, ht.isValid_eq, ht.eq_opened rfl]
    rfl
  | true => rw [enumRegions_first ht.isValid_eq ht.items_eq]

/-- A call reports the deleted regions precisely when it lists a key once if it is previous
and not current, and never otherwise. -/
theorem reportsDeleted_iff_count {t : VMTracker} {previous current : List MemoryRegionItem} :
    t.ReportsDeleted previous current ↔ ∀ k, (t.deletedItems.map (·.key)).count k =
      if k ∈ previous.map (·.key) ∧ k ∉ current.map (·.key) then 1 else 0 := by
  constructor
  · intro h k
    rw [List.Nodup.count h.nodup]
    exact if_congr (h.mem_iff k) rfl rfl
  · intro h
    constructor
    · refine List.nodup_iff_count_le_one.mpr fun k => ?_
      rw [h k]
      split <;> omega
    · intro k
      rw [← List.count_pos_iff, h k]
      split
      · rename_i hk
        exact iff_of_true Nat.one_pos hk
      · rename_i hk
        exact iff_of_false (lt_irrefl 0) hk

/-- How the regions seen so far must lie to the previous and the current walk for the
deleted ones to be listed once and no others. -/
structure ListedOnce (seen previous current : List MemoryRegionItem) : Prop where
  /-- If a region went in between, the walk returns one region. -/
  gone : ∀ k ∈ seen.map (·.key), k ∈ previous.map (·.key) → k ∉ current.map (·.key) →
    current.length = 1
  /-- Any other region seen so far is the first one of the walk. -/
  other : ∀ k ∈ seen.map (·.key), k ∉ previous.map (·.key) ∨ k ∈ current.map (·.key) →
    current = [] ∨ current.head?.map (·.key) = some k

/-- A key is listed before no other precisely when it is the first or there is none. -/
private theorem idxOf_eq_zero_iff {walk : List MemoryRegionItem} {k : RegionKey} :
    (walk.map (·.key)).idxOf k = 0 ↔ walk = [] ∨ walk.head?.map (·.key) = some k := by
  cases walk with
  | nil => simp
  | cons mi walk =>
    rw [List.map_cons]
    by_cases hk : mi.key = k
    · simp [hk]
    · simp [List.idxOf_cons_ne _ hk, hk]

/-- **Deleted regions in one call.** After a walk that returned some region, the report is
exact precisely when every region seen so far is listed once if it went and is the first
of the walk otherwise. -/
theorem Tracks.reportsDeleted_iff {t : VMTracker} {seen latest : List MemoryRegionItem}
    (ht : t.Tracks true seen latest) (hlatest : latest ≠ [])
    (hseen : ∀ k ∈ latest.map (·.key), k ∈ seen.map (·.key)) (c : RegionCall) :
    (t.enumRegions c).1.ReportsDeleted latest c.walk ↔ ListedOnce seen latest c.walk := by
  simp only [reportsDeleted_iff_count, ht.count_deleted hlatest]
  constructor
  · intro h
    constructor
    · intro k hk hprevious hcurrent
      have hcount := h k
      rwa [if_pos hk, if_pos ⟨hprevious, hcurrent⟩, List.idxOf_eq_length_iff.mpr hcurrent,
        List.length_map] at hcount
    · intro k hk hother
      have hcount := h k
      rw [if_pos hk, if_neg (by tauto)] at hcount
      exact idxOf_eq_zero_iff.mp hcount
  · intro h k
    by_cases hk : k ∈ seen.map (·.key)
    · rw [if_pos hk]
      by_cases hgone : k ∈ latest.map (·.key) ∧ k ∉ c.walk.map (·.key)
      · rw [if_pos hgone, List.idxOf_eq_length_iff.mpr hgone.2, List.length_map]
        exact h.gone k hk hgone.1 hgone.2
      · rw [if_neg hgone]
        exact idxOf_eq_zero_iff.mpr (h.other k hk (by tauto))
    · rw [if_neg hk, if_neg fun hgone => hk (hseen k hgone.1)]

/-- The regions of the latest walk have been seen. -/
theorem latest_subset {isValid : Bool} {calls : List RegionCall} {k : RegionKey}
    (hk : k ∈ (latest isValid calls).map (·.key)) :
    k ∈ (calls.flatMap (regions isValid)).map (·.key) := by
  induction calls using List.reverseRecOn with
  | nil => exact absurd hk List.not_mem_nil
  | append_singleton calls c ih =>
    rw [latest_concat] at hk
    rw [List.flatMap_append, List.flatMap_singleton, List.map_append]
    exact List.mem_append_right _ hk

/-- **When deleted regions are reported exactly.** In every run, all calls report the
regions of the walk before that the current walk does not have, each once, precisely when
at every call that follows a walk with some region, the regions seen so far lie so that
the loop lists each of those once. -/
theorem run_reportsDeleted_iff (isValid : Bool) (calls : List RegionCall) :
    AtEach (fun before c => (run isValid (before ++ [c])).ReportsDeleted (latest isValid before)
      (regions isValid c)) calls ↔
    AtEach (fun before c => latest isValid before = [] ∨ ListedOnce
      (before.flatMap (regions isValid)) (latest isValid before) (regions isValid c)) calls := by
  refine AtEach.congr (R := fun _ _ => True) (fun _ _ _ _ => trivial) fun before c _ => ?_
  have ht := run_tracks isValid before
  rw [run_concat]
  by_cases hlatest : latest isValid before = []
  · rw [hlatest] at ht ⊢
    refine iff_of_true ⟨?_, fun k => ?_⟩ (Or.inl rfl) <;> rw [ht.deletedItems_eq_nil c]
    · exact List.nodup_nil
    · simp
  · cases isValid with
    | false =>
      refine absurd ?_ hlatest
      rw [← ht.items_eq, ht.eq_opened rfl]
      rfl
    | true =>
      rw [or_iff_right hlatest]
      exact ht.reportsDeleted_iff hlatest (fun k => latest_subset) c

/-- If each walk has every key of the walk before, the latest walk has every key seen. -/
private theorem subset_latest {isValid : Bool} {calls : List RegionCall}
    (hkept : AtEach (fun before c => ∀ k ∈ (latest isValid before).map (·.key),
      k ∈ (regions isValid c).map (·.key)) calls) {k : RegionKey}
    (hk : k ∈ (calls.flatMap (regions isValid)).map (·.key)) :
    k ∈ (latest isValid calls).map (·.key) := by
  induction calls using List.reverseRecOn with
  | nil => exact absurd hk List.not_mem_nil
  | append_singleton calls c ih =>
    obtain ⟨hbefore, hlast⟩ := AtEach.concat_iff.mp hkept
    rw [latest_concat]
    rw [List.flatMap_append, List.flatMap_singleton, List.map_append, List.mem_append] at hk
    exact hk.elim (fun hk => hlast k (ih hbefore hk)) id

/-- **When new regions are reported exactly.** In every run on a handle whose walks all
return some region, all calls but the first report the regions that the walk before did
not have and all calls leave the set with the keys of their walk, precisely when no walk
lacks a key of the walk before. -/
theorem run_followsWalks_iff (calls : List RegionCall) (hwalks : ∀ c ∈ calls, c.walk ≠ []) :
    AtEach (fun before c =>
      (before ≠ [] → (run true (before ++ [c])).ReportsNew (latest true before) c.walk) ∧
        ∀ k, k ∈ (run true (before ++ [c])).set ↔ k ∈ c.walk.map (·.key)) calls ↔
    AtEach (fun before c => ∀ k ∈ (latest true before).map (·.key), k ∈ c.walk.map (·.key))
      calls := by
  induction calls using List.reverseRecOn with
  | nil => exact iff_of_true AtEach.nil AtEach.nil
  | append_singleton calls c ih =>
    rw [AtEach.concat_iff, AtEach.concat_iff, ih fun c' hc' => hwalks c' (by simp [hc'])]
    refine and_congr_right fun hkept => ?_
    have hseen : ∀ k, k ∈ (calls.flatMap (regions true)).map (·.key) ↔
        k ∈ (latest true calls).map (·.key) := fun k => ⟨subset_latest hkept, latest_subset⟩
    have hset : ∀ k, k ∈ (run true (calls ++ [c])).set ↔
        k ∈ (latest true calls).map (·.key) ∨ k ∈ c.walk.map (·.key) := by
      intro k
      rw [(run_tracks true (calls ++ [c])).mem_set, List.flatMap_append, List.flatMap_singleton,
        List.map_append, List.mem_append, hseen]
      rfl
    constructor
    · exact fun h k hk => (h.2 k).mp ((hset k).mpr (Or.inl hk))
    · intro hkeeps
      refine ⟨fun hcalls => ?_, fun k => (hset k).trans (or_iff_right_of_imp (hkeeps k))⟩
      have hlatest : latest true calls ≠ [] := by
        obtain ⟨before, c', rfl⟩ := (List.eq_nil_or_concat calls).resolve_left hcalls
        rw [List.concat_eq_append, latest_concat]
        exact hwalks c' (by simp)
      rw [run_concat, (run_tracks true calls).reportsNew_iff hlatest (fun k => latest_subset)]
      exact fun k hk _ => (hseen k).mp hk

end VMTracker

/-- The memory of a process whose walk returns the given regions. -/
def ProcessMemory.returning : List MemoryRegionItem → ProcessMemory
  | [] => .gone
  | mi :: regions => .mapped (fun _ => some mi) (fun _ => returning regions)

/-- Any regions can be what a walk returns. -/
@[simp] theorem ProcessMemory.walkFrom_returning (regions : List MemoryRegionItem)
    (address : UInt64) : (returning regions).walkFrom address = regions := by
  induction regions generalizing address with
  | nil => rfl
  | cons mi regions ih =>
    rw [returning, walkFrom]
    exact congrArg (mi :: ·) (ih _)

/-- A call whose walk returns the given regions. -/
def RegionCall.returning (regions : List MemoryRegionItem) : RegionCall :=
  { memory := .returning regions, order := .stored }

/-- A committed region of one page. -/
def MemoryRegionItem.page (baseAddress : UInt64) : MemoryRegionItem :=
  { (default : MemoryRegionItem) with
    baseAddress := baseAddress, regionSize := 4096, state := 4096, protect := 4 }

namespace VMTracker

/-- A second page is mapped and reported new. -/
theorem run_followsWalks_iff_growing :
    let c₁ := RegionCall.returning [.page 4096]
    let c₂ := RegionCall.returning [.page 4096, .page 8192]
    (run true ([c₁] ++ [c₂])).ReportsNew c₁.walk c₂.walk ∧
      (run true ([c₁] ++ [c₂])).newItems.map (·.key) = [(MemoryRegionItem.page 8192).key] := by
  intro c₁ c₂
  have hkept : AtEach (fun before c => ∀ k ∈ (latest true before).map (·.key),
      k ∈ c.walk.map (·.key)) [c₁, c₂] := AtEach.pair_iff.mpr ⟨by decide, by decide⟩
  have h := (run_followsWalks_iff [c₁, c₂] (by decide)).mpr hkept [c₁] c₂ [] rfl
  exact ⟨h.1 (List.cons_ne_nil _ _), by decide⟩

/-- A page that is freed and then mapped again is not reported new. -/
theorem remapped_page_missed :
    let c₁ := RegionCall.returning [.page 4096, .page 8192]
    let c₂ := RegionCall.returning [.page 4096]
    (∀ c ∈ [c₁, c₂, c₁], c.walk ≠ []) ∧ (run true ([c₁, c₂] ++ [c₁])).newItems.isEmpty = true ∧
      ¬ AtEach (fun before c =>
        (before ≠ [] → (run true (before ++ [c])).ReportsNew (latest true before) c.walk) ∧
          ∀ k, k ∈ (run true (before ++ [c])).set ↔ k ∈ c.walk.map (·.key)) [c₁, c₂, c₁] := by
  intro c₁ c₂
  refine ⟨by decide, by decide, fun h => ?_⟩
  have hnew := (h [c₁, c₂] c₁ [] rfl).1 (List.cons_ne_nil _ _)
  have hmem := (hnew.mem_iff (MemoryRegionItem.page 8192).key).mpr (by decide)
  exact absurd hmem (by decide)

/-- A page that is there in two walks is reported deleted. -/
theorem present_page_reported_deleted :
    let c := RegionCall.returning [.page 4096, .page 8192]
    (run true ([c] ++ [c])).deletedItems.map (·.key) = [(MemoryRegionItem.page 8192).key] ∧
      ¬ AtEach (fun before c => (run true (before ++ [c])).ReportsDeleted (latest true before)
        (regions true c)) [c, c] := by
  intro c
  have hlisted : (run true ([c] ++ [c])).deletedItems.map (·.key) =
      [(MemoryRegionItem.page 8192).key] := by decide
  refine ⟨hlisted, fun h => ?_⟩
  have hmem := ((h [c] c [] rfl).mem_iff (MemoryRegionItem.page 8192).key).mp
    (by rw [hlisted]; exact List.mem_singleton_self _)
  exact absurd hmem.2 (by decide)

end VMTracker

end WinSys
