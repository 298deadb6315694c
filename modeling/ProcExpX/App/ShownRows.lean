import ProcExpX.App.FailedUpdates
import ProcExpX.Library.SharedEntries
import ProcExpX.WinSys.ProcessReports

/-!
# No process without a row

When enumerations fail and keys come back, old and new rows share records, and the
purge loop may take out the wrong one of them. It still never takes out the last row of a
process that runs, and it leaves no record without a row.
-/

namespace ProcExpX

open Library WinSys

/-- The keys in use and the records are represented by rows. -/
def ProcessesView.Lists (v : ProcessesView) (used : ProcessOrThreadKey → Prop) : Prop :=
  Represented v.key ProcessInfoEx.isTerminated used v.processes v.processesEx

/-- A rearrangement makes records for rows only, and none of them is marked. -/
theorem ProcessesView.Lists.rearranged {v v' : ProcessesView} {used : ProcessOrThreadKey → Prop}
    (h : v.Lists used) (hv : v.Rearranged v') : v'.Lists used := by
  have hrows : Represented v'.key ProcessInfoEx.isTerminated used v'.processes v.processesEx := by
    rw [hv.key_eq]
    exact Represented.perm h hv.perm
  refine ⟨fun k px hlookup => ?_, hrows.used_row, fun k px hk hlookup hmark => ?_⟩
  · rcases hv.records k with hsame | ⟨_, px', _, hrow, hkey, _⟩
    · exact hrows.entry_row k px (hsame ▸ hlookup)
    · rw [List.count_pos_iff, ← hkey, hv.key_eq]
      exact List.mem_map_of_mem (hv.perm.mem_iff.mpr hrow)
  · rcases hv.records k with hsame | ⟨_, px', hpx', _, _, hunmarked⟩
    · exact hrows.spare_row k px hk (hsame ▸ hlookup) hmark
    · obtain rfl : px = px' := Option.some.inj (hlookup.symm.trans hpx')
      exact absurd (hmark.symm.trans hunmarked) (by decide)

namespace Session

variable {host : Host} {s s' : Session} {used : ProcessOrThreadKey → Prop}

/-- The mark that the record of a row shows is one that is there. -/
theorem marked_of_infoEx (host : Host) (v : ProcessesView) {pi : Ref ProcessInfo}
    (hmark : (v.infoEx host pi).isTerminated = true) :
    v.processesEx.lookup (v.key pi) = some (v.infoEx host pi) := by
  unfold ProcessesView.infoEx at hmark ⊢
  cases hlookup : v.processesEx.lookup (v.key pi) with
  | none =>
    rw [hlookup] at hmark
    cases hmark
  | some px => rfl

/-- The first loop body of `DoUpdate` appends a row. -/
theorem addNew_rows (host : Host) (s : Session) (pi : Ref ProcessInfo) :
    (s.addNew host pi).view.pm = s.view.pm ∧
      (s.addNew host pi).view.processes = s.view.processes ++ [pi] := by
  simp only [addNew, ProcessesView.getProcessInfoEx_eq]
  exact ⟨rfl, rfl⟩

/-- The second loop body of `DoUpdate` leaves the rows alone. -/
theorem markTerminated_rows (host : Host) (s : Session) (pi : Ref ProcessInfo) :
    (s.markTerminated host pi).view.pm = s.view.pm ∧
      (s.markTerminated host pi).view.processes = s.view.processes := by
  simp only [markTerminated, ProcessesView.getProcessInfoEx_eq]
  exact ⟨rfl, rfl⟩

/-- The first loop body of `DoUpdate` adds a row, and its key is in use from then on. -/
theorem lists_addNew (host : Host) (hs : s.view.Lists used) (pi : Ref ProcessInfo) :
    (s.addNew host pi).view.Lists fun k => used k ∨ k = s.view.key pi := by
  obtain ⟨hpm, hrows⟩ := addNew_rows host s pi
  let v := { s.view with processes := s.view.processes ++ [pi] }
  have hlookup := v.lookup_set_getProcessInfoEx host pi
    ((v.getProcessInfoEx host pi).1.new 2000 s.clock).1
  unfold ProcessesView.Lists
  rw [ProcessesView.key_congr hpm, hrows]
  refine Represented.add hs (fun hmark => ⟨s.view.infoEx host pi, ?_⟩) hlookup
  rw [ProcessInfoEx.new_isTerminated, ProcessesView.getProcessInfoEx_eq] at hmark
  exact ⟨marked_of_infoEx host s.view hmark, hmark⟩

/-- The second loop body of `DoUpdate` marks the record of a key that is used no more. -/
theorem lists_markTerminated (host : Host) (hs : s.view.Lists used) {pi : Ref ProcessInfo}
    (hpi : used (s.view.key pi)) :
    (s.markTerminated host pi).view.Lists fun k => used k ∧ k ≠ s.view.key pi := by
  obtain ⟨hpm, hrows⟩ := markTerminated_rows host s pi
  have hlookup := s.view.lookup_set_getProcessInfoEx host pi
    ((s.view.getProcessInfoEx host pi).1.term 2000 s.clock).1
  unfold ProcessesView.Lists
  rw [ProcessesView.key_congr hpm, hrows]
  exact Represented.retire hs hpi hlookup

/-- **The first loop** of `DoUpdate` leaves the manager alone, and lists the keys listed before
and those of the processes it adds. -/
theorem lists_foldl_addNew (host : Host) (pis : List (Ref ProcessInfo)) (hs : s.view.Lists used) :
    (pis.foldl (addNew host) s).view.pm = s.view.pm ∧
      (pis.foldl (addNew host) s).view.Lists fun k => used k ∨ k ∈ pis.map s.view.key := by
  induction pis generalizing s used with
  | nil => exact ⟨rfl, Represented.mono hs fun k hk => hk.resolve_right List.not_mem_nil⟩
  | cons pi pis ih =>
    obtain ⟨hpm, hlists⟩ := ih (lists_addNew host hs pi)
    have hfirst := (addNew_rows host s pi).1
    rw [ProcessesView.key_congr hfirst] at hlists
    refine ⟨hpm.trans hfirst, Represented.mono hlists fun k hk => ?_⟩
    rw [List.map_cons, List.mem_cons] at hk
    tauto

/-- **The second loop** of `DoUpdate`, for processes with distinct keys in use. -/
theorem lists_foldl_markTerminated (host : Host) (pis : List (Ref ProcessInfo))
    (hs : s.view.Lists used) (hpis : ∀ k ∈ pis.map s.view.key, used k)
    (hkeys : (pis.map s.view.key).Nodup) :
    (pis.foldl (markTerminated host) s).view.Lists fun k =>
      used k ∧ k ∉ pis.map s.view.key := by
  induction pis generalizing s used with
  | nil => exact Represented.mono hs fun k hk => hk.1
  | cons pi pis ih =>
    rw [List.map_cons, List.forall_mem_cons] at hpis
    rw [List.map_cons, List.nodup_cons] at hkeys
    have hkey := ProcessesView.key_congr (markTerminated_rows host s pi).1
    have hrest := ih (lists_markTerminated host hs hpis.1)
      (by
        rw [hkey]
        exact fun k hk => ⟨hpis.2 k hk, fun heq => hkeys.1 (heq ▸ hk)⟩)
      (by
        rw [hkey]
        exact hkeys.2)
    rw [hkey] at hrest
    refine Represented.mono hrest fun k hk => ?_
    rw [List.map_cons, List.mem_cons] at hk
    tauto

/-- **Both loops.** The keys of the new processes are in use afterwards, and those of
the terminated ones are not. -/
theorem lists_doUpdate (host : Host) (hs : s.view.Lists used)
    (hterminated : ∀ k ∈ s.view.pm.terminatedProcesses.map s.view.key, used k)
    (hkeys : (s.view.pm.terminatedProcesses.map s.view.key).Nodup) :
    (s.doUpdate host).view.Lists fun k =>
      (used k ∨ k ∈ s.view.pm.newProcesses.map s.view.key) ∧
        k ∉ s.view.pm.terminatedProcesses.map s.view.key := by
  obtain ⟨hpm, hadded⟩ := lists_foldl_addNew host s.view.pm.newProcesses hs
  have hkey := ProcessesView.key_congr hpm
  unfold doUpdate
  dsimp only
  rw [hpm]
  have hmarked := lists_foldl_markTerminated host s.view.pm.terminatedProcesses hadded
    (by
      rw [hkey]
      exact fun k hk => Or.inl (hterminated k hk))
    (by
      rw [hkey]
      exact hkeys)
  rwa [hkey] at hmarked

/-- **The invariant.** Every key of the last enumeration has a row, and so has every
record. -/
structure Displays (host : Host) (s : Session) : Prop where
  /-- The view made all calls of the manager. -/
  pm_eq : s.view.pm = Impl.run host.env host.rawProcesses host.rawThreads s.history.calls
  /-- It asked for all processes. -/
  unfiltered : ∀ c ∈ s.history.calls, c.Unfiltered
  /-- The rows are allocated. -/
  live : ∀ pi ∈ s.view.processes, s.view.pm.processHeap.Live pi
  /-- The keys of the last enumeration have rows. -/
  lists : s.view.Lists (· ∈ lastRawKeys s.history.calls)

namespace Displays

/-- At first there are neither processes nor records. -/
theorem initial (host : Host) (readings : ℕ → UInt64) :
    (Session.initial host readings).Displays host where
  pm_eq := rfl
  unfiltered := by simp [Session.initial]
  live := by simp [Session.initial]
  lists := Represented.fresh (fun k hk => absurd hk List.not_mem_nil) fun k => rfl

/-- Steps that keep the rows keep the invariant. -/
theorem quiet (h : s.Displays host) (hq : s.Quiet s') : s'.Displays host := by
  refine ⟨?_, ?_, ?_, ?_⟩
  · rw [hq.view.pm_eq, h.pm_eq, hq.calls_eq]
  · rw [hq.calls_eq]
    exact h.unfiltered
  · rw [hq.view.pm_eq]
    exact fun pi hpi => h.live pi (hq.view.perm.mem_iff.mp hpi)
  · rw [hq.calls_eq]
    exact h.lists.rearranged hq.view

section Update

variable (h : s.Displays host) (world : EnumWorld)
  (honce : ∀ c ∈ s.history.calls ++ [enumCall world], c.rawKeys.Nodup)
include h honce

/-- The keys that an enumeration reports new are those that were not listed before, and the keys
it reports terminated are those listed no more. -/
theorem reported :
    (s.enumProcesses host world).view.pm.newProcesses.map
        (s.enumProcesses host world).view.key =
      (enumCall world).rawKeys.filter (· ∉ lastRawKeys s.history.calls) ∧
    ((s.enumProcesses host world).view.pm.terminatedProcesses.map
        (s.enumProcesses host world).view.key).Perm
      ((lastRawKeys s.history.calls).filter (· ∉ (enumCall world).rawKeys)) ∧
    (s.enumProcesses host world).view.pm.processes.map (s.enumProcesses host world).view.key =
      (enumCall world).rawKeys := by
  have hm := Impl.run_tracks host.env host.rawProcesses host.rawThreads s.history.calls
  rw [← h.pm_eq, heldKeys_eq_lastRawKeys h.unfiltered] at hm
  have hall : Call.Unfiltered (enumCall world) := rfl
  have hks := lastRawKeys_nodup fun c hc => honce c (List.mem_append_left _ hc)
  obtain ⟨recs, thr, hrebuilt⟩ := Impl.step_rebuilt host.env hm.keyed (enumCall world)
  have hreports := hrebuilt.process_reports hm hks (hall.keys_eq ▸ honce _ (by simp))
  have hafter := (hrebuilt.tracks hm).processes
  rw [hall.keys_eq] at hreports hafter
  exact ⟨hreports.map_added hafter, hreports.map_removed_perm hm.processes, hafter.keys_eq⟩

/-- **An update** after an enumeration takes over its rows so that the invariant holds. -/
theorem takeRows : ((s.enumProcesses host world).takeRows host
    s.view.processes.isEmpty).Displays host := by
  have hlist := relisted_enumProcesses world h.pm_eq h.unfiltered honce
  obtain ⟨hnew, hterminated, hlisted⟩ := h.reported world honce
  have hhistory := takeRows_history host (s.enumProcesses host world) s.view.processes.isEmpty
  have hlast : lastRawKeys (s.enumProcesses host world).history.calls = (enumCall world).rawKeys :=
    by simp [lastRawKeys, enumProcesses]
  cases hempty : s.view.processes.isEmpty with
  | true =>
    have hnone : ∀ k, s.view.processesEx.lookup k = none := by
      intro k
      cases hlookup : s.view.processesEx.lookup k with
      | none => rfl
      | some px =>
        have hrow := h.lists.entry_row k px hlookup
        rw [List.isEmpty_iff.mp hempty] at hrow
        exact absurd hrow (Nat.lt_irrefl 0)
    refine ⟨hlist.pm_eq, hlist.unfiltered, hlist.all_live, Represented.fresh ?_ hnone⟩
    intro k hk
    exact hlisted.symm ▸ hlast ▸ hk
  | false =>
    rw [hempty] at hhistory
    have hpm := doUpdate_pm host (s.enumProcesses host world)
    have hrows := doUpdate_processes host (s.enumProcesses host world)
    have hbefore : (s.enumProcesses host world).view.Lists (· ∈ lastRawKeys s.history.calls) :=
      Represented.congr_key h.lists fun pi hpi => hlist.key_eq (h.live pi hpi)
    refine ⟨?_, ?_, ?_, ?_⟩
    · rw [hhistory]
      exact hpm.trans hlist.pm_eq
    · rw [hhistory]
      exact hlist.unfiltered
    · show ∀ pi ∈ ((s.enumProcesses host world).doUpdate host).view.processes,
        ((s.enumProcesses host world).doUpdate host).view.pm.processHeap.Live pi
      rw [hpm, hrows]
      intro pi hpi
      rcases List.mem_append.mp hpi with hold | hadded
      · exact hlist.live (h.live pi hold)
      · exact hlist.all_live pi ((hlist.mem_new pi).mp hadded).1
    · rw [hhistory, hlast]
      have hused : ∀ k ∈ (s.enumProcesses host world).view.pm.terminatedProcesses.map
          (s.enumProcesses host world).view.key, k ∈ lastRawKeys s.history.calls :=
        fun k hk => List.mem_of_mem_filter (hterminated.mem_iff.mp hk)
      have hkeys := lastRawKeys_nodup fun c hc => honce c (List.mem_append_left _ hc)
      have hmerged := lists_doUpdate host hbefore hused
        (hterminated.nodup_iff.mpr (hkeys.filter _))
      refine Represented.mono hmerged fun k hk => ?_
      rw [hnew, hterminated.mem_iff, List.mem_filter, List.mem_filter, decide_eq_true_eq,
        decide_eq_true_eq]
      tauto

/-- **A refresh** enumerates, takes over the rows and sorts them, and keeps the invariant. -/
theorem refresh (r : Refresh) (hworld : r.world = world) : (s.refresh host r).Displays host := by
  subst hworld
  exact (h.takeRows r.world honce).quiet (.refresh host s r)

end Update

/-- **Before the purge loop** the invariant holds, whether or not there has been a refresh. -/
theorem updateTable (h : s.Displays host) (f : Frame)
    (honce : ∀ c ∈ (s.updateTable host f).history.calls, c.rawKeys.Nodup) :
    (s.updateTable host f).Displays host := by
  rcases updateTable_cases host s f with hquiet | ⟨s₁, hquiet, heq⟩
  · exact h.quiet hquiet
  · rw [heq, refresh_calls] at honce
    rw [heq]
    exact (h.quiet hquiet).refresh f.refresh.world honce f.refresh rfl

section Purge

variable {l l' : Purge} {pi : Ref ProcessInfo} (h : l.session.Displays host)
include h

/-- **Taking a row out** with its record leaves a row for every key in use. -/
theorem erases (hpi : l.row = some pi) (he : l.Erases host l' pi) : l'.session.Displays host := by
  have hlookup := marked_of_infoEx host l.session.view he.marked
  refine ⟨?_, ?_, ?_, ?_⟩
  · rw [he.pm_eq, h.pm_eq, he.calls_eq]
  · rw [he.calls_eq]
    exact h.unfiltered
  · rw [he.pm_eq, he.processes_eq]
    exact fun row hrow => h.live row (List.mem_of_mem_eraseIdx hrow)
  · unfold ProcessesView.Lists
    rw [he.calls_eq, he.key_eq, he.processes_eq]
    exact Represented.remove h.lists hpi hlookup he.marked he.lookup_eq

/-- **Keeping a row** marks nothing. -/
theorem keeps (hpi : l.row = some pi) (hk : l.Keeps host l' pi) : l'.session.Displays host := by
  obtain ⟨px, _, hsame, hlookup⟩ := hk.lookup_eq
  refine ⟨?_, ?_, ?_, ?_⟩
  · rw [hk.pm_eq, h.pm_eq, hk.calls_eq]
  · rw [hk.calls_eq]
    exact h.unfiltered
  · rw [hk.pm_eq, hk.processes_eq]
    exact h.live
  · unfold ProcessesView.Lists
    rw [hk.calls_eq, hk.key_eq, hk.processes_eq]
    refine Represented.write h.lists (List.mem_of_getElem? hpi) (fun hmark => ?_) hlookup
    rw [hsame] at hmark
    exact ⟨_, marked_of_infoEx host l.session.view hmark, hmark⟩

end Purge

/-- **The purge loop** keeps the invariant, whichever rows it takes out. -/
theorem purge (h : s.Displays host) : (s.purge host).session.Displays host :=
  (purge_rounds host s (P := fun l => l.session.Displays host) h
    (fun _ _ _ _ hpi hl _ he => hl.erases hpi he) fun _ _ _ _ hpi hl _ hk => hl.keeps hpi hk).1

/-- **One frame** keeps the invariant, if no snapshot lists a key twice. -/
theorem buildWindow (h : s.Displays host) (f : Frame)
    (honce : ∀ c ∈ (s.buildWindow host f).history.calls, c.rawKeys.Nodup) :
    (s.buildWindow host f).Displays host := by
  cases hopen : f.tableOpen with
  | true =>
    have hquiet := quiet_buildWindow host s hopen
    rw [hquiet.calls_eq, afterPurge, purge_calls] at honce
    exact (((h.quiet (Quiet.buildToolBar _ f.toolBar)).updateTable f honce).purge).quiet hquiet
  | false => exact h.quiet (quiet_buildWindow_closed host s hopen)

end Displays

/-- A frame adds calls to the history and forgets none. -/
theorem buildWindow_calls (host : Host) (s : Session) (f : Frame) :
    ∃ more, (s.buildWindow host f).history.calls = s.history.calls ++ more := by
  cases hopen : f.tableOpen with
  | true =>
    rw [(quiet_buildWindow host s hopen).calls_eq, afterPurge, purge_calls]
    exact beforePurge_calls host s f
  | false =>
    rw [(quiet_buildWindow_closed host s hopen).calls_eq]
    exact ⟨[], (List.append_nil _).symm⟩

/-- Every process of the last enumeration has a row with its key, and so has every record,
so that there are no more records than rows. -/
structure NothingHidden (s : Session) : Prop where
  /-- The processes have rows. -/
  process_row : ∀ k ∈ lastRawKeys s.history.calls, ∃ row ∈ s.view.processes, s.view.key row = k
  /-- The records have rows. -/
  record_row : ∀ k px, s.view.processesEx.lookup k = some px →
    ∃ row ∈ s.view.processes, s.view.key row = k
  /-- The records are bounded. -/
  records_le : s.view.processesEx.entries.length ≤ s.view.processes.length

/-- In a view that keeps the invariant nothing is hidden. -/
theorem Displays.nothingHidden (h : s.Displays host) : s.NothingHidden := by
  have hrow : ∀ k px, s.view.processesEx.lookup k = some px →
      k ∈ s.view.processes.map s.view.key :=
    fun k px hlookup => List.count_pos_iff.mp (h.lists.entry_row k px hlookup)
  refine ⟨fun k hk => ?_, fun k px hlookup => List.mem_map.mp (hrow k px hlookup), ?_⟩
  · exact List.mem_map.mp (List.count_pos_iff.mp (h.lists.used_row k hk))
  · have hsub : s.view.processesEx.keys ⊆ s.view.processes.map s.view.key := by
      intro k hk
      obtain ⟨px, hlookup⟩ := Option.isSome_iff_exists.mp (AList.lookup_isSome.mpr hk)
      exact hrow k px hlookup
    have hlength := (List.subperm_of_subset s.view.processesEx.nodupKeys hsub).length_le
    have hkeys : s.view.processesEx.entries.keys.length = s.view.processesEx.entries.length :=
      List.length_map _
    rwa [List.length_map, hkeys] at hlength

/-- Every reachable view keeps the invariant. -/
theorem run_displays (host : Host) (readings : ℕ → UInt64) (frames : List Frame)
    (honce : ∀ c ∈ (run host readings frames).history.calls, c.rawKeys.Nodup) :
    (run host readings frames).Displays host := by
  induction frames using List.reverseRecOn with
  | nil => exact .initial host readings
  | append_singleton frames f ih =>
    rw [run_concat] at honce ⊢
    obtain ⟨more, hmore⟩ := buildWindow_calls host (run host readings frames) f
    have hbefore := ih fun c hc => honce c (hmore ▸ List.mem_append_left _ hc)
    exact hbefore.buildWindow f honce

/-- **Nothing is hidden.** In every run of frames whose enumerations list each process
once, however many of them fail and whatever keys come back, every process of the last
enumeration has a row, and no record is without a row. -/
theorem run_nothingHidden (host : Host) (readings : ℕ → UInt64) (frames : List Frame)
    (honce : ∀ c ∈ (run host readings frames).history.calls, c.rawKeys.Nodup) :
    (run host readings frames).NothingHidden :=
  (run_displays host readings frames honce).nothingHidden

/-- The process that is listed again after two failed enumerations has a row. -/
theorem run_nothingHidden_two_failures :
    let idle := Frame.idle (Call.answered .enumProcesses 100 (.bare 1 8) []).toEnumWorld
    let first := { idle with toolBar := { idle.toolBar with interval := some .msec500 } }
    let failed := Frame.idle (Call.failed .enumProcesses 150).toEnumWorld
    let s := run .plain (fun n => 500 * (UInt64.ofNat n + 2))
      [first, failed, idle, failed, idle, idle]
    lastRawKeys s.history.calls = [⟨1, 8⟩] ∧ s.NothingHidden := by
  intro idle first failed s
  exact ⟨by decide +kernel, run_nothingHidden .plain _ _ (by decide +kernel)⟩

end Session

end ProcExpX
