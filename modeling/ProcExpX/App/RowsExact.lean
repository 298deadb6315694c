import ProcExpX.App.PurgeLoop

/-!
# The rows after each purge loop

In every run of frames over snapshots whose keys identify processes, the rows are
exact after each purge loop: one for each process of the manager, and beyond these
only processes that have been reported terminated and are still highlighted.
-/

namespace ProcExpX.Session

open Library WinSys

/-- The rows and the records beside them show the manager and what it gave up. -/
structure RowsExact (host : Host) (s : Session) : Prop where
  /-- The keys of the rows are distinct. -/
  keys_nodup : (s.view.processes.map s.view.key).Nodup
  /-- A process of the manager has exactly one row, which is the object of the manager. -/
  one_row : ∀ pi ∈ s.view.pm.processes,
    s.view.processes.filter (fun row => s.view.key row = s.view.key pi) = [pi]
  /-- Every other row has been reported terminated, and its `Update` has not returned
  true yet. -/
  others : ∀ row ∈ s.view.processes, row ∉ s.view.pm.processes →
    Reported host s.history.calls row ∧ (row, true) ∉ s.history.updates
  /-- `Update` has not returned true for a process of the manager. -/
  not_returned : ∀ pi ∈ s.view.pm.processes, (pi, true) ∉ s.history.updates
  /-- There is one record for each row. -/
  records_perm : s.view.processesEx.keys.Perm (s.view.processes.map s.view.key)
  /-- The record of a row belongs to the object of the row. -/
  record_own : ∀ row ∈ s.view.processes,
    ∃ px, s.view.processesEx.lookup (s.view.key row) = some px ∧ px.pi = row

variable {host : Host} {s : Session}

/-- A view in step with a record beside each row is exact. -/
theorem InStep.rowsExact (h : s.InStep host) (hrecords : ∀ row ∈ s.view.processes,
    ∃ px, s.view.processesEx.lookup (s.view.key row) = some px) : s.RowsExact host := by
  refine ⟨h.keys_nodup, ?_, ?_, ?_, ?_, ?_⟩
  · intro pi hpi
    rw [← List.perm_singleton, List.perm_ext_iff_of_nodup (h.follows.nodup.filter _)
      (List.nodup_singleton pi)]
    intro row
    rw [List.mem_filter, decide_eq_true_eq, List.mem_singleton]
    constructor
    · exact fun hrow => h.key_inj hrow.1 (h.listed hpi) hrow.2
    · rintro rfl
      exact ⟨h.listed hpi, rfl⟩
  · exact fun row hrow hgone => ⟨h.reported row hrow hgone, h.unreturned row hrow⟩
  · exact fun pi hpi => h.unreturned pi (h.listed hpi)
  · rw [List.perm_ext_iff_of_nodup s.view.processesEx.keys_nodup h.keys_nodup]
    intro k
    rw [← AList.mem_keys, ← AList.lookup_isSome]
    constructor
    · intro hk
      obtain ⟨px, hpx⟩ := Option.isSome_iff_exists.mp hk
      obtain ⟨hrow, hkey⟩ := h.beside k px hpx
      exact hkey ▸ List.mem_map_of_mem hrow
    · intro hk
      obtain ⟨row, hrow, rfl⟩ := List.mem_map.mp hk
      exact Option.isSome_iff_exists.mpr (hrecords row hrow)
  · intro row hrow
    obtain ⟨px, hpx⟩ := hrecords row hrow
    exact ⟨px, hpx, h.beside.owner_eq h.keys_nodup hrow hpx⟩

/-- The session when the purge loop of a frame starts. -/
def beforePurge (host : Host) (s : Session) (f : Frame) : Session :=
  (s.buildToolBar f.toolBar).updateTable host f

/-- The session when the purge loop of a frame has ended. -/
def afterPurge (host : Host) (s : Session) (f : Frame) : Session :=
  ((s.beforePurge host f).purge host).session

/-- A frame with an open table ends quietly after its purge loop. -/
theorem quiet_buildWindow (host : Host) (s : Session) {f : Frame} (hopen : f.tableOpen = true) :
    (s.afterPurge host f).Quiet (s.buildWindow host f) := by
  rw [buildWindow, buildTable, if_pos hopen]
  exact Quiet.drawTable host f _

/-- A frame with a closed table is quiet. -/
theorem quiet_buildWindow_closed (host : Host) (s : Session) {f : Frame}
    (hopen : f.tableOpen = false) : s.Quiet (s.buildWindow host f) := by
  rw [buildWindow, buildTable, if_neg (by simp [hopen])]
  exact Quiet.buildToolBar s f.toolBar

/-- The first part of a frame keeps the rows. -/
theorem mem_beforePurge (host : Host) (s : Session) (f : Frame) {row : Ref ProcessInfo}
    (hrow : row ∈ s.view.processes) : row ∈ (s.beforePurge host f).view.processes := by
  have hbar := (Quiet.buildToolBar s f.toolBar).view.perm.mem_iff.mpr hrow
  rcases updateTable_cases host (s.buildToolBar f.toolBar) f with hquiet | ⟨s₁, hquiet, heq⟩
  · exact hquiet.view.perm.mem_iff.mpr hbar
  · rw [beforePurge, heq]
    exact mem_refresh host s₁ f.refresh (hquiet.view.perm.mem_iff.mpr hbar)

/-- The first part of a frame only adds to the record of calls. -/
theorem beforePurge_calls (host : Host) (s : Session) (f : Frame) :
    ∃ more, (s.beforePurge host f).history.calls = s.history.calls ++ more := by
  have hbar := (Quiet.buildToolBar s f.toolBar).calls_eq
  rcases updateTable_cases host (s.buildToolBar f.toolBar) f with hquiet | ⟨s₁, hquiet, heq⟩
  · exact ⟨[], by rw [beforePurge, hquiet.calls_eq, hbar, List.append_nil]⟩
  · exact ⟨_, by rw [beforePurge, heq, refresh_calls, hquiet.calls_eq, hbar]⟩

/-- **The purge loop** of a frame leaves a view in step, and takes out only rows for
which `Update` returned true. -/
theorem InStep.afterPurge (h : s.InStep host) (f : Frame)
    (hkeys : KeysIdentify (s.beforePurge host f).history.calls) :
    (s.afterPurge host f).InStep host ∧ (s.afterPurge host f).RowsExact host ∧
      Purge.Leads ⟨s.beforePurge host f, 0, []⟩ ((s.beforePurge host f).purge host) := by
  have hbefore : (s.beforePurge host f).InStep host :=
    (h.quiet (Quiet.buildToolBar s f.toolBar)).updateTable f hkeys
  obtain ⟨hafter, hleads, hrecords⟩ := hbefore.purge
  exact ⟨hafter, hafter.rowsExact hrecords, hleads⟩

section Run

variable (host : Host) (readings : ℕ → UInt64)

/-- One more frame of a run. -/
theorem run_concat (frames : List Frame) (f : Frame) :
    run host readings (frames ++ [f]) = (run host readings frames).buildWindow host f := by
  simp [run]

/-- The calls of a frame are those made before its purge loop. -/
theorem run_concat_calls (frames : List Frame) {f : Frame} (hopen : f.tableOpen = true) :
    (run host readings (frames ++ [f])).history.calls =
      ((run host readings frames).beforePurge host f).history.calls := by
  rw [run_concat, (quiet_buildWindow host _ hopen).calls_eq]
  exact purge_calls host _

/-- **Every reachable view is in step**, as long as keys identify processes. -/
theorem run_inStep (frames : List Frame)
    (hkeys : KeysIdentify (run host readings frames).history.calls) :
    (run host readings frames).InStep host := by
  induction frames using List.reverseRecOn with
  | nil => exact InStep.initial host readings
  | append_singleton frames f ih =>
    cases hopen : f.tableOpen with
    | true =>
      rw [run_concat_calls host readings frames hopen] at hkeys
      obtain ⟨more, hmore⟩ := beforePurge_calls host (run host readings frames) f
      have hstep := (ih (hmore ▸ hkeys).of_append).afterPurge f hkeys
      rw [run_concat]
      exact hstep.1.quiet (quiet_buildWindow host _ hopen)
    | false =>
      have hquiet := quiet_buildWindow_closed host (run host readings frames) hopen
      rw [run_concat, hquiet.calls_eq] at hkeys
      rw [run_concat]
      exact (ih hkeys).quiet hquiet

/-- **Exact rows.** In every run of frames whose snapshots list a process once and
never list a key again after its process has gone, the rows are exact after each
purge loop, and a row is only removed after `Update` returned true for it. -/
theorem run_rowsExact (frames : List Frame) (f : Frame)
    (hkeys : KeysIdentify (run host readings (frames ++ [f])).history.calls) :
    (f.tableOpen = true → ((run host readings frames).afterPurge host f).RowsExact host ∧
      ∀ row ∈ ((run host readings frames).beforePurge host f).view.processes,
        row ∈ ((run host readings frames).afterPurge host f).view.processes ∨
          (row, true) ∈ ((run host readings frames).afterPurge host f).history.updates) ∧
    ∀ row ∈ (run host readings frames).view.processes,
      row ∈ (run host readings (frames ++ [f])).view.processes ∨
        (row, true) ∈ (run host readings (frames ++ [f])).history.updates := by
  cases hopen : f.tableOpen with
  | true =>
    have hquiet := quiet_buildWindow host (run host readings frames) hopen
    rw [run_concat_calls host readings frames hopen] at hkeys
    obtain ⟨more, hmore⟩ := beforePurge_calls host (run host readings frames) f
    have hstep := run_inStep host readings frames (hmore ▸ hkeys).of_append
    obtain ⟨_, hexact, hleads⟩ := hstep.afterPurge f hkeys
    refine ⟨fun _ => ⟨hexact, hleads.removed⟩, fun row hrow => ?_⟩
    rw [run_concat, hquiet.updates_eq]
    exact (hleads.removed row (mem_beforePurge host _ f hrow)).imp_left hquiet.view.perm.mem_iff.mpr
  | false =>
    have hquiet := quiet_buildWindow_closed host (run host readings frames) hopen
    refine ⟨fun htrue => absurd htrue Bool.false_ne_true, fun row hrow => Or.inl ?_⟩
    rw [run_concat]
    exact hquiet.view.perm.mem_iff.mpr hrow

end Run

/-- One process goes and its pid is given to another one while a third stays. -/
theorem run_rowsExact_reused_pid :
    let first := (Call.answered .enumProcesses 100 (.bare 1 8) [.bare 1 12]).toEnumWorld
    let second := (Call.answered .enumProcesses 200 (.bare 1 12) [.bare 2 8]).toEnumWorld
    let readings := fun n => 1000 * (UInt64.ofNat n + 1)
    ((run .plain readings [.idle first]).afterPurge .plain (.idle second)).RowsExact .plain := by
  intro first second readings
  have hkeys : KeysIdentify
      (run .plain readings ([.idle first] ++ [.idle second])).history.calls := by
    have hcalls : (run .plain readings ([.idle first] ++ [.idle second])).history.calls.map
        Call.rawKeys = [[⟨1, 8⟩, ⟨1, 12⟩], [⟨1, 12⟩, ⟨2, 8⟩]] := by decide +kernel
    exact .of_two hcalls (by decide) (by decide)
  exact ((run_rowsExact .plain readings [.idle first] (.idle second) hkeys).1 rfl).1

end ProcExpX.Session
