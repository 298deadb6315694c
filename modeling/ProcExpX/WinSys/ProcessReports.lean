import ProcExpX.Library.Report
import ProcExpX.WinSys.Runs

/-!
# Reports of new and terminated processes

A run of unfiltered calls over snapshots with distinct keys reports the exact
difference between each snapshot and the one before it, and a process that is in
both keeps its object. Whether a call is threaded makes no difference. A pid that
is reused is told apart by its creation time.
-/

namespace WinSys

open Library

/-- A process object shows a record: it has the key of the record and the values
that an update from the record would write. -/
structure ProcessInfo.Shows (pi : ProcessInfo) (p : SystemProcessInformation) : Prop where
  /-- The key. -/
  key_eq : pi.key = p.key
  /-- The id. -/
  id_eq : pi.id = p.key.id
  /-- The values that change from snapshot to snapshot. -/
  update_eq : pi.update p = pi

/-- The process report of a call that leads from `m` to `m'`: `ks` are the keys of
the snapshot before, `records` is the snapshot of the call. -/
structure Impl.ReportsProcesses (m m' : Impl) (ks : List ProcessOrThreadKey)
    (records : List SystemProcessInformation) : Prop where
  /-- The process list shows the snapshot, record by record. -/
  shows : List.Forall₂ (fun p pi => (m'.process pi).Shows p) records m'.processes
  /-- No object is listed twice. -/
  nodup : m'.processes.Nodup
  /-- The new processes are, in order, those with a key that the snapshot before lacks. -/
  new_eq : m'.newProcesses = m'.processes.filter (fun pi => (m'.process pi).key ∉ ks)
  /-- The terminated processes are the former ones with a key that is gone. -/
  terminated_perm : m'.terminatedProcesses.Perm
    (m.processes.filter (fun pi => (m.process pi).key ∉ records.map (·.key)))
  /-- No terminated process is reported twice. -/
  terminated_nodup : m'.terminatedProcesses.Nodup
  /-- A key in both snapshots is represented by the same object. -/
  same : ∀ pi ∈ m.processes, (m.process pi).key ∈ records.map (·.key) →
    pi ∈ m'.processes ∧ (m'.process pi).key = (m.process pi).key
  /-- A pid that goes over to a process with another creation time is one
  termination and one new process. -/
  reuse : ∀ k ∈ ks, ∀ k' ∈ records.map (·.key), k.id = k'.id → k.created ≠ k'.created →
    k ∉ records.map (·.key) → k' ∉ ks →
    (m'.terminatedProcesses.map fun pi => (m'.process pi).key).count k = 1 ∧
      (m'.newProcesses.map fun pi => (m'.process pi).key).count k' = 1

section Rebuilt

variable {env : Environment} {m m' : Impl} {c : Call} {ks ts : List ProcessOrThreadKey}
  {recs : List (SystemProcessInformation × List (Ref ThreadInfo))}
  {thr : List (WString × SystemExtendedThreadInformation)} (h : m.Rebuilt env c m' recs thr)
include h

/-- After a call the object at each position of the process list was built from
the record at that position. -/
theorem Impl.Rebuilt.processes_built (hm : m.Keyed) :
    List.Forall₂ (Intake.Built (c.processBlueprint env m) m.processesByKey m.processHeap
      m'.processHeap) recs m'.processes :=
  (h.processSide hm).entries

/-- After a call the process list shows the visited records. -/
theorem Impl.Rebuilt.processes_show (hm : m.Keyed) :
    List.Forall₂ (fun p pi => (m'.process pi).Shows p) c.selected m'.processes := by
  rw [← h.recs_eq, List.forall₂_map_left_iff]
  refine (h.processes_built hm).imp fun rec pi hbuilt => ?_
  obtain ⟨hkey, hid⟩ := hbuilt.carries (h.processSide hm).keyed
  refine ⟨hkey, hid, ?_⟩
  rcases hbuilt with ⟨_, hread⟩ | ⟨_, hread⟩ <;>
  · rw [Impl.process, hread]
    rfl

/-- The process side of a call reports the exact difference. -/
theorem Impl.Rebuilt.process_reports (hm : m.Tracks ks ts) (hks : ks.Nodup)
    (hc : c.keys.Nodup) :
    m.processRoster.Reports processIdentity m'.processRoster ks c.keys := by
  rw [← h.map_key]
  exact (h.processSide hm.keyed).reports hm.processes hks (h.map_key ▸ hc)

/-- **One call.** From distinct held keys, a call that visits distinct keys makes
the exact report. -/
theorem Impl.Rebuilt.reportsProcesses (hm : m.Tracks ks ts) (hks : ks.Nodup)
    (hc : c.keys.Nodup) : m.ReportsProcesses m' ks c.selected := by
  have hreports := h.process_reports hm hks hc
  have hafter := (h.tracks hm).processes
  refine ⟨h.processes_show hm.keyed, hafter.all_nodup, hreports.added_eq, hreports.removed_perm,
    ?_, ?_, ?_⟩
  · exact hreports.removed_perm.nodup_iff.mpr (hm.processes.all_nodup.filter _)
  · exact fun pi hpi hkey => ⟨hreports.kept pi hpi hkey, hreports.keyAt_eq pi hpi⟩
  · intro k hk k' hk' _ _ hgone hfresh
    exact ⟨hreports.count_removed hm.processes hks hk hgone,
      hreports.count_added hafter hc hk' hfresh⟩

end Rebuilt

/-- A client that follows the reports of a run: the state and the set of keys that
it believes to be alive. Terminated keys are taken out, then new ones put in. -/
def Impl.observe (env : Environment) (s : Impl × Finset ProcessOrThreadKey) (c : Call) :
    Impl × Finset ProcessOrThreadKey :=
  let m := s.1.step env c
  (m, (s.2 \ (m.terminatedProcesses.map fun pi => (m.process pi).key).toFinset) ∪
    (m.newProcesses.map fun pi => (m.process pi).key).toFinset)

/-- The keys that a client believes to be alive after following a run from the start. -/
def Impl.replay (env : Environment) (rawProcesses : ℕ → ProcessInfo)
    (rawThreads : ℕ → ThreadInfo) (calls : List Call) : Finset ProcessOrThreadKey :=
  (calls.foldl (Impl.observe env) (Impl.initial rawProcesses rawThreads, ∅)).2

section Run

variable (env : Environment) (rawProcesses : ℕ → ProcessInfo) (rawThreads : ℕ → ThreadInfo)

/-- The state that a client sees is the one of the run. -/
private theorem Impl.observe_fst (calls : List Call) (s : Impl × Finset ProcessOrThreadKey) :
    (calls.foldl (Impl.observe env) s).1 = calls.foldl (Impl.step env) s.1 := by
  induction calls generalizing s with
  | nil => rfl
  | cons c calls ih => exact ih _

/-- Following one more call. -/
theorem Impl.replay_concat (calls : List Call) (c : Call) :
    Impl.replay env rawProcesses rawThreads (calls ++ [c]) =
      (Impl.observe env (Impl.run env rawProcesses rawThreads calls,
        Impl.replay env rawProcesses rawThreads calls) c).2 := by
  rw [Impl.replay, List.foldl_append, List.foldl_cons, List.foldl_nil, Impl.run, Impl.replay]
  rw [← Impl.observe_fst env calls (Impl.initial rawProcesses rawThreads, ∅)]

/-- Following the reports of a run that visits distinct keys gives the held keys. -/
theorem Impl.replay_eq_heldKeys {calls : List Call} (hdistinct : ∀ c ∈ calls, c.keys.Nodup) :
    Impl.replay env rawProcesses rawThreads calls = (heldKeys calls).toFinset := by
  induction calls using List.reverseRecOn with
  | nil => rfl
  | append_singleton calls c ih =>
    have hbefore : ∀ c' ∈ calls, c'.keys.Nodup := fun c' hc' => hdistinct c' (by simp [hc'])
    have hm := Impl.run_tracks env rawProcesses rawThreads calls
    obtain ⟨recs, thr, h⟩ := Impl.run_concat_rebuilt env rawProcesses rawThreads calls c
    have hreports :=
      h.process_reports hm (heldKeys_forall List.nodup_nil hbefore) (hdistinct c (by simp))
    have hreplay := hreports.replay hm.processes (h.tracks hm).processes
    rw [Impl.run_concat] at hreplay
    rw [Impl.replay_concat, ih hbefore, heldKeys_concat]
    exact hreplay

/-- **Exact process reports.** In every run of successful unfiltered calls over
snapshots with distinct keys, each call reports the exact difference to the
snapshot before, and following the reports gives the keys of the process list. -/
theorem Impl.run_reportsProcesses (calls : List Call) (c : Call)
    (hcalls : ∀ c' ∈ calls ++ [c], c'.Succeeds ∧ c'.Unfiltered ∧ c'.rawKeys.Nodup) :
    (Impl.run env rawProcesses rawThreads calls).ReportsProcesses
        (Impl.run env rawProcesses rawThreads (calls ++ [c])) (lastRawKeys calls) c.records ∧
      Impl.replay env rawProcesses rawThreads (calls ++ [c]) =
        ((Impl.run env rawProcesses rawThreads (calls ++ [c])).processes.map fun pi =>
          ((Impl.run env rawProcesses rawThreads (calls ++ [c])).process pi).key).toFinset := by
  have hdistinct : ∀ c' ∈ calls ++ [c], c'.keys.Nodup := fun c' hc' =>
    (hcalls c' hc').2.1.keys_eq ▸ (hcalls c' hc').2.2
  have hbefore : ∀ c' ∈ calls, c'.keys.Nodup := fun c' hc' => hdistinct c' (by simp [hc'])
  have hm := Impl.run_tracks env rawProcesses rawThreads calls
  constructor
  · obtain ⟨recs, thr, h⟩ := Impl.run_concat_rebuilt env rawProcesses rawThreads calls c
    have hreports :=
      h.reportsProcesses hm (heldKeys_forall List.nodup_nil hbefore) (hdistinct c (by simp))
    rwa [heldKeys_eq_lastRawKeys fun c' hc' => (hcalls c' (by simp [hc'])).2.1,
      (hcalls c (by simp)).2.1.selected_eq] at hreports
  · have hafter := (Impl.run_tracks env rawProcesses rawThreads (calls ++ [c])).processes
    rw [Impl.replay_eq_heldKeys env rawProcesses rawThreads hdistinct, ← hafter.keys_eq]
    rfl

end Run

/-- A pid given to a new process between an unthreaded and a threaded call is one
termination and one new process. -/
theorem Impl.run_reportsProcesses_reused_pid :
    let env : Environment := ⟨4, false⟩
    let first := Call.answered .enumProcesses 100 (.bare 1 8) [.bare 1 12]
    let second := Call.answered (.enumProcessesAndThreads 0 0 0) 200 (.bare 2 8) [.bare 1 12]
    let after := Impl.run env (fun _ => default) (fun _ => default) ([first] ++ [second])
    (after.terminatedProcesses.map fun pi => (after.process pi).key).count ⟨1, 8⟩ = 1 ∧
      (after.newProcesses.map fun pi => (after.process pi).key).count ⟨2, 8⟩ = 1 := by
  intro env first second after
  have h := Impl.run_reportsProcesses env (fun _ => default) (fun _ => default) [first] second
    (by
      intro c hc
      rcases List.mem_append.mp hc with hc | hc <;> rw [List.mem_singleton.mp hc]
      · exact ⟨Call.answered_succeeds _ _ _ _, rfl, by decide⟩
      · exact ⟨Call.answered_succeeds _ _ _ _, rfl, by decide⟩)
  exact h.1.reuse ⟨1, 8⟩ (by decide) ⟨2, 8⟩ (by decide) rfl (by decide) (by decide) (by decide)

end WinSys
