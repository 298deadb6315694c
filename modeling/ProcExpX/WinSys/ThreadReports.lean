import ProcExpX.Library.Report
import ProcExpX.WinSys.Runs

/-!
# Reports of new and terminated threads

Threads are compared with those of the last threaded call. In a run of unfiltered
calls whose snapshots list distinct thread keys, every threaded call reports the
exact difference to that call, threads of processes that came or went included,
and a call that is not threaded leaves everything about threads as it is.
-/

namespace WinSys

open Library

/-- A thread object shows a record: it has the key of the record and the values
that an update from the record would write. -/
structure ThreadInfo.Shows (ti : ThreadInfo) (t : SystemExtendedThreadInformation) : Prop where
  /-- The key. -/
  key_eq : ti.key = t.key
  /-- The id. -/
  id_eq : ti.id = t.key.id
  /-- The values that change from snapshot to snapshot. -/
  update_eq : ti.update t = ti

/-- The thread report of a threaded call that leads from `m` to `m'`: `ts` are the
thread keys of the threaded call before, `records` are the thread records of the call. -/
structure Impl.ReportsThreads (m m' : Impl) (ts : List ProcessOrThreadKey)
    (records : List SystemExtendedThreadInformation) : Prop where
  /-- The thread list shows the records, one by one. -/
  shows : List.Forall₂ (fun t ti => (m'.thread ti).Shows t) records m'.threads
  /-- No object is listed twice. -/
  nodup : m'.threads.Nodup
  /-- The new threads are, in order, those with a key that the call before lacks. -/
  new_eq : m'.newThreads = m'.threads.filter (fun ti => (m'.thread ti).key ∉ ts)
  /-- The terminated threads are the former ones with a key that is gone. -/
  terminated_perm : m'.terminatedThreads.Perm
    (m.threads.filter (fun ti => (m.thread ti).key ∉ records.map (·.key)))
  /-- No terminated thread is reported twice. -/
  terminated_nodup : m'.terminatedThreads.Nodup
  /-- A surviving thread keeps its object. -/
  same : ∀ ti ∈ m.threads, (m.thread ti).key ∈ records.map (·.key) →
    ti ∈ m'.threads ∧ (m'.thread ti).key = (m.thread ti).key

/-- Nothing about threads differs between two states, the objects included. -/
structure Impl.SameThreads (m m' : Impl) : Prop where
  /-- The list. -/
  threads : m'.threads = m.threads
  /-- The new threads. -/
  newThreads : m'.newThreads = m.newThreads
  /-- The terminated threads. -/
  terminatedThreads : m'.terminatedThreads = m.terminatedThreads
  /-- The threads by id. -/
  threadsById : m'.threadsById = m.threadsById
  /-- The threads by key. -/
  threadsByKey : m'.threadsByKey = m.threadsByKey
  /-- The objects. -/
  thread : m'.thread = m.thread

/-- The keys of the thread records of processes with nonzero pid, in order. -/
def Call.processThreadKeys (c : Call) : List ProcessOrThreadKey :=
  c.processThreads.map (·.key)

/-- The thread keys of the last threaded snapshot of a run, none before any. -/
def lastThreadKeys (calls : List Call) : List ProcessOrThreadKey :=
  ((calls.filter (·.args.includeThreads)).getLast?.map Call.processThreadKeys).getD []

/-- After unfiltered calls all thread keys of the last threaded snapshot are held. -/
theorem heldThreadKeys_eq_lastThreadKeys {calls : List Call} (h : ∀ c ∈ calls, c.Unfiltered) :
    heldThreadKeys calls = lastThreadKeys calls := by
  unfold heldThreadKeys lastThreadKeys
  cases hlast : (calls.filter (·.args.includeThreads)).getLast? with
  | none => rfl
  | some c =>
    obtain ⟨hmem, hthreaded⟩ := List.mem_filter.mp (List.mem_of_getLast? hlast)
    rw [Option.map_some, Option.map_some, Call.threadKeys, (h c hmem).selectedThreads_eq hthreaded,
      Call.processThreadKeys]

/-- A call visits distinct thread keys when its snapshot lists distinct ones. -/
theorem Call.threadKeys_nodup {c : Call} (h : c.processThreadKeys.Nodup) : c.threadKeys.Nodup :=
  h.sublist (c.selectedThreads_sublist.map _)

section Rebuilt

variable {env : Environment} {m m' : Impl} {c : Call} {ks ts : List ProcessOrThreadKey}
  {recs : List (SystemProcessInformation × List (Ref ThreadInfo))}
  {thr : List (WString × SystemExtendedThreadInformation)} (h : m.Rebuilt env c m' recs thr)
include h

/-- A call that is not threaded changes nothing about threads. -/
theorem Impl.Rebuilt.sameThreads (hthreaded : c.args.includeThreads = false) :
    m.SameThreads m' := by
  have heq := h.threadRoster_unthreaded hthreaded
  exact ⟨congrArg Roster.all heq, congrArg Roster.added heq, congrArg Roster.removed heq,
    congrArg Roster.byId heq, congrArg Roster.byKey heq,
    funext fun ti => congrArg (fun g => g.heap.read ti) heq⟩

/-- After a threaded call the object at each position of the thread list was built
from the record at that position. -/
theorem Impl.Rebuilt.threads_built (hm : m.Keyed) (hthreaded : c.args.includeThreads = true) :
    List.Forall₂ (Intake.Built (c.threadBlueprint env m) m.threadsByKey m.threadHeap
      m'.threadHeap) thr m'.threads :=
  (h.threadSide hm hthreaded).entries

/-- After a threaded call the thread list shows the visited records. -/
theorem Impl.Rebuilt.threads_show (hm : m.Keyed) (hthreaded : c.args.includeThreads = true) :
    List.Forall₂ (fun t ti => (m'.thread ti).Shows t) c.selectedThreads m'.threads := by
  rw [← h.thr_eq, List.forall₂_map_left_iff]
  refine (h.threads_built hm hthreaded).imp fun rec ti hbuilt => ?_
  obtain ⟨hkey, hid⟩ := hbuilt.carries (h.threadSide hm hthreaded).keyed
  refine ⟨hkey, hid, ?_⟩
  rcases hbuilt with ⟨_, hread⟩ | ⟨_, hread⟩ <;>
  · rw [Impl.thread, hread]
    rfl

/-- **One threaded call.** From distinct held thread keys, a threaded call that
visits distinct thread keys makes the exact report. -/
theorem Impl.Rebuilt.reportsThreads (hm : m.Tracks ks ts) (hts : ts.Nodup)
    (hthreaded : c.args.includeThreads = true) (hc : c.threadKeys.Nodup) :
    m.ReportsThreads m' ts c.selectedThreads := by
  have hreports : m.threadRoster.Reports threadIdentity m'.threadRoster ts c.threadKeys := by
    rw [← h.map_thread_key]
    exact (h.threadSide hm.keyed hthreaded).reports hm.threads hts (h.map_thread_key ▸ hc)
  refine ⟨h.threads_show hm.keyed hthreaded, (h.tracks hm).threads.all_nodup, hreports.added_eq,
    hreports.removed_perm, ?_, ?_⟩
  · exact hreports.removed_perm.nodup_iff.mpr (hm.threads.all_nodup.filter _)
  · exact fun ti hti hkey => ⟨hreports.kept ti hti hkey, hreports.keyAt_eq ti hti⟩

end Rebuilt

section Run

variable (env : Environment) (rawProcesses : ℕ → ProcessInfo) (rawThreads : ℕ → ThreadInfo)

/-- **Exact thread reports.** In every run of successful unfiltered calls whose
snapshots list distinct thread keys, each threaded call reports the exact
difference to the last threaded call, and every other call leaves all of it alone. -/
theorem Impl.run_reportsThreads (calls : List Call) (c : Call)
    (hcalls : ∀ c' ∈ calls ++ [c], c'.Succeeds ∧ c'.Unfiltered ∧ c'.processThreadKeys.Nodup) :
    (c.args.includeThreads = true →
      (Impl.run env rawProcesses rawThreads calls).ReportsThreads
        (Impl.run env rawProcesses rawThreads (calls ++ [c])) (lastThreadKeys calls)
        c.processThreads) ∧
    (c.args.includeThreads = false →
      (Impl.run env rawProcesses rawThreads calls).SameThreads
        (Impl.run env rawProcesses rawThreads (calls ++ [c]))) := by
  obtain ⟨recs, thr, h⟩ := Impl.run_concat_rebuilt env rawProcesses rawThreads calls c
  refine ⟨fun hthreaded => ?_, h.sameThreads⟩
  have hheld : (heldThreadKeys calls).Nodup :=
    heldThreadKeys_forall List.nodup_nil fun c' hc' =>
      Call.threadKeys_nodup (hcalls c' (by simp [hc'])).2.2
  have hreports := h.reportsThreads (Impl.run_tracks env rawProcesses rawThreads calls) hheld
    hthreaded (Call.threadKeys_nodup (hcalls c (by simp)).2.2)
  rwa [heldThreadKeys_eq_lastThreadKeys fun c' hc' => (hcalls c' (by simp [hc'])).2.1,
    (hcalls c (by simp)).2.1.selectedThreads_eq hthreaded] at hreports

end Run

/-- A thread that ends together with its process is reported across an unthreaded
call in between. -/
theorem Impl.run_reportsThreads_dead_process :
    let env : Environment := ⟨4, false⟩
    let first := Call.answered (.enumProcessesAndThreads 0 0 0) 100
      ((SystemProcessInformation.bare 1 8).withThread (.bare 3 16 0)) [.bare 1 12]
    let second := Call.answered .enumProcesses 200 (.bare 1 12) []
    let third := Call.answered (.enumProcessesAndThreads 0 0 0) 300 (.bare 1 12) []
    let before := Impl.run env (fun _ => default) (fun _ => default) [first, second]
    let after := Impl.run env (fun _ => default) (fun _ => default) ([first, second] ++ [third])
    before.threads.length = 1 ∧ after.terminatedThreads.Perm before.threads ∧
      after.newThreads = [] := by
  intro env first second third before after
  have h := (Impl.run_reportsThreads env (fun _ => default) (fun _ => default) [first, second]
    third (by
      intro c hc
      have hcases : c = first ∨ c = second ∨ c = third := by simpa using hc
      rcases hcases with rfl | rfl | rfl
      · exact ⟨Call.answered_succeeds _ _ _ _, rfl, by decide⟩
      · exact ⟨Call.answered_succeeds _ _ _ _, rfl, by decide⟩
      · exact ⟨Call.answered_succeeds _ _ _ _, rfl, by decide⟩)).1 rfl
  have hempty : third.processThreads = [] := by decide
  have hthreads : after.threads = [] :=
    List.forall₂_nil_left_iff.mp (hempty ▸ h.shows)
  have hnew : after.newThreads = after.threads.filter _ := h.new_eq
  have hterminated : after.terminatedThreads.Perm (before.threads.filter _) := h.terminated_perm
  refine ⟨by decide, ?_, ?_⟩
  · simpa only [hempty, List.map_nil, List.not_mem_nil, not_false_eq_true, decide_true,
      List.filter_true] using hterminated
  · rw [hnew, hthreads, List.filter_nil]

end WinSys
