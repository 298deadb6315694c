import ProcExpX.Library.AtEach
import ProcExpX.WinSys.Runs

/-!
# Calls with a pid filter

The filter decides which records enter the new tables, but what is left in the old
tables counts as terminated whether or not its record was skipped. This file gives
the exact condition, call by call, under which a run never reports a living process
or thread as terminated, nor a process of the snapshot before as new.
-/

namespace WinSys

open Library

/-- The reports after call `c`, made after `calls`, are not false: nothing in the raw
snapshot is reported terminated and no process in the one before is reported new. -/
structure Impl.ReportsNothingFalse (m : Impl) (calls : List Call) (c : Call) : Prop where
  /-- Terminated processes are not in the snapshot. -/
  terminated : ∀ pi ∈ m.terminatedProcesses, (m.process pi).key ∉ c.rawKeys
  /-- New processes are not in the snapshot before. -/
  new : ∀ pi ∈ m.newProcesses, (m.process pi).key ∉ lastRawKeys calls
  /-- Terminated threads of a threaded call are not in the snapshot. -/
  terminatedThreads : c.args.includeThreads = true →
    ∀ ti ∈ m.terminatedThreads, (m.thread ti).key ∉ c.rawThreadKeys

/-- The filter of call `c` agrees with the filters before it: what is held and still
there passes it, and a process that passes it and was there is held. -/
structure Call.FilterAgrees (calls : List Call) (c : Call) : Prop where
  /-- Held processes that are still there are visited. -/
  visits : ∀ k ∈ heldKeys calls, k ∈ c.rawKeys → k ∈ c.keys
  /-- Visited processes that were there are held, and visited once. -/
  held : ∀ k ∈ c.keys, k ∈ lastRawKeys calls → k ∈ heldKeys calls ∧ c.keys.count k ≤ 1
  /-- Held threads that are still there are visited by a threaded call. -/
  visitsThreads : c.args.includeThreads = true →
    ∀ k ∈ heldThreadKeys calls, k ∈ c.rawThreadKeys → k ∈ c.threadKeys

section Rebuilt

variable {env : Environment} {m m' : Impl} {c : Call} {ks ts : List ProcessOrThreadKey}
  {recs : List (SystemProcessInformation × List (Ref ThreadInfo))}
  {thr : List (WString × SystemExtendedThreadInformation)} (h : m.Rebuilt env c m' recs thr)
include h

/-- The terminated processes avoid a set of keys precisely when every held key of the
set is visited. -/
theorem Impl.Rebuilt.terminated_avoid_iff (hm : m.Tracks ks ts) (S : List ProcessOrThreadKey) :
    (∀ pi ∈ m'.terminatedProcesses, (m'.process pi).key ∉ S) ↔ ∀ k ∈ ks, k ∈ S → k ∈ c.keys := by
  rw [← h.map_key]
  exact (h.processSide hm.keyed).removed_avoid_iff hm.processes { k | k ∈ S }

/-- The new processes avoid a set of keys precisely when every visited key of the set
is held and visited once. -/
theorem Impl.Rebuilt.new_avoid_iff (hm : m.Tracks ks ts) (S : List ProcessOrThreadKey) :
    (∀ pi ∈ m'.newProcesses, (m'.process pi).key ∉ S) ↔
      ∀ k ∈ c.keys, k ∈ S → k ∈ ks ∧ c.keys.count k ≤ 1 := by
  rw [← h.map_key]
  exact (h.processSide hm.keyed).added_avoid_iff hm.processes { k | k ∈ S }

/-- The terminated threads of a threaded call avoid a set of keys precisely when
every held thread key of the set is visited. -/
theorem Impl.Rebuilt.terminatedThreads_avoid_iff (hm : m.Tracks ks ts)
    (hthreaded : c.args.includeThreads = true) (S : List ProcessOrThreadKey) :
    (∀ ti ∈ m'.terminatedThreads, (m'.thread ti).key ∉ S) ↔
      ∀ k ∈ ts, k ∈ S → k ∈ c.threadKeys := by
  rw [← h.map_thread_key]
  exact (h.threadSide hm.keyed hthreaded).removed_avoid_iff hm.threads { k | k ∈ S }

end Rebuilt

section Run

variable (env : Environment) (rawProcesses : ℕ → ProcessInfo) (rawThreads : ℕ → ThreadInfo)

/-- One call reports nothing false precisely when its filter agrees. -/
theorem Impl.run_concat_reportsNothingFalse_iff (calls : List Call) (c : Call) :
    (Impl.run env rawProcesses rawThreads (calls ++ [c])).ReportsNothingFalse calls c ↔
      c.FilterAgrees calls := by
  have hm := Impl.run_tracks env rawProcesses rawThreads calls
  obtain ⟨recs, thr, h⟩ := Impl.run_concat_rebuilt env rawProcesses rawThreads calls c
  constructor
  · exact fun hr => ⟨(h.terminated_avoid_iff hm _).mp hr.terminated,
      (h.new_avoid_iff hm _).mp hr.new,
      fun ht => (h.terminatedThreads_avoid_iff hm ht _).mp (hr.terminatedThreads ht)⟩
  · exact fun hf => ⟨(h.terminated_avoid_iff hm _).mpr hf.visits,
      (h.new_avoid_iff hm _).mpr hf.held,
      fun ht => (h.terminatedThreads_avoid_iff hm ht _).mpr (hf.visitsThreads ht)⟩

/-- **When filters are harmless.** In every run, no call reports anything false
precisely when the filter of every call agrees with the filters before it. -/
theorem Impl.run_reportsNothingFalse_iff (calls : List Call) :
    AtEach (fun before c =>
      (Impl.run env rawProcesses rawThreads (before ++ [c])).ReportsNothingFalse before c) calls ↔
      AtEach (fun before c => c.FilterAgrees before) calls := by
  simp only [AtEach, Impl.run_concat_reportsNothingFalse_iff]

end Run

/-- A call for pid 8 after a call for all processes reports pid 12 terminated although
it is in the snapshot. -/
theorem Impl.filtered_call_reports_living_terminated :
    ∃ env rawProcesses rawThreads, ∃ first second : Call,
      first.Succeeds ∧ second.Succeeds ∧
      ¬ (Impl.run env rawProcesses rawThreads ([first] ++ [second])).ReportsNothingFalse
        [first] second := by
  refine ⟨⟨4, false⟩, fun _ => default, fun _ => default,
    .answered .enumProcesses 100 (.bare 1 8) [.bare 1 12],
    .answered (.enumProcessesAndThreads 8 0 0) 200 (.bare 1 8) [.bare 1 12],
    Call.answered_succeeds _ _ _ _, Call.answered_succeeds _ _ _ _, fun h => ?_⟩
  rw [Impl.run_concat_reportsNothingFalse_iff] at h
  exact absurd (h.visits ⟨1, 12⟩ (by decide) (by decide)) (by decide)

end WinSys
