import ProcExpX.Library.AtEach
import ProcExpX.Library.Shape
import ProcExpX.WinSys.Runs

/-!
# Calls that fail

A failed query skips the loop over the records, but the tables are cleared and
replaced all the same. A failed call is therefore harmless precisely when there was
nothing to lose, and a run in which all failed calls are of this kind reports what
the run of its successful calls alone reports.
-/

namespace WinSys

open Library

/-- Whether a call succeeds can be read off its answer. -/
instance (c : Call) : Decidable c.Succeeds :=
  match h : c.answer with
  | .success snapshot => .isTrue ⟨snapshot, h⟩
  | .failure => .isFalse fun ⟨_, hs⟩ => by cases h.symm.trans hs

/-- A failed call visits nothing. -/
theorem Call.selected_of_not_succeeds {c : Call} (hc : ¬ c.Succeeds) : c.selected = [] := by
  unfold Call.selected Call.records
  cases hanswer : c.answer with
  | success snapshot => exact absurd ⟨snapshot, hanswer⟩ hc
  | failure => rfl

/-- The call that leads from `m` to `m'` leaves the tracked tables as they were and
reports nothing; a call that is not threaded leaves the thread report alone. -/
structure Impl.Unaffected (m m' : Impl) (c : Call) : Prop where
  /-- The process list. -/
  processes : m'.processes = m.processes
  /-- The processes by id. -/
  processesById : m'.processesById = m.processesById
  /-- The processes by key. -/
  processesByKey : m'.processesByKey = m.processesByKey
  /-- The thread list. -/
  threads : m'.threads = m.threads
  /-- The threads by key. -/
  threadsByKey : m'.threadsByKey = m.threadsByKey
  /-- No new process. -/
  newProcesses : m'.newProcesses = []
  /-- No terminated process. -/
  terminatedProcesses : m'.terminatedProcesses = []
  /-- No new thread. -/
  newThreads : m'.newThreads = if c.args.includeThreads then [] else m.newThreads
  /-- No terminated thread. -/
  terminatedThreads : m'.terminatedThreads =
    if c.args.includeThreads then [] else m.terminatedThreads

/-- Call `c` makes the same report in two states: the same objects, new or
terminated, with threads if it is threaded. -/
structure Impl.SameReports (m m' : Impl) (c : Call) : Prop where
  /-- The new processes. -/
  newProcesses : m'.newProcesses = m.newProcesses
  /-- The terminated processes. -/
  terminatedProcesses : m'.terminatedProcesses = m.terminatedProcesses
  /-- The new threads. -/
  newThreads : c.args.includeThreads = true → m'.newThreads = m.newThreads
  /-- The terminated threads. -/
  terminatedThreads : c.args.includeThreads = true → m'.terminatedThreads = m.terminatedThreads

/-- Call `c` finds nothing tracked that it would lose: the call before visited no
process, and the threaded call before no thread if `c` is threaded. -/
structure Call.FindsNothing (calls : List Call) (c : Call) : Prop where
  /-- No process. -/
  processes : heldKeys calls = []
  /-- No thread. -/
  threads : c.args.includeThreads = true → heldThreadKeys calls = []

/-- Two states have the same tables, up to the content of the objects. -/
structure Impl.SameTables (m m' : Impl) : Prop where
  /-- The process side. -/
  processes : m.processRoster.SameTable m'.processRoster
  /-- The thread side. -/
  threads : m.threadRoster.SameTable m'.threadRoster

section Rebuilt

variable {env : Environment} {m m' : Impl} {c : Call} {ks ts : List ProcessOrThreadKey}
  {recs : List (SystemProcessInformation × List (Ref ThreadInfo))}
  {thr : List (WString × SystemExtendedThreadInformation)} (h : m.Rebuilt env c m' recs thr)
include h

/-- A failed call rebuilds the tables from no record. -/
theorem Impl.Rebuilt.of_not_succeeds (hc : ¬ c.Succeeds) : recs = [] ∧ thr = [] := by
  have hselected := Call.selected_of_not_succeeds hc
  constructor
  · exact List.map_eq_nil_iff.mp (h.recs_eq.trans hselected)
  · exact List.map_eq_nil_iff.mp (h.thr_eq.trans (by rw [Call.selectedThreads, hselected]; rfl))

/-- A failed call that finds nothing keeps the tables and reports nothing. -/
theorem Impl.Rebuilt.keeps_tables (hm : m.Tracks ks ts) (hc : ¬ c.Succeeds) (hks : ks = [])
    (hts : c.args.includeThreads = true → ts = []) : m.SameTables m' ∧ m.Unaffected m' c := by
  obtain ⟨rfl, rfl⟩ := h.of_not_succeeds hc
  subst hks
  obtain ⟨hsame, hadded, hremoved⟩ := (h.processSide hm.keyed).of_nil hm.processes
  cases hthreaded : c.args.includeThreads with
  | true =>
    cases hts hthreaded
    obtain ⟨htsame, htadded, htremoved⟩ :=
      (h.threadSide hm.keyed hthreaded).of_nil hm.threads
    exact ⟨⟨hsame, htsame⟩, hsame.all, hsame.byId, hsame.byKey, htsame.all, htsame.byKey, hadded,
      hremoved, by rw [hthreaded]; exact htadded, by rw [hthreaded]; exact htremoved⟩
  | false =>
    have heq := h.threadRoster_unthreaded hthreaded
    exact ⟨⟨hsame, heq ▸ Roster.SameTable.refl _⟩, hsame.all, hsame.byId, hsame.byKey,
      congrArg Roster.all heq, congrArg Roster.byKey heq, hadded, hremoved,
      by rw [hthreaded]; exact congrArg Roster.added heq,
      by rw [hthreaded]; exact congrArg Roster.removed heq⟩

/-- **One failed call.** It is harmless precisely when it finds nothing. -/
theorem Impl.Rebuilt.unaffected_iff (hm : m.Tracks ks ts) (hc : ¬ c.Succeeds) :
    m.Unaffected m' c ↔ ks = [] ∧ (c.args.includeThreads = true → ts = []) := by
  have hafter := h.tracks hm
  have hselected := Call.selected_of_not_succeeds hc
  have hkeys : c.keys = [] := by rw [Call.keys, hselected, List.map_nil]
  have hthreadKeys : c.threadKeys = [] := by
    rw [Call.threadKeys, Call.selectedThreads, hselected, List.flatMap_nil, List.map_nil]
  constructor
  · intro hu
    constructor
    · have hnil : m'.processes = [] := List.map_eq_nil_iff.mp (hafter.processes.keys_eq.trans hkeys)
      rw [← hm.processes.keys_eq]
      exact List.map_eq_nil_iff.mpr (hu.processes.symm.trans hnil)
    · intro hthreaded
      have hkeys_eq := hafter.threads.keys_eq
      rw [if_pos hthreaded, hthreadKeys] at hkeys_eq
      have hnil : m'.threads = [] := List.map_eq_nil_iff.mp hkeys_eq
      rw [← hm.threads.keys_eq]
      exact List.map_eq_nil_iff.mpr (hu.threads.symm.trans hnil)
  · rintro ⟨hks, hts⟩
    exact (h.keeps_tables hm hc hks hts).2

/-- The same call, made from the same tables, leads to the same tables and makes the
same report. -/
theorem Impl.Rebuilt.sameTables {m₂ m₂' : Impl}
    {recs₂ : List (SystemProcessInformation × List (Ref ThreadInfo))}
    {thr₂ : List (WString × SystemExtendedThreadInformation)}
    (hm : m.Keyed) (hm₂ : m₂.Keyed) (h₂ : m₂.Rebuilt env c m₂' recs₂ thr₂)
    (hsame : m.SameTables m₂) : m'.SameTables m₂' ∧ m'.SameReports m₂' c := by
  obtain ⟨hprocs, hprocReport⟩ := hsame.processes.rebuild (h.processSide hm)
    (h₂.processSide hm₂) rfl (h₂.map_key.trans h.map_key.symm)
  cases hthreaded : c.args.includeThreads with
  | true =>
    obtain ⟨hthreads, hthreadReport⟩ := hsame.threads.rebuild (h.threadSide hm hthreaded)
      (h₂.threadSide hm₂ hthreaded) rfl (h₂.map_thread_key.trans h.map_thread_key.symm)
    exact ⟨⟨hprocs, hthreads⟩, hprocReport.added, hprocReport.removed, fun _ => hthreadReport.added,
      fun _ => hthreadReport.removed⟩
  | false =>
    have hthreads := hsame.threads
    rw [← h.threadRoster_unthreaded hthreaded, ← h₂.threadRoster_unthreaded hthreaded] at hthreads
    exact ⟨⟨hprocs, hthreads⟩, hprocReport.added, hprocReport.removed,
      fun ht => (by simp [hthreaded] at ht), fun ht => (by simp [hthreaded] at ht)⟩

end Rebuilt

/-- The successful calls of a run. -/
def successes (calls : List Call) : List Call := calls.filter (fun c => c.Succeeds)

section Run

variable (env : Environment) (rawProcesses : ℕ → ProcessInfo) (rawThreads : ℕ → ThreadInfo)

/-- When all failed calls of a run find nothing, the run reaches the tables that its
successful calls alone reach. -/
theorem Impl.run_sameTables {calls : List Call}
    (hcalls : AtEach (fun before c => ¬ c.Succeeds → c.FindsNothing before) calls) :
    (Impl.run env rawProcesses rawThreads (successes calls)).SameTables
      (Impl.run env rawProcesses rawThreads calls) := by
  induction calls using List.reverseRecOn with
  | nil => exact ⟨.refl _, .refl _⟩
  | append_singleton calls c ih =>
    obtain ⟨hcalls, hlast⟩ := AtEach.concat_iff.mp hcalls
    have hbefore := ih hcalls
    have hm := Impl.run_tracks env rawProcesses rawThreads calls
    obtain ⟨recs, thr, h⟩ := Impl.run_concat_rebuilt env rawProcesses rawThreads calls c
    by_cases hc : c.Succeeds
    · have hfilter : successes (calls ++ [c]) = successes calls ++ [c] := by
        simp [successes, hc]
      obtain ⟨recs₂, thr₂, h₂⟩ := Impl.run_concat_rebuilt env rawProcesses rawThreads
        (successes calls) c
      rw [hfilter]
      have hm₂ := Impl.run_tracks env rawProcesses rawThreads (successes calls)
      exact (h₂.sameTables hm₂.keyed hm.keyed h hbefore).1
    · have hfilter : successes (calls ++ [c]) = successes calls := by
        simp [successes, hc]
      obtain ⟨hprocs, hthreads⟩ := hlast hc
      obtain ⟨hsame, _⟩ := h.keeps_tables hm hc hprocs hthreads
      rw [hfilter]
      exact ⟨hbefore.processes.trans hsame.processes, hbefore.threads.trans hsame.threads⟩

/-- **When failures are harmless.** In every run, all failed calls leave the tracked
tables as they were and report nothing, and all successful calls report what they
would report without the failed ones, precisely when every failed call finds nothing. -/
theorem Impl.run_failures_harmless_iff (calls : List Call) :
    (AtEach (fun before c => ¬ c.Succeeds →
        (Impl.run env rawProcesses rawThreads before).Unaffected
          (Impl.run env rawProcesses rawThreads (before ++ [c])) c) calls ∧
      AtEach (fun before c => c.Succeeds →
        (Impl.run env rawProcesses rawThreads (successes before ++ [c])).SameReports
          (Impl.run env rawProcesses rawThreads (before ++ [c])) c) calls) ↔
      AtEach (fun before c => ¬ c.Succeeds → c.FindsNothing before) calls := by
  constructor
  · rintro ⟨hfailed, _⟩ before c after heq hc
    have hm := Impl.run_tracks env rawProcesses rawThreads before
    obtain ⟨recs, thr, h⟩ := Impl.run_concat_rebuilt env rawProcesses rawThreads before c
    obtain ⟨hks, hts⟩ := (h.unaffected_iff hm hc).mp (hfailed before c after heq hc)
    exact ⟨hks, hts⟩
  · intro hcalls
    constructor
    · intro before c after heq hc
      have hm := Impl.run_tracks env rawProcesses rawThreads before
      obtain ⟨recs, thr, h⟩ := Impl.run_concat_rebuilt env rawProcesses rawThreads before c
      have hfinds := hcalls before c after heq hc
      exact (h.unaffected_iff hm hc).mpr ⟨hfinds.processes, hfinds.threads⟩
    · rintro before c after rfl hc
      have hsame := Impl.run_sameTables env rawProcesses rawThreads hcalls.of_append
      have hm := Impl.run_tracks env rawProcesses rawThreads before
      have hm₂ := Impl.run_tracks env rawProcesses rawThreads (successes before)
      obtain ⟨recs, thr, h⟩ := Impl.run_concat_rebuilt env rawProcesses rawThreads before c
      obtain ⟨recs₂, thr₂, h₂⟩ := Impl.run_concat_rebuilt env rawProcesses rawThreads
        (successes before) c
      exact (h₂.sameTables hm₂.keyed hm.keyed h hsame).2

end Run

/-- A failed call after a successful one reports all processes terminated. -/
theorem Impl.failed_call_reports_all_terminated :
    ∃ env rawProcesses rawThreads, ∃ first second : Call, first.Succeeds ∧ ¬ second.Succeeds ∧
      (Impl.run env rawProcesses rawThreads ([first] ++ [second])).terminatedProcesses =
        (Impl.run env rawProcesses rawThreads [first]).processes ∧
      ¬ (Impl.run env rawProcesses rawThreads [first]).Unaffected
        (Impl.run env rawProcesses rawThreads ([first] ++ [second])) second := by
  refine ⟨⟨4, false⟩, fun _ => default, fun _ => default,
    .answered .enumProcesses 100 (.bare 1 8) [], .failed .enumProcesses 200,
    by decide, by decide, by decide, fun h => ?_⟩
  exact absurd h.processes (by decide)

end WinSys
