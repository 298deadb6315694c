import ProcExpX.Library.Wrapping
import ProcExpX.WinSys.ThreadReports

/-!
# The CPU value of a thread

The CPU value compares the times of a thread with those of its last refresh, which
only threaded calls make, but divides by the ticks since the last call of any kind.
Without a call in between the value is the share of the elapsed time; this file
states what it is in general.
-/

namespace WinSys

open Library

/-- The share of CPU time in millionths, for a time increase over an elapsed number of
ticks, divided evenly among the processors. -/
def cpuShare (increase elapsed : ℕ) (totalProcessors : UInt32) : ℕ :=
  increase * 1000000 / elapsed / totalProcessors.toNat

/-- The counter reading of the last call of `calls`, or the given one before any. -/
def lastTicks (ticks : Int64) (calls : List Call) : Int64 :=
  (calls.getLast?.map (·.ticks)).getD ticks

/-- The total time of a thread record. -/
def SystemExtendedThreadInformation.totalTime (t : SystemExtendedThreadInformation) : ℤ :=
  t.threadInfo.kernelTime.toInt + t.threadInfo.userTime.toInt

/-- The record that a call visits first among those with the given thread key. -/
def Call.threadRecord (c : Call) (key : ProcessOrThreadKey) :
    Option SystemExtendedThreadInformation :=
  c.selectedThreads.find? (fun t => t.key = key)

/-- The CPU formula is exact when the increase and the elapsed ticks are not negative
and the product with a million fits. -/
theorem ThreadInfo.cpuSince_eq (ti : ThreadInfo) {t₁ t₂ : SystemExtendedThreadInformation}
    {ticks₁ ticks₂ : Int64} {totalProcessors : UInt32} {increase : ℕ}
    (hticks : ticks₁.toInt < ticks₂.toInt) (hincrease : t₂.totalTime = t₁.totalTime + increase)
    (hfits : increase * 1000000 < 2 ^ 64) :
    ((ti.update t₂).cpuSince
      (t₁.threadInfo.userTime.toUInt64 + t₁.threadInfo.kernelTime.toUInt64).toInt64
      (ticks₂ - ticks₁) totalProcessors) =
      Int32.ofNat (cpuShare increase (ticks₂.toInt - ticks₁.toInt).toNat totalProcessors) := by
  have helapsed := toNat_toUInt64_sub hticks.le
  have hne : ticks₂ - ticks₁ ≠ 0 := by
    intro heq
    rw [heq] at helapsed
    have hzero : (0 : Int64).toUInt64.toNat = 0 := rfl
    omega
  have hlt : increase < 2 ^ 64 := by omega
  have hdiff := toNat_increase hlt hincrease
  rw [ThreadInfo.cpuSince, if_neg hne, UInt64.toUInt64_toInt64]
  have hvalue : ((t₂.threadInfo.kernelTime.toUInt64 + t₂.threadInfo.userTime.toUInt64 -
      (t₁.threadInfo.userTime.toUInt64 + t₁.threadInfo.kernelTime.toUInt64)) * 1000000 /
      (ticks₂ - ticks₁).toUInt64 / totalProcessors.toUInt64).toNat =
      cpuShare increase (ticks₂.toInt - ticks₁.toInt).toNat totalProcessors := by
    rw [UInt64.toNat_div, UInt64.toNat_div, UInt64.toNat_mul, hdiff, helapsed,
      UInt32.toNat_toUInt64]
    exact congrArg (· / _ / _) (Nat.mod_eq_of_lt hfits)
  rw [← hvalue]
  rfl

section Rebuilt

variable {env : Environment} {m m' : Impl} {c : Call} {ks ts : List ProcessOrThreadKey}
  {recs : List (SystemProcessInformation × List (Ref ThreadInfo))}
  {thr : List (WString × SystemExtendedThreadInformation)} (h : m.Rebuilt env c m' recs thr)
  (hm : m.Keyed) (hthreaded : c.args.includeThreads = true)
include h hm hthreaded

/-- After a threaded call the object found under a thread key was built from the first
record with that key. -/
theorem Impl.Rebuilt.find_thread {key : ProcessOrThreadKey} {t : SystemExtendedThreadInformation}
    (hfind : c.threadRecord key = some t) :
    ∃ name ti, m'.getThreadByKey key = some ti ∧
      Intake.Built (c.threadBlueprint env m) m.threadsByKey m.threadHeap m'.threadHeap (name, t)
        ti := by
  rw [Call.threadRecord, ← h.thr_eq, List.find?_map] at hfind
  obtain ⟨rec, hrec, rfl⟩ := Option.map_eq_some_iff.mp hfind
  obtain ⟨ti, hlookup, hbuilt⟩ := (h.threadSide hm hthreaded).find hrec
  exact ⟨rec.1, ti, hlookup, hbuilt⟩

/-- The times of the object found under a thread key are those of the record. -/
theorem Impl.Rebuilt.find_thread_times {key : ProcessOrThreadKey}
    {t : SystemExtendedThreadInformation} (hfind : c.threadRecord key = some t) :
    ∃ ti, m'.getThreadByKey key = some ti ∧
      (m'.thread ti).kernelTime = t.threadInfo.kernelTime.toUInt64 ∧
      (m'.thread ti).userTime = t.threadInfo.userTime.toUInt64 := by
  obtain ⟨name, ti, hlookup, hbuilt⟩ := h.find_thread hm hthreaded hfind
  refine ⟨ti, hlookup, ?_⟩
  rcases hbuilt with ⟨_, hread⟩ | ⟨_, hread⟩ <;>
  · rw [Impl.thread, hread]
    exact ⟨rfl, rfl⟩

/-- A known thread keeps its object, and its CPU value is computed from the times it
had before and the ticks since the last call. -/
theorem Impl.Rebuilt.find_thread_cpu {key : ProcessOrThreadKey}
    {t : SystemExtendedThreadInformation} (hfind : c.threadRecord key = some t)
    {ti : Ref ThreadInfo} (hknown : m.getThreadByKey key = some ti) :
    m'.getThreadByKey key = some ti ∧ (m'.thread ti).cpu =
      ((m.thread ti).update t).cpuSince
        ((m.thread ti).userTime + (m.thread ti).kernelTime).toInt64 (c.ticks - m.prevTicks)
        env.totalProcessors := by
  obtain ⟨name, ti', hlookup, hbuilt⟩ := h.find_thread hm hthreaded hfind
  have hmem : key ∈ thr.map (c.threadBlueprint env m).key := by
    rw [h.map_thread_key, Call.threadKeys]
    exact List.mem_map.mpr ⟨t, List.mem_of_find?_eq_some hfind,
      by simpa using List.find?_some hfind⟩
  have hkept := (h.threadSide hm hthreaded).keeps hknown hmem
  have hsame : ti' = ti := Option.some.inj (hlookup.symm.trans hkept)
  subst hsame
  refine ⟨hlookup, ?_⟩
  rcases hbuilt with ⟨_, hread⟩ | ⟨hdead, _⟩
  · rw [Impl.thread, hread]
    rfl
  · exact absurd (hm.threads _ _ hknown).1 hdead

end Rebuilt

section Run

variable (env : Environment) (rawProcesses : ℕ → ProcessInfo) (rawThreads : ℕ → ThreadInfo)

/-- The tick count after a run is the reading of its last call. -/
theorem Impl.run_prevTicks (before : List Call) (c : Call) (mid : List Call) :
    (Impl.run env rawProcesses rawThreads (before ++ [c] ++ mid)).prevTicks =
      lastTicks c.ticks mid := by
  induction mid using List.reverseRecOn with
  | nil =>
    obtain ⟨recs, thr, h⟩ := Impl.run_concat_rebuilt env rawProcesses rawThreads before c
    rw [List.append_nil]
    exact h.prevTicks
  | append_singleton mid c' _ =>
    obtain ⟨recs, thr, h⟩ := Impl.run_concat_rebuilt env rawProcesses rawThreads
      (before ++ [c] ++ mid) c'
    rw [← List.append_assoc, h.prevTicks]
    simp [lastTicks]

/-- Calls that are not threaded change nothing about threads. -/
theorem Impl.run_sameThreads (before mid : List Call)
    (hmid : ∀ c ∈ mid, c.args.includeThreads = false) :
    (Impl.run env rawProcesses rawThreads (before ++ mid)).threadRoster =
      (Impl.run env rawProcesses rawThreads before).threadRoster := by
  induction mid using List.reverseRecOn with
  | nil => rw [List.append_nil]
  | append_singleton mid c ih =>
    obtain ⟨recs, thr, h⟩ := Impl.run_concat_rebuilt env rawProcesses rawThreads (before ++ mid) c
    rw [← List.append_assoc, h.threadRoster_unthreaded (hmid c (by simp)),
      ih fun c' hc' => hmid c' (by simp [hc'])]

/-- The CPU value that the second of two consecutive threaded calls stores for a thread
in both: the share of its time increase in the ticks since the last call of any kind. -/
theorem Impl.run_thread_cpu (before mid : List Call) {c₁ c₂ : Call}
    (hc₁ : c₁.args.includeThreads = true) (hmid : ∀ c ∈ mid, c.args.includeThreads = false)
    (hc₂ : c₂.args.includeThreads = true) {key : ProcessOrThreadKey}
    {t₁ t₂ : SystemExtendedThreadInformation} (ht₁ : c₁.threadRecord key = some t₁)
    (ht₂ : c₂.threadRecord key = some t₂)
    (hticks : (lastTicks c₁.ticks mid).toInt < c₂.ticks.toInt) {increase : ℕ}
    (hincrease : t₂.totalTime = t₁.totalTime + increase) (hfits : increase * 1000000 < 2 ^ 64) :
    ∃ ti, (Impl.run env rawProcesses rawThreads (before ++ [c₁])).getThreadByKey key = some ti ∧
      (Impl.run env rawProcesses rawThreads (before ++ [c₁] ++ mid ++ [c₂])).getThreadByKey key =
        some ti ∧
      ((Impl.run env rawProcesses rawThreads (before ++ [c₁] ++ mid ++ [c₂])).thread ti).cpu =
        Int32.ofNat (cpuShare increase (c₂.ticks.toInt - (lastTicks c₁.ticks mid).toInt).toNat
          env.totalProcessors) := by
  obtain ⟨recs₁, thr₁, h₁⟩ := Impl.run_concat_rebuilt env rawProcesses rawThreads before c₁
  obtain ⟨recs₂, thr₂, h₂⟩ := Impl.run_concat_rebuilt env rawProcesses rawThreads
    (before ++ [c₁] ++ mid) c₂
  have hkeyed₁ := (Impl.run_tracks env rawProcesses rawThreads before).keyed
  have hkeyed₂ := (Impl.run_tracks env rawProcesses rawThreads (before ++ [c₁] ++ mid)).keyed
  obtain ⟨ti, hlookup, hkernel, huser⟩ := h₁.find_thread_times hkeyed₁ hc₁ ht₁
  have hroster := Impl.run_sameThreads env rawProcesses rawThreads (before ++ [c₁]) mid hmid
  have hlookup' : (Impl.run env rawProcesses rawThreads
      (before ++ [c₁] ++ mid)).getThreadByKey key = some ti :=
    (congrArg (fun g => g.byKey.lookup key) hroster).trans hlookup
  have hread : (Impl.run env rawProcesses rawThreads (before ++ [c₁] ++ mid)).thread ti =
      (Impl.run env rawProcesses rawThreads (before ++ [c₁])).thread ti :=
    congrArg (fun g => g.heap.read ti) hroster
  obtain ⟨hkept, hcpu⟩ := h₂.find_thread_cpu hkeyed₂ hc₂ ht₂ hlookup'
  refine ⟨ti, hlookup, hkept, ?_⟩
  rw [hcpu, hread, hkernel, huser, Impl.run_prevTicks]
  exact ThreadInfo.cpuSince_eq _ hticks hincrease hfits

/-- **The CPU value of a thread.** In every run, when the last call before the second of
two consecutive threaded calls read the counter as the first of them did, the second
stores the share of the time increase in the ticks between the two threaded calls. -/
theorem Impl.run_thread_cpu_between (before mid : List Call) {c₁ c₂ : Call}
    (hc₁ : c₁.args.includeThreads = true) (hmid : ∀ c ∈ mid, c.args.includeThreads = false)
    (hc₂ : c₂.args.includeThreads = true) (hlast : lastTicks c₁.ticks mid = c₁.ticks)
    {key : ProcessOrThreadKey} {t₁ t₂ : SystemExtendedThreadInformation}
    (ht₁ : c₁.threadRecord key = some t₁) (ht₂ : c₂.threadRecord key = some t₂)
    (hticks : c₁.ticks.toInt < c₂.ticks.toInt) {increase : ℕ}
    (hincrease : t₂.totalTime = t₁.totalTime + increase) (hfits : increase * 1000000 < 2 ^ 64) :
    ∃ ti, (Impl.run env rawProcesses rawThreads (before ++ [c₁])).getThreadByKey key = some ti ∧
      (Impl.run env rawProcesses rawThreads (before ++ [c₁] ++ mid ++ [c₂])).getThreadByKey key =
        some ti ∧
      ((Impl.run env rawProcesses rawThreads (before ++ [c₁] ++ mid ++ [c₂])).thread ti).cpu =
        Int32.ofNat (cpuShare increase (c₂.ticks.toInt - c₁.ticks.toInt).toNat
          env.totalProcessors) ∧
      (cpuShare increase (c₂.ticks.toInt - c₁.ticks.toInt).toNat env.totalProcessors < 2 ^ 31 →
        ((Impl.run env rawProcesses rawThreads
          (before ++ [c₁] ++ mid ++ [c₂])).thread ti).cpu.toInt =
          cpuShare increase (c₂.ticks.toInt - c₁.ticks.toInt).toNat env.totalProcessors) := by
  obtain ⟨ti, hbefore, hafter, hcpu⟩ := Impl.run_thread_cpu env rawProcesses rawThreads before mid
    hc₁ hmid hc₂ ht₁ ht₂ (hlast.symm ▸ hticks) hincrease hfits
  rw [hlast] at hcpu
  refine ⟨ti, hbefore, hafter, hcpu, fun hsmall => ?_⟩
  rw [hcpu]
  exact Int32.toInt_ofNat_of_lt hsmall

end Run

/-- Two threaded calls in a row give the share of the elapsed time. -/
theorem Impl.run_thread_cpu_between_adjacent :
    let record (userTime : Int64) : SystemProcessInformation :=
      (SystemProcessInformation.bare 1 8).withThread (.bare 3 16 userTime)
    let first := Call.answered (.enumProcessesAndThreads 0 0 0) 100 (record 5) []
    let second := Call.answered (.enumProcessesAndThreads 0 0 0) 200 (record 15) []
    ∃ ti, ((Impl.run ⟨4, false⟩ (fun _ => default) (fun _ => default)
      ([] ++ [first] ++ [] ++ [second])).thread ti).cpu.toInt = 25000 := by
  intro record first second
  have h₁ : first.threadRecord ⟨3, 16⟩ = some (.bare 3 16 5) := by rfl
  have h₂ : second.threadRecord ⟨3, 16⟩ = some (.bare 3 16 15) := by rfl
  have hincrease : (SystemExtendedThreadInformation.bare 3 16 15).totalTime =
      (SystemExtendedThreadInformation.bare 3 16 5).totalTime + (10 : ℕ) := by decide
  obtain ⟨ti, _, _, _, hcpu⟩ := Impl.run_thread_cpu_between ⟨4, false⟩ (fun _ => default)
    (fun _ => default) [] [] rfl (by simp) rfl rfl h₁ h₂ (by decide) hincrease (by decide)
  have hshare : cpuShare 10 (second.ticks.toInt - first.ticks.toInt).toNat 4 = 25000 := by decide
  exact ⟨ti, (hcpu (by decide)).trans (congrArg Int.ofNat hshare)⟩

/-- An unthreaded call between two threaded ones, at half time, doubles the value. -/
theorem Impl.unthreaded_call_doubles_thread_cpu :
    let record (userTime : Int64) : SystemProcessInformation :=
      (SystemProcessInformation.bare 1 8).withThread (.bare 3 16 userTime)
    let first := Call.answered (.enumProcessesAndThreads 0 0 0) 100 (record 5) []
    let mid := Call.answered .enumProcesses 150 (record 10) []
    let second := Call.answered (.enumProcessesAndThreads 0 0 0) 200 (record 15) []
    (∀ c ∈ [first, mid, second], c.Succeeds ∧ c.Unfiltered) ∧
      (∃ ti, (Impl.run ⟨4, false⟩ (fun _ => default) (fun _ => default)
          ([] ++ [first] ++ [mid] ++ [second])).getThreadByKey ⟨3, 16⟩ = some ti ∧
        ((Impl.run ⟨4, false⟩ (fun _ => default) (fun _ => default)
          ([] ++ [first] ++ [mid] ++ [second])).thread ti).cpu.toInt = 50000) ∧
      cpuShare (15 - 5) (200 - 100) 4 = 25000 := by
  intro record first mid second
  refine ⟨fun c hc => ?_, ?_, by decide⟩
  · simp only [List.mem_cons, List.not_mem_nil, or_false] at hc
    rcases hc with rfl | rfl | rfl <;> exact ⟨Call.answered_succeeds _ _ _ _, rfl⟩
  · have h₁ : first.threadRecord ⟨3, 16⟩ = some (.bare 3 16 5) := by rfl
    have h₂ : second.threadRecord ⟨3, 16⟩ = some (.bare 3 16 15) := by rfl
    have hincrease : (SystemExtendedThreadInformation.bare 3 16 15).totalTime =
        (SystemExtendedThreadInformation.bare 3 16 5).totalTime + (10 : ℕ) := by decide
    obtain ⟨ti, _, hfind, hcpu⟩ := Impl.run_thread_cpu ⟨4, false⟩ (fun _ => default)
      (fun _ => default) [] [mid] rfl (by simp [mid, Call.answered, Call.args, Api.args]) rfl
      h₁ h₂ (by decide) hincrease (by decide)
    have hshare : Int32.ofNat (cpuShare 10
        (second.ticks.toInt - (lastTicks first.ticks [mid]).toInt).toNat 4) = 50000 := by decide
    exact ⟨ti, hfind, (congrArg Int32.toInt (hcpu.trans hshare)).trans (by decide)⟩

end WinSys
