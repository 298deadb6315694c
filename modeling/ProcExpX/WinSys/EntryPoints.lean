import ProcExpX.Library.Shape
import ProcExpX.WinSys.ProcessReports
import ProcExpX.WinSys.ThreadReports

/-!
# The two entry points

`EnumProcesses()` and `EnumProcessesAndThreads(0, 0, 0)` run the same loop. What they do
to the processes is the same but for the thread lists, and the first one leaves everything
about threads alone.
-/

namespace WinSys

open Library

/-- A process object with an empty list of threads. -/
def ProcessInfo.withoutThreads (pi : ProcessInfo) : ProcessInfo := { pi with threads := [] }

/-- Two states have the same process side, but for the thread lists of the processes. -/
structure Impl.SameProcesses (m m' : Impl) : Prop where
  /-- The list. -/
  processes : m'.processes = m.processes
  /-- The processes by id. -/
  processesById : m'.processesById = m.processesById
  /-- The processes by key. -/
  processesByKey : m'.processesByKey = m.processesByKey
  /-- The new processes. -/
  newProcesses : m'.newProcesses = m.newProcesses
  /-- The terminated processes. -/
  terminatedProcesses : m'.terminatedProcesses = m.terminatedProcesses
  /-- The tick count. -/
  prevTicks : m'.prevTicks = m.prevTicks
  /-- The objects. -/
  process : ∀ pi, (m'.process pi).withoutThreads = (m.process pi).withoutThreads

/-- Process objects are built and updated alike whatever threads are added to them. -/
theorem processBlueprint_alike (env : Environment) (delta : Int64) :
    (processBlueprint env delta).Alike (processBlueprint env delta)
      (fun rec rec' => rec.1 = rec'.1)
      (fun pi pi' => pi'.withoutThreads = pi.withoutThreads) where
  ident := rfl
  key rec rec' hrec := congrArg SystemProcessInformation.key hrec.symm
  create rec rec' raw raw' hrec hraw := by
    have hcreate : ∀ (raw : ProcessInfo) (rec : SystemProcessInformation × List (Ref ThreadInfo)),
        ((processBlueprint env delta).create rec raw).withoutThreads =
          ((processBlueprint env delta).create (rec.1, []) raw.withoutThreads).withoutThreads :=
      fun _ _ => rfl
    rw [hcreate raw', hcreate raw, hraw, hrec]
  refresh rec rec' old old' hrec hold := by
    have hrefresh : ∀ (old : ProcessInfo)
        (rec : SystemProcessInformation × List (Ref ThreadInfo)),
        ((processBlueprint env delta).refresh rec old).withoutThreads =
          ((processBlueprint env delta).refresh (rec.1, []) old.withoutThreads).withoutThreads :=
      fun _ _ => rfl
    rw [hrefresh old', hrefresh old, hold, hrec]

section Rebuilt

variable {env : Environment} {m m' : Impl} {c : Call}
  {recs : List (SystemProcessInformation × List (Ref ThreadInfo))}
  {thr : List (WString × SystemExtendedThreadInformation)} (h : m.Rebuilt env c m' recs thr)
include h

/-- A call that is not threaded adds no thread to any process. -/
theorem Impl.Rebuilt.process_threads (hm : m.Keyed) (hthreaded : c.args.includeThreads = false)
    {pi : Ref ProcessInfo} (hlive : m.processHeap.Live pi) :
    (m'.process pi).threads = (m.process pi).threads := by
  by_cases hlisted : pi ∈ m'.processes
  · obtain ⟨rec, hrec, hbuilt⟩ := forall₂_exists_of_mem_right (h.processes_built hm) hlisted
    have hnone : rec.2 = [] := by
      rw [← List.length_eq_zero_iff, h.recs_threads rec hrec,
        EnumArgs.threadsOf_unthreaded hthreaded, List.length_nil]
    rcases hbuilt with ⟨_, hread⟩ | ⟨hdead, _⟩
    · have hprocess : (m'.process pi).threads = (m.process pi).threads ++ rec.2 := by
        rw [Impl.process, hread]
        rfl
      rw [hprocess, hnone, List.append_nil]
    · exact absurd hlive hdead
  · exact congrArg ProcessInfo.threads ((h.processSide hm).read_of_unlisted hlive hlisted)

end Rebuilt

/-- Two calls that meet the same and visit the same records have the same effect on the
process side, whether or not they are threaded. -/
theorem Impl.Rebuilt.sameProcesses {env : Environment} {m m₁ m₂ : Impl} {c₁ c₂ : Call}
    {recs₁ recs₂ : List (SystemProcessInformation × List (Ref ThreadInfo))}
    {thr₁ thr₂ : List (WString × SystemExtendedThreadInformation)} (hm : m.Keyed)
    (h₁ : m.Rebuilt env c₁ m₁ recs₁ thr₁) (h₂ : m.Rebuilt env c₂ m₂ recs₂ thr₂)
    (hworld : c₂.toEnumWorld = c₁.toEnumWorld) (hselected : c₂.selected = c₁.selected) :
    m₁.SameProcesses m₂ := by
  have hticks : c₂.ticks = c₁.ticks := congrArg EnumWorld.ticks hworld
  have horder : c₂.processOrder = c₁.processOrder := congrArg EnumWorld.processOrder hworld
  have hrecs : List.Forall₂ (fun rec rec' => rec.1 = rec'.1) recs₁ recs₂ := by
    have heq : List.Forall₂ (· = ·) (recs₁.map Prod.fst) (recs₂.map Prod.fst) := by
      rw [List.forall₂_eq_eq_eq, h₁.recs_eq, h₂.recs_eq, hselected]
    rwa [List.forall₂_map_left_iff, List.forall₂_map_right_iff] at heq
  have hside₂ := h₂.processSide hm
  rw [Call.processBlueprint, hticks, horder] at hside₂
  obtain ⟨htable, hreport, hread⟩ := (h₁.processSide hm).alike
    (processBlueprint_alike env (c₁.ticks - m.prevTicks)) (fun _ => rfl) hside₂ hrecs
  exact ⟨htable.all, htable.byId, htable.byKey, hreport.added, hreport.removed,
    by rw [h₁.prevTicks, h₂.prevTicks, hticks], hread⟩

/-- **The two entry points.** In every reachable state and whatever a call meets,
`EnumProcesses()` and `EnumProcessesAndThreads(0, 0, 0)` have the same effect on the process
side, and the first leaves the thread side alone and the thread list of every process. -/
theorem Impl.run_entryPoints (env : Environment) (rawProcesses : ℕ → ProcessInfo)
    (rawThreads : ℕ → ThreadInfo) (calls : List Call) (world : EnumWorld) :
    let m := Impl.run env rawProcesses rawThreads calls
    let m₁ := m.step env { world with api := .enumProcesses }
    let m₂ := m.step env { world with api := .enumProcessesAndThreads 0 0 0 }
    m₁.SameProcesses m₂ ∧ m.SameThreads m₁ ∧
      ∀ pi, m.processHeap.Live pi → (m₁.process pi).threads = (m.process pi).threads := by
  intro m m₁ m₂
  have hm := (Impl.run_tracks env rawProcesses rawThreads calls).keyed
  obtain ⟨recs₁, thr₁, h₁⟩ := Impl.step_rebuilt env hm { world with api := .enumProcesses }
  obtain ⟨recs₂, thr₂, h₂⟩ :=
    Impl.step_rebuilt env hm { world with api := .enumProcessesAndThreads 0 0 0 }
  exact ⟨Impl.Rebuilt.sameProcesses hm h₁ h₂ rfl rfl, h₁.sameThreads rfl,
    fun pi hlive => h₁.process_threads hm rfl hlive⟩

end WinSys
