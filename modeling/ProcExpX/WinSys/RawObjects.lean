import ProcExpX.Library.RawMemory
import ProcExpX.WinSys.ProcessReports

/-!
# Process objects over raw memory

The constructor of a process object leaves its members as the memory was. All but two of them
are written before anyone reads them, so that calls that are not threaded do the same whatever
was in memory.
-/

namespace WinSys

open Library

/-- Two process objects agree in all but their private working set, which no call writes, and
their user, which only calls with an extended snapshot write. -/
def ProcessInfo.Agrees (pi pi' : ProcessInfo) : Prop :=
  ∃ size sid, pi' = { pi with workingSetPrivateSize := size, userSid := sid }

/-- Process objects that are built from the same record over different memory agree, and objects
that agree go on to agree when the same record updates them. -/
theorem processBlueprint_covers (env : Environment) (delta : Int64) :
    (processBlueprint env delta).Covers ProcessInfo.Agrees where
  create rec raw raw' := by
    unfold ProcessInfo.Agrees processBlueprint ProcessInfo.identify
    dsimp only
    split
    · exact ⟨raw'.workingSetPrivateSize, rec.1.extension.userSid, rfl⟩
    · exact ⟨raw'.workingSetPrivateSize, raw'.userSid, rfl⟩
  refresh rec old old' := by
    rintro ⟨size, sid, rfl⟩
    exact ⟨size, sid, rfl⟩

/-- Two managers agree: their tables and reports are the same, and their objects agree as far
as they have been handed out. -/
structure Impl.Agrees (m m' : Impl) : Prop where
  /-- The tables and the objects. -/
  roster : m.processRoster.SameObjects ProcessInfo.Agrees m'.processRoster
  /-- The tables and the objects of the threads. -/
  threads : m.threadRoster.SameObjects Eq m'.threadRoster
  /-- The tick count. -/
  prevTicks : m'.prevTicks = m.prevTicks
  /-- The first tracks its objects. -/
  tracks : ∃ ks ts, m.Tracks ks ts
  /-- The second does so, too. -/
  tracks' : ∃ ks ts, m'.Tracks ks ts
  /-- The terminated objects have been handed out. -/
  terminated_live : ∀ pi ∈ m.terminatedProcesses, m.processHeap.Live pi
  /-- The new objects are listed. -/
  new_listed : ∀ pi ∈ m.newProcesses, pi ∈ m.processes

namespace Impl.Agrees

variable {m m' : Impl} (h : m.Agrees m')
include h

/-- Managers that agree list the same processes in the same order. -/
theorem processes_eq : m'.processes = m.processes := h.roster.table.all

/-- Managers that agree report the same new processes. -/
theorem newProcesses_eq : m'.newProcesses = m.newProcesses := h.roster.report.added

/-- Managers that agree report the same terminated processes. -/
theorem terminatedProcesses_eq : m'.terminatedProcesses = m.terminatedProcesses :=
  h.roster.report.removed

/-- Every object that a manager lists has been handed out. -/
theorem processes_live {pi : Ref ProcessInfo} (hpi : pi ∈ m.processes) :
    m.processHeap.Live pi := by
  obtain ⟨ks, ts, htracks⟩ := h.tracks
  exact htracks.processes.all_live pi hpi

/-- An object that has been handed out is the same in both managers but for its private working
set and its user. -/
theorem process {pi : Ref ProcessInfo} (hlive : m.processHeap.Live pi) :
    (m.process pi).Agrees (m'.process pi) :=
  h.roster.read pi hlive

/-- An object that has been handed out has the same key in both managers. -/
theorem key_eq {pi : Ref ProcessInfo} (hlive : m.processHeap.Live pi) :
    (m'.process pi).key = (m.process pi).key := by
  obtain ⟨size, sid, hsame⟩ := h.process hlive
  rw [hsame]

/-- **One call.** After a call that is not threaded the managers agree again. -/
theorem step (env : Environment) {c : Call} (hthreaded : c.args.includeThreads = false) :
    (m.step env c).Agrees (m'.step env c) := by
  obtain ⟨ks, ts, htracks⟩ := h.tracks
  obtain ⟨ks', ts', htracks'⟩ := h.tracks'
  obtain ⟨recs, thr, hstep⟩ := Impl.step_rebuilt env htracks.keyed c
  obtain ⟨recs', thr', hstep'⟩ := Impl.step_rebuilt env htracks'.keyed c
  have hthreads : ∀ rec ∈ recs, rec.2 = [] := fun rec hrec => by
    rw [← List.length_eq_zero_iff, hstep.recs_threads rec hrec,
      EnumArgs.threadsOf_unthreaded hthreaded, List.length_nil]
  have hthreads' : ∀ rec ∈ recs', rec.2 = [] := fun rec hrec => by
    rw [← List.length_eq_zero_iff, hstep'.recs_threads rec hrec,
      EnumArgs.threadsOf_unthreaded hthreaded, List.length_nil]
  have hpair : ∀ l : List (SystemProcessInformation × List (Ref ThreadInfo)),
      (∀ rec ∈ l, rec.2 = []) → l = (l.map Prod.fst).map fun p => (p, []) := by
    intro l hl
    rw [List.map_map]
    symm
    rw [List.map_congr_left (g := id)]
    · exact List.map_id l
    · exact fun rec hrec => Prod.ext rfl (hl rec hrec).symm
  have hrecs : recs' = recs := by
    rw [hpair recs hthreads, hpair recs' hthreads', hstep.recs_eq, hstep'.recs_eq]
  have hside := hstep.processSide htracks.keyed
  have hside' := hstep'.processSide htracks'.keyed
  rw [hrecs, Call.processBlueprint, h.prevTicks] at hside'
  refine ⟨h.roster.rebuild (processBlueprint_covers env _) hside hside', ?_, ?_,
    ⟨_, _, hstep.tracks htracks⟩, ⟨_, _, hstep'.tracks htracks'⟩, ?_, ?_⟩
  · rw [hstep.threadRoster_unthreaded hthreaded, hstep'.threadRoster_unthreaded hthreaded]
    exact h.threads
  · rw [hstep.prevTicks, hstep'.prevTicks]
  · intro pi hpi
    obtain ⟨key, hlookup, _⟩ := hside.mem_removed.mp hpi
    exact hside.live (htracks.keyed.processes key pi hlookup).1
  · exact fun pi hpi => Impl.step_new_listed env htracks.keyed c hpi

/-- An object that has been handed out before a call has been handed out after it. -/
theorem step_live (env : Environment) (c : Call) {pi : Ref ProcessInfo}
    (hlive : m.processHeap.Live pi) : (m.step env c).processHeap.Live pi := by
  obtain ⟨ks, ts, htracks⟩ := h.tracks
  obtain ⟨recs, thr, hstep⟩ := Impl.step_rebuilt env htracks.keyed c
  exact (hstep.processSide htracks.keyed).live hlive

end Impl.Agrees

/-- Two new managers agree whatever the memory holds, since they have not handed out any of it. -/
theorem Impl.initial_agrees (rawProcesses rawProcesses' : ℕ → ProcessInfo)
    (rawThreads rawThreads' : ℕ → ThreadInfo) :
    (Impl.initial rawProcesses rawThreads).Agrees (Impl.initial rawProcesses' rawThreads') where
  roster := ⟨⟨rfl, rfl, rfl, rfl⟩, ⟨rfl, rfl⟩, fun r hr => absurd hr (Nat.not_lt_zero _)⟩
  threads := ⟨⟨rfl, rfl, rfl, rfl⟩, ⟨rfl, rfl⟩, fun r hr => absurd hr (Nat.not_lt_zero _)⟩
  prevTicks := rfl
  tracks := ⟨_, _, Impl.initial_tracks _ _⟩
  tracks' := ⟨_, _, Impl.initial_tracks _ _⟩
  terminated_live pi hpi := by cases hpi
  new_listed pi hpi := by cases hpi

end WinSys
