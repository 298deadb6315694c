import ProcExpX.Library.Shape
import ProcExpX.WinSys.ProcessReports
import ProcExpX.WinSys.ThreadReports

/-!
# Which members follow the snapshots

Each visit of a record writes most members of its object, some are written when the
object is created only, and the private working set and the number of context switches
are never written. An object carries all values of its record precisely when the members
that the visit leaves alone held them before.
-/

namespace WinSys

open Library

/-- The image name that a record stands for. -/
def SystemProcessInformation.displayName (p : SystemProcessInformation) : WString :=
  if p.uniqueProcessId = 0 then wide "(Idle)" else p.imageName

/-- Whether the extension record of a process is read. -/
def SystemProcessInformation.isExtended (extended : Bool) (p : SystemProcessInformation) : Bool :=
  extended && p.uniqueProcessId != 0

/-- The members that every visit of a record writes carry its values. -/
structure ProcessInfo.MirrorsCounters (pi : ProcessInfo) (p : SystemProcessInformation) :
    Prop where
  /-- Times and cycles. -/
  times : pi.userTime = p.userTime ∧ pi.kernelTime = p.kernelTime ∧ pi.cycleTime = p.cycleTime
  /-- The base priority. -/
  basePriority : pi.basePriority = p.basePriority
  /-- Threads and handles. -/
  counts : pi.threadCount = p.numberOfThreads ∧
    pi.peakThreads = p.numberOfThreadsHighWatermark ∧ pi.handleCount = p.handleCount
  /-- Faults. -/
  faults : pi.pageFaultCount = p.pageFaultCount ∧ pi.hardFaultCount = p.hardFaultCount
  /-- Sizes. -/
  sizes : pi.virtualSize = p.virtualSize ∧ pi.peakVirtualSize = p.peakVirtualSize ∧
    pi.workingSetSize = p.workingSetSize ∧ pi.peakWorkingSetSize = p.peakWorkingSetSize ∧
    pi.pagefileUsage = p.pagefileUsage ∧ pi.peakPagefileUsage = p.peakPagefileUsage ∧
    pi.privatePageCount = p.privatePageCount
  /-- Pool quotas. -/
  quotas : pi.pagedPoolUsage = p.quotaPagedPoolUsage ∧
    pi.peakPagedPoolUsage = p.quotaPeakPagedPoolUsage ∧
    pi.nonPagedPoolUsage = p.quotaNonPagedPoolUsage ∧
    pi.peakNonPagedPoolUsage = p.quotaPeakNonPagedPoolUsage
  /-- Numbers of operations. -/
  operations : pi.readOperationCount = p.readOperationCount ∧
    pi.writeOperationCount = p.writeOperationCount ∧
    pi.otherOperationCount = p.otherOperationCount
  /-- Bytes transferred. -/
  transfers : pi.readTransferCount = p.readTransferCount ∧
    pi.writeTransferCount = p.writeTransferCount ∧ pi.otherTransferCount = p.otherTransferCount

/-- The members that only the creation of an object writes carry the values of a record. -/
structure ProcessInfo.MirrorsCreation (extended : Bool) (pi : ProcessInfo)
    (p : SystemProcessInformation) : Prop where
  /-- Ids and the creation time. -/
  ids : pi.key = p.key ∧ pi.id = handleToULong p.uniqueProcessId ∧
    pi.createTime = p.createTime ∧ pi.parentId = handleToULong p.inheritedFromUniqueProcessId ∧
    pi.sessionId = p.sessionId
  /-- The image name, without the directory where it has one. -/
  processName : pi.processName =
    if p.isExtended extended then ProcessInfo.fileName p.displayName else p.displayName
  /-- The job, if the extension is read. -/
  jobObjectId : pi.jobObjectId = if p.isExtended extended then p.extension.jobObjectId else 0
  /-- What comes from the extension alone. -/
  fromExtension : p.isExtended extended = true → pi.userSid = p.extension.userSid ∧
    pi.nativeImagePath = p.displayName ∧
    pi.packageFullName = p.extension.packageFullName.getD []

/-- A process object carries the values of a record in all members that mirror one. -/
structure ProcessInfo.Mirrors (extended : Bool) (pi : ProcessInfo)
    (p : SystemProcessInformation) : Prop extends pi.MirrorsCounters p,
    pi.MirrorsCreation extended p where
  /-- The private working set. -/
  workingSetPrivateSize : pi.workingSetPrivateSize = p.workingSetPrivateSize

/-- An update writes the counters. -/
theorem ProcessInfo.update_mirrorsCounters (pi : ProcessInfo) (p : SystemProcessInformation)
    (threads : List (Ref ThreadInfo)) (cpu : Int32) :
    (((pi.update p).addThreads threads).setCpu cpu).MirrorsCounters p :=
  ⟨⟨rfl, rfl, rfl⟩, rfl, ⟨rfl, rfl, rfl⟩, ⟨rfl, rfl⟩, ⟨rfl, rfl, rfl, rfl, rfl, rfl, rfl⟩,
    ⟨rfl, rfl, rfl, rfl⟩, ⟨rfl, rfl, rfl⟩, ⟨rfl, rfl, rfl⟩⟩

/-- An update leaves alone what only creation writes. -/
theorem ProcessInfo.update_mirrorsCreation_iff {extended : Bool} {pi : ProcessInfo}
    {p : SystemProcessInformation} {threads : List (Ref ThreadInfo)} {cpu : Int32} :
    (((pi.update p).addThreads threads).setCpu cpu).MirrorsCreation extended p ↔
      pi.MirrorsCreation extended p :=
  ⟨fun h => ⟨h.ids, h.processName, h.jobObjectId, h.fromExtension⟩,
    fun h => ⟨h.ids, h.processName, h.jobObjectId, h.fromExtension⟩⟩

/-- A new object carries what creation writes. -/
theorem ProcessInfo.identify_mirrorsCreation (extended : Bool) (raw : ProcessInfo)
    (p : SystemProcessInformation) :
    ((ProcessInfo.make raw).identify extended p).MirrorsCreation extended p := by
  unfold ProcessInfo.identify
  dsimp only
  split
  · rename_i hextended
    have hread : p.isExtended extended = true := hextended
    exact ⟨⟨rfl, rfl, rfl, rfl, rfl⟩, by rw [if_pos hread]; rfl, by rw [if_pos hread],
      fun _ => ⟨rfl, rfl, rfl⟩⟩
  · rename_i hbasic
    have hread : ¬ p.isExtended extended = true := hbasic
    exact ⟨⟨rfl, rfl, rfl, rfl, rfl⟩, by rw [if_neg hread]; rfl, by rw [if_neg hread],
      fun h => absurd h hread⟩

/-- The members that every visit of a thread record writes carry its values. -/
structure ThreadInfo.MirrorsCounters (ti : ThreadInfo) (t : SystemExtendedThreadInformation) :
    Prop where
  /-- Times. -/
  times : ti.kernelTime = t.threadInfo.kernelTime.toUInt64 ∧
    ti.userTime = t.threadInfo.userTime.toUInt64 ∧ ti.waitTime = t.threadInfo.waitTime
  /-- Priorities. -/
  priorities : ti.priority = t.threadInfo.priority ∧ ti.basePriority = t.threadInfo.basePriority
  /-- States. -/
  states : ti.threadState = t.threadInfo.threadState ∧ ti.waitReason = t.threadInfo.waitReason

/-- The members that only the creation of a thread object writes carry the values of a
record. -/
structure ThreadInfo.MirrorsCreation (ti : ThreadInfo) (t : SystemExtendedThreadInformation) :
    Prop where
  /-- Ids and the creation time. -/
  ids : ti.key = t.key ∧ ti.id = handleToULong t.threadInfo.clientId.uniqueThread ∧
    ti.processId = handleToULong t.threadInfo.clientId.uniqueProcess ∧
    ti.createTime = t.threadInfo.createTime.toUInt64
  /-- Addresses. -/
  addresses : ti.startAddress = t.threadInfo.startAddress ∧
    ti.win32StartAddress = t.win32StartAddress ∧ ti.stackBase = t.stackBase ∧
    ti.stackLimit = t.stackLimit ∧ ti.tebBase = t.tebBase

/-- A thread object carries the values of a record in all members that mirror one. -/
structure ThreadInfo.Mirrors (ti : ThreadInfo) (t : SystemExtendedThreadInformation) :
    Prop extends ti.MirrorsCounters t, ti.MirrorsCreation t where
  /-- The number of context switches. -/
  contextSwitches : ti.contextSwitches = t.threadInfo.contextSwitches

/-- The members of a process object that the visit of a record will leave alone hold its
values, in the object that the record finds known or in the memory where its object will be
created. -/
structure Impl.HoldsUnwritten (env : Environment) (m : Impl) (p : SystemProcessInformation)
    (pi : Ref ProcessInfo) : Prop where
  /-- The private working set is never written. -/
  workingSetPrivateSize : (m.process pi).workingSetPrivateSize = p.workingSetPrivateSize
  /-- A known object is not created again. -/
  creation : m.processHeap.Live pi → (m.process pi).MirrorsCreation env.isElevated p

/-- The members of a thread object that the visit of a record will leave alone hold its
values, in the object that the record finds known or in the memory where its object will be
created. -/
structure Impl.HoldsUnwrittenThread (m : Impl) (extraBytesThread : ℕ)
    (t : SystemExtendedThreadInformation) (ti : Ref ThreadInfo) : Prop where
  /-- The number of context switches is only written when a new object is zeroed. -/
  contextSwitches : (if m.threadHeap.Live ti then m.thread ti
      else ThreadInfo.make extraBytesThread (m.thread ti)).contextSwitches =
    t.threadInfo.contextSwitches
  /-- A known object is not created again. -/
  creation : m.threadHeap.Live ti → (m.thread ti).MirrorsCreation t

section Built

variable {env : Environment} {m m' : Impl} {c : Call} (hm : m.Keyed)
include hm

/-- **One process record.** The object of a record carries its values precisely when the
members that the visit leaves alone hold them before. -/
theorem Impl.Keyed.process_mirrors_iff
    {rec : SystemProcessInformation × List (Ref ThreadInfo)} {pi : Ref ProcessInfo}
    (hbuilt : Intake.Built (c.processBlueprint env m) m.processesByKey m.processHeap
      m'.processHeap rec pi) :
    (m'.process pi).Mirrors env.isElevated rec.1 ↔ m.HoldsUnwritten env rec.1 pi := by
  rcases hbuilt with ⟨hknown, hread⟩ | ⟨hdead, hread⟩
  · have hlive := (hm.processes _ _ hknown).1
    have hprocess : m'.process pi = (((m.process pi).update rec.1).addThreads rec.2).setCpu
        ((m.process pi).cpuSince rec.1 (c.ticks - m.prevTicks) env.totalProcessors) := hread
    rw [hprocess]
    constructor
    · exact fun hmirrors => ⟨hmirrors.workingSetPrivateSize,
        fun _ => ProcessInfo.update_mirrorsCreation_iff.mp hmirrors.toMirrorsCreation⟩
    · exact fun hheld => ⟨ProcessInfo.update_mirrorsCounters _ _ _ _,
        ProcessInfo.update_mirrorsCreation_iff.mpr (hheld.creation hlive),
        hheld.workingSetPrivateSize⟩
  · have hprocess : m'.process pi = ((((ProcessInfo.make (m.process pi)).identify env.isElevated
        rec.1).update rec.1).addThreads rec.2).setCpu 0 := hread
    have hprivate : (m'.process pi).workingSetPrivateSize =
        (m.process pi).workingSetPrivateSize := by
      rw [hprocess]
      exact ProcessInfo.identify_workingSetPrivateSize _ _ _
    constructor
    · exact fun hmirrors => ⟨hprivate.symm.trans hmirrors.workingSetPrivateSize,
        fun hlive => absurd hlive hdead⟩
    · intro hheld
      have hcounters : (m'.process pi).MirrorsCounters rec.1 := by
        rw [hprocess]
        exact ProcessInfo.update_mirrorsCounters _ _ _ _
      have hcreation : (m'.process pi).MirrorsCreation env.isElevated rec.1 := by
        rw [hprocess]
        exact ProcessInfo.update_mirrorsCreation_iff.mpr
          (ProcessInfo.identify_mirrorsCreation _ _ _)
      exact ⟨hcounters, hcreation, hprivate.trans hheld.workingSetPrivateSize⟩

/-- **One thread record.** The object of a record carries its values precisely when the
members that the visit leaves alone hold them before. -/
theorem Impl.Keyed.thread_mirrors_iff {rec : WString × SystemExtendedThreadInformation}
    {ti : Ref ThreadInfo}
    (hbuilt : Intake.Built (c.threadBlueprint env m) m.threadsByKey m.threadHeap
      m'.threadHeap rec ti) :
    (m'.thread ti).Mirrors rec.2 ↔ m.HoldsUnwrittenThread c.args.extraBytesThread rec.2 ti := by
  rcases hbuilt with ⟨hknown, hread⟩ | ⟨hdead, hread⟩
  · have hlive := (hm.threads _ _ hknown).1
    rw [Impl.thread, hread]
    constructor
    · intro hmirrors
      exact ⟨(if_pos hlive) ▸ hmirrors.contextSwitches,
        fun _ => ⟨hmirrors.ids, hmirrors.addresses⟩⟩
    · intro hheld
      have hswitches := hheld.contextSwitches
      rw [if_pos hlive] at hswitches
      exact ⟨⟨⟨rfl, rfl, rfl⟩, ⟨rfl, rfl⟩, ⟨rfl, rfl⟩⟩,
        ⟨(hheld.creation hlive).ids, (hheld.creation hlive).addresses⟩, hswitches⟩
  · rw [Impl.thread, hread]
    constructor
    · intro hmirrors
      exact ⟨(if_neg hdead) ▸ hmirrors.contextSwitches, fun hlive => absurd hlive hdead⟩
    · intro hheld
      have hswitches := hheld.contextSwitches
      rw [if_neg hdead] at hswitches
      exact ⟨⟨⟨rfl, rfl, rfl⟩, ⟨rfl, rfl⟩, ⟨rfl, rfl⟩⟩,
        ⟨⟨rfl, rfl, rfl, rfl⟩, ⟨rfl, rfl, rfl, rfl, rfl⟩⟩, hswitches⟩

end Built

/-- Two relations that agree wherever a third one holds align the same lists. -/
private theorem forall₂_congr_of {α β : Type} {P Q R : α → β → Prop} {l : List α} {u : List β}
    (hR : List.Forall₂ R l u) (hiff : ∀ a b, R a b → (P a b ↔ Q a b)) :
    List.Forall₂ P l u ↔ List.Forall₂ Q l u := by
  constructor
  · exact fun hP => List.Forall₂.mp (fun a b hr => (hiff a b hr).mp) hR hP
  · exact fun hQ => List.Forall₂.mp (fun a b hr => (hiff a b hr).mpr) hR hQ

section Run

variable (env : Environment) (rawProcesses : ℕ → ProcessInfo) (rawThreads : ℕ → ThreadInfo)

/-- **When the objects carry their records.** After a call at the end of any run, every
process object and, if the call is threaded, every thread object carries the values of its
record in all members that mirror one, precisely when the members that the call leaves
alone held these values before the call. -/
theorem Impl.run_mirrors_iff (calls : List Call) (c : Call) :
    let m := Impl.run env rawProcesses rawThreads calls
    let m' := Impl.run env rawProcesses rawThreads (calls ++ [c])
    (List.Forall₂ (fun p pi => (m'.process pi).Mirrors env.isElevated p) c.selected m'.processes ∧
      (c.args.includeThreads = true →
        List.Forall₂ (fun t ti => (m'.thread ti).Mirrors t) c.selectedThreads m'.threads)) ↔
    (List.Forall₂ (m.HoldsUnwritten env) c.selected
        (Intake.placement m.processesByKey m.processHeap.next c.keys) ∧
      (c.args.includeThreads = true →
        List.Forall₂ (m.HoldsUnwrittenThread c.args.extraBytesThread) c.selectedThreads
          (Intake.placement m.threadsByKey m.threadHeap.next c.threadKeys))) := by
  intro m m'
  obtain ⟨recs, thr, h⟩ := Impl.run_concat_rebuilt env rawProcesses rawThreads calls c
  have hm := (Impl.run_tracks env rawProcesses rawThreads calls).keyed
  have hprocesses : m'.processes =
      Intake.placement m.processesByKey m.processHeap.next c.keys := by
    rw [← h.map_key]
    exact (h.processSide hm).all_eq
  rw [← hprocesses]
  refine and_congr ?_ (imp_congr_right fun hthreaded => ?_)
  · rw [← h.recs_eq, List.forall₂_map_left_iff, List.forall₂_map_left_iff]
    exact forall₂_congr_of (h.processes_built hm) fun rec pi => hm.process_mirrors_iff
  · have hthreads : m'.threads =
        Intake.placement m.threadsByKey m.threadHeap.next c.threadKeys := by
      rw [← h.map_thread_key]
      exact (h.threadSide hm hthreaded).all_eq
    rw [← hthreads, ← h.thr_eq, List.forall₂_map_left_iff, List.forall₂_map_left_iff]
    exact forall₂_congr_of (h.threads_built hm hthreaded) fun rec ti => hm.thread_mirrors_iff

end Run

/-- A job, a private working set and a number of context switches that change between two
snapshots do not arrive in the objects. -/
theorem Impl.unwritten_members_stay :
    let thread : SystemExtendedThreadInformation := .bare 3 16 0
    let p : SystemProcessInformation := (SystemProcessInformation.bare 1 8).withThread thread
    let q : SystemProcessInformation := SystemProcessInformation.withThread
      { p with
        workingSetPrivateSize := 4096, extension := { p.extension with jobObjectId := 5 } }
      { thread with threadInfo := { thread.threadInfo with contextSwitches := 7 } }
    let first := Call.answered (.enumProcessesAndThreads 0 0 0) 100 p []
    let second := Call.answered (.enumProcessesAndThreads 0 0 0) 200 q []
    let m' := Impl.run ⟨4, true⟩ (fun _ => default) (fun _ => default) ([first] ++ [second])
    second.Succeeds ∧ second.Unfiltered ∧
      m'.processes.map (fun pi =>
        ((m'.process pi).workingSetPrivateSize, (m'.process pi).jobObjectId)) = [(0, 0)] ∧
      m'.threads.map (fun ti => (m'.thread ti).contextSwitches) = [0] ∧
      ¬ (List.Forall₂ (fun p pi => (m'.process pi).Mirrors true p) second.selected m'.processes ∧
        (second.args.includeThreads = true →
          List.Forall₂ (fun t ti => (m'.thread ti).Mirrors t) second.selectedThreads
            m'.threads)) := by
  intro thread p q first second m'
  have hmembers : m'.processes.map (fun pi =>
      ((m'.process pi).workingSetPrivateSize, (m'.process pi).jobObjectId)) = [(0, 0)] := by
    decide
  refine ⟨Call.answered_succeeds _ _ _ _, rfl, hmembers, by decide, fun hmirrors => ?_⟩
  have hselected : second.selected = [q] := by rfl
  obtain ⟨pi, hpi⟩ := List.length_eq_one_iff.mp
    ((congrArg List.length hmembers).symm.trans (List.length_map _)).symm
  rw [hpi] at hmembers hmirrors
  rw [hselected] at hmirrors
  have hprivate := (List.forall₂_cons.mp hmirrors.1).1.workingSetPrivateSize
  have hzero : (m'.process pi).workingSetPrivateSize = 0 :=
    congrArg Prod.fst (List.cons.inj hmembers).1
  rw [hzero] at hprivate
  exact absurd hprivate (by decide)

end WinSys
