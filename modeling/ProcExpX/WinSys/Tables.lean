import ProcExpX.Library.Rebuild
import ProcExpX.WinSys.ProcessManager

/-!
# The manager as two rosters

The tables of the manager are two instances of one pattern: a roster of processes
and a roster of threads, each rebuilt from the records of a snapshot. This file
proves that the loops of `EnumProcesses` and `BuildProcessInfo` perform exactly
these two rebuilds, although they run nested and write both heaps.
-/

namespace WinSys

open Library

/-- What thread objects are known under. -/
def threadIdentity : Identity ProcessOrThreadKey UInt32 ThreadInfo where
  ident key := key.id
  keyOf thread := thread.key
  identOf thread := thread.id

/-- What process objects are known under. -/
def processIdentity : Identity ProcessOrThreadKey UInt32 ProcessInfo where
  ident key := key.id
  keyOf pi := pi.key
  identOf pi := pi.id

/-- How thread records become thread objects. A record comes with the image name
of its process, which a new thread object copies. -/
def threadBlueprint (env : Environment) (args : EnumArgs) (delta : Int64) :
    Blueprint (WString × SystemExtendedThreadInformation) ProcessOrThreadKey UInt32 ThreadInfo where
  toIdentity := threadIdentity
  key rec := rec.2.key
  create rec raw :=
    (((ThreadInfo.make args.extraBytesThread raw).identify rec.1 rec.2).update rec.2).setCpu 0
  refresh rec old :=
    (old.update rec.2).setCpu ((old.update rec.2).cpuSince
      (old.userTime + old.kernelTime).toInt64 delta env.totalProcessors)
  keyOf_create _ _ := rfl
  identOf_create _ _ := rfl
  keyOf_refresh _ _ := rfl
  identOf_refresh _ _ := rfl

/-- How process records become process objects. A record comes with the thread
objects that the nested loop adds to the process. -/
def processBlueprint (env : Environment) (delta : Int64) :
    Blueprint (SystemProcessInformation × List (Ref ThreadInfo)) ProcessOrThreadKey UInt32
      ProcessInfo where
  toIdentity := processIdentity
  key rec := rec.1.key
  create rec raw :=
    ((((ProcessInfo.make raw).identify env.isElevated rec.1).update rec.1).addThreads
      rec.2).setCpu 0
  refresh rec old :=
    ((old.update rec.1).addThreads rec.2).setCpu
      (old.cpuSince rec.1 delta env.totalProcessors)
  keyOf_create rec _ := ProcessInfo.identify_key _ _ rec.1
  identOf_create rec _ := ProcessInfo.identify_id _ _ rec.1
  keyOf_refresh _ _ := rfl
  identOf_refresh _ _ := rfl

/-- The thread side of the nested loop. -/
def Builder.threadIntake (b : Builder) : Intake ProcessOrThreadKey UInt32 ThreadInfo :=
  { known := b.impl.threadsByKey, byKey := b.threadsByKey, byId := b.impl.threadsById
    listed := b.impl.threads, added := b.impl.newThreads, heap := b.impl.threadHeap }

/-- The process side of the outer loop. -/
def EnumLocals.processIntake (e : EnumLocals) : Intake ProcessOrThreadKey UInt32 ProcessInfo :=
  { known := e.impl.processesByKey, byKey := e.processesByKey, byId := e.impl.processesById
    listed := e.processes, added := e.impl.newProcesses, heap := e.impl.processHeap }

/-- The processes the manager tracks. -/
def Impl.processRoster (m : Impl) : Roster ProcessOrThreadKey UInt32 ProcessInfo :=
  { byKey := m.processesByKey, byId := m.processesById, all := m.processes
    added := m.newProcesses, removed := m.terminatedProcesses, heap := m.processHeap }

/-- The threads the manager tracks. -/
def Impl.threadRoster (m : Impl) : Roster ProcessOrThreadKey UInt32 ThreadInfo :=
  { byKey := m.threadsByKey, byId := m.threadsById, all := m.threads
    added := m.newThreads, removed := m.terminatedThreads, heap := m.threadHeap }

/-- The threads that a process record contributes to a call: none in an
unthreaded call, and none for the process with pid zero. -/
def EnumArgs.threadsOf (args : EnumArgs) (p : SystemProcessInformation) :
    List SystemExtendedThreadInformation :=
  if args.includeThreads && decide (0 < p.key.id) then p.threads else []

/-- What no part of the nested loop writes. -/
structure Impl.ThreadFrame (m m' : Impl) : Prop where
  /-- The processes by id. -/
  processesById : m'.processesById = m.processesById
  /-- The process list. -/
  processes : m'.processes = m.processes
  /-- The terminated processes. -/
  terminatedProcesses : m'.terminatedProcesses = m.terminatedProcesses
  /-- The new processes. -/
  newProcesses : m'.newProcesses = m.newProcesses
  /-- The processes by key. -/
  processesByKey : m'.processesByKey = m.processesByKey
  /-- The terminated threads. -/
  terminatedThreads : m'.terminatedThreads = m.terminatedThreads
  /-- The tick count. -/
  prevTicks : m'.prevTicks = m.prevTicks

/-- The frame of an empty loop. -/
theorem Impl.ThreadFrame.refl (m : Impl) : m.ThreadFrame m := by constructor <;> rfl

/-- Frames compose. -/
theorem Impl.ThreadFrame.trans {m m' m'' : Impl} (h : m.ThreadFrame m') (h' : m'.ThreadFrame m'') :
    m.ThreadFrame m'' where
  processesById := h'.processesById.trans h.processesById
  processes := h'.processes.trans h.processes
  terminatedProcesses := h'.terminatedProcesses.trans h.terminatedProcesses
  newProcesses := h'.newProcesses.trans h.newProcesses
  processesByKey := h'.processesByKey.trans h.processesByKey
  terminatedThreads := h'.terminatedThreads.trans h.terminatedThreads
  prevTicks := h'.prevTicks.trans h.prevTicks

section Threads

variable (env : Environment) (args : EnumArgs) (delta : Int64) (pi : Ref ProcessInfo)

/-- **One thread record.** The body of the nested loop visits the record on the
thread side and adds the visited object to its process. -/
theorem buildThread_simulates (b : Builder) (tinfo : SystemExtendedThreadInformation)
    (hkeyed : (threadBlueprint env args delta).Keyed b.impl.threadsByKey b.impl.threadHeap) :
    (buildThread env args delta pi b tinfo).threadIntake =
        b.threadIntake.visit (threadBlueprint env args delta)
          ((b.impl.process pi).processName, tinfo) ∧
      b.impl.ThreadFrame (buildThread env args delta pi b tinfo).impl ∧
      ∃ thread, (buildThread env args delta pi b tinfo).impl.threads = b.impl.threads ++ [thread] ∧
        (buildThread env args delta pi b tinfo).impl.processHeap =
          b.impl.processHeap.modify pi (·.addThreads [thread]) := by
  cases hlookup : b.impl.threadsByKey.lookup tinfo.key with
  | some thread =>
    obtain ⟨-, hkey, hid⟩ := hkeyed _ _ hlookup
    have hkey' : (b.impl.threadHeap.read thread).key = tinfo.key := hkey
    have hid' : (b.impl.threadHeap.read thread).id = tinfo.key.id := hid
    have hvisit : b.threadIntake.known.lookup
        ((threadBlueprint env args delta).key ((b.impl.process pi).processName, tinfo)) =
          some thread := hlookup
    refine ⟨?_, ?_, thread, ?_, ?_⟩
    · rw [Intake.visit, hvisit]
      simp only [buildThread, hlookup, Builder.threadIntake, ThreadInfo.setCpu_key,
        ThreadInfo.update_key, ThreadInfo.setCpu_id, ThreadInfo.update_id, hkey', hid']
      rfl
    · simp only [buildThread, hlookup]
      constructor <;> rfl
    · simp only [buildThread, hlookup]
    · simp only [buildThread, hlookup]
      rfl
  | none =>
    have hvisit : b.threadIntake.known.lookup
        ((threadBlueprint env args delta).key ((b.impl.process pi).processName, tinfo)) =
          none := hlookup
    refine ⟨?_, ?_, b.impl.threadHeap.fresh, ?_, ?_⟩
    · rw [Intake.visit, hvisit]
      simp only [buildThread, hlookup, Builder.threadIntake]
      rfl
    · simp only [buildThread, hlookup]
      constructor <;> rfl
    · simp only [buildThread, hlookup]
    · simp only [buildThread, hlookup]
      rfl

/-- **All threads of a process.** The nested loop visits the thread records in
order and adds the visited objects to the process, which it changes in no other way. -/
theorem buildThreads_simulate (b : Builder) (ts : List SystemExtendedThreadInformation)
    (hkeyed : (threadBlueprint env args delta).Keyed b.impl.threadsByKey b.impl.threadHeap) :
    (ts.foldl (buildThread env args delta pi) b).threadIntake =
        b.threadIntake.visitAll (threadBlueprint env args delta)
          (ts.map fun t => ((b.impl.process pi).processName, t)) ∧
      b.impl.ThreadFrame (ts.foldl (buildThread env args delta pi) b).impl ∧
      ∃ threads, threads.length = ts.length ∧
        (ts.foldl (buildThread env args delta pi) b).impl.threads = b.impl.threads ++ threads ∧
        (ts.foldl (buildThread env args delta pi) b).impl.processHeap =
          b.impl.processHeap.modify pi (·.addThreads threads) := by
  induction ts generalizing b with
  | nil =>
    refine ⟨rfl, .refl _, [], rfl, by simp, ?_⟩
    simp [Heap.modify, ProcessInfo.addThreads, Heap.write, Heap.read]
  | cons t ts ih =>
    obtain ⟨hintake, hframe, thread, hthreads, hheap⟩ :=
      buildThread_simulates env args delta pi b t hkeyed
    have hkeyed' : (threadBlueprint env args delta).Keyed
        (buildThread env args delta pi b t).impl.threadsByKey
        (buildThread env args delta pi b t).impl.threadHeap := by
      have h := Intake.visit_known_keyed (t := b.threadIntake) hkeyed
        ((b.impl.process pi).processName, t)
      rwa [← hintake] at h
    have hname : ((buildThread env args delta pi b t).impl.process pi).processName =
        (b.impl.process pi).processName := by
      rw [Impl.process, hheap, Heap.modify, Heap.read_write_self]
      rfl
    obtain ⟨hintake', hframe', threads, hlength, hthreads', hheap'⟩ := ih _ hkeyed'
    rw [List.foldl_cons]
    refine ⟨?_, hframe.trans hframe', thread :: threads, by simp [hlength], ?_, ?_⟩
    · rw [hintake', hintake, hname]
      rfl
    · rw [hthreads', hthreads, List.append_assoc, List.singleton_append]
    · rw [hheap', hheap]
      simp [Heap.modify, ProcessInfo.addThreads]

end Threads

end WinSys
