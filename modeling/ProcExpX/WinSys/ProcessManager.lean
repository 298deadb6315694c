import ProcExpX.Library.UnorderedMap
import ProcExpX.WinSys.Objects

/-!
# The process manager

`ProcessManager::Impl` with `EnumProcesses` and `BuildProcessInfo`. One call
replaces the tables by those of a new snapshot, keeps the objects of processes
and threads that it saw before, and reports the difference. The heaps that the
shared pointers point into are part of the state.
-/

namespace WinSys

open Library

/-- A map of process objects by key. -/
abbrev ProcessMap := UnorderedMap ProcessOrThreadKey (Ref ProcessInfo)

/-- A map of thread objects by key. -/
abbrev ThreadMap := UnorderedMap ProcessOrThreadKey (Ref ThreadInfo)

/-- What the static members of `Impl` are initialized from. -/
structure Environment where
  /-- `_totalProcessors`. -/
  totalProcessors : UInt32
  /-- `_isElevated`. -/
  isElevated : Bool

/-- `ProcessManager::Impl`. -/
structure Impl where
  /-- `_processesById`. -/
  processesById : UnorderedMap UInt32 (Ref ProcessInfo)
  /-- `_processes`. -/
  processes : List (Ref ProcessInfo)
  /-- `_terminatedProcesses`. -/
  terminatedProcesses : List (Ref ProcessInfo)
  /-- `_newProcesses`. -/
  newProcesses : List (Ref ProcessInfo)
  /-- `_processesByKey`. -/
  processesByKey : ProcessMap
  /-- `_threads`. -/
  threads : List (Ref ThreadInfo)
  /-- `_newThreads`. -/
  newThreads : List (Ref ThreadInfo)
  /-- `_terminatedThreads`. -/
  terminatedThreads : List (Ref ThreadInfo)
  /-- `_threadsById`. -/
  threadsById : UnorderedMap UInt32 (Ref ThreadInfo)
  /-- `_threadsByKey`. -/
  threadsByKey : ThreadMap
  /-- `_prevTicks`. -/
  prevTicks : Int64
  /-- The process objects. -/
  processHeap : Heap ProcessInfo
  /-- The thread objects. -/
  threadHeap : Heap ThreadInfo

namespace Impl

/-- A new manager: empty tables, a zero tick count, and raw memory of any content. -/
def initial (rawProcesses : ℕ → ProcessInfo) (rawThreads : ℕ → ThreadInfo) : Impl :=
  { processesById := ∅, processes := [], terminatedProcesses := [], newProcesses := []
    processesByKey := ∅, threads := [], newThreads := [], terminatedThreads := []
    threadsById := ∅, threadsByKey := ∅, prevTicks := 0
    processHeap := ⟨rawProcesses, 0⟩, threadHeap := ⟨rawThreads, 0⟩ }

/-- `GetProcessById`. -/
def getProcessById (m : Impl) (pid : UInt32) : Option (Ref ProcessInfo) :=
  m.processesById.lookup pid

/-- `GetProcessByKey`. -/
def getProcessByKey (m : Impl) (key : ProcessOrThreadKey) : Option (Ref ProcessInfo) :=
  m.processesByKey.lookup key

/-- `GetThreadByKey`. -/
def getThreadByKey (m : Impl) (key : ProcessOrThreadKey) : Option (Ref ThreadInfo) :=
  m.threadsByKey.lookup key

/-- The object a process pointer points to. -/
def process (m : Impl) (pi : Ref ProcessInfo) : ProcessInfo := m.processHeap.read pi

/-- The object a thread pointer points to. -/
def thread (m : Impl) (ti : Ref ThreadInfo) : ThreadInfo := m.threadHeap.read ti

end Impl

/-- The parameters of `EnumProcesses`. -/
structure EnumArgs where
  /-- Whether threads are enumerated as well. -/
  includeThreads : Bool
  /-- The only process to enumerate, zero for all. -/
  pid : UInt32
  /-- Bytes to allocate behind each new process object. -/
  extraBytesProcess : ℕ
  /-- Bytes to allocate behind each new thread object. -/
  extraBytesThread : ℕ

/-- What `BuildProcessInfo` works on: the manager and the new thread map, which
it takes by reference. -/
structure Builder where
  /-- The manager. -/
  impl : Impl
  /-- `threadsByKey`, the map under construction. -/
  threadsByKey : ThreadMap

/-- The loop body of `BuildProcessInfo`: one thread record of process `pi`. -/
def buildThread (env : Environment) (args : EnumArgs) (delta : Int64) (pi : Ref ProcessInfo)
    (b : Builder) (tinfo : SystemExtendedThreadInformation) : Builder :=
  let m := b.impl
  match m.threadsByKey.lookup tinfo.key with
  | some thread =>
    let old := m.threadHeap.read thread
    let cpuTime := (old.userTime + old.kernelTime).toInt64
    let info := old.update tinfo
    let info := info.setCpu (info.cpuSince cpuTime delta env.totalProcessors)
    { impl :=
        { m with
          threadHeap := m.threadHeap.write thread info
          processHeap := m.processHeap.modify pi (·.addThread thread)
          threads := m.threads ++ [thread]
          threadsByKey := AList.erase info.key m.threadsByKey
          threadsById := m.threadsById.insertNew info.id thread }
      threadsByKey := b.threadsByKey.insertNew info.key thread }
  | none =>
    let thread := m.threadHeap.fresh
    let info := ThreadInfo.make args.extraBytesThread (m.threadHeap.read thread)
    let info := info.identify (m.processHeap.read pi).processName tinfo
    let info := (info.update tinfo).setCpu 0
    { impl :=
        { m with
          threadHeap := m.threadHeap.allocate info
          processHeap := m.processHeap.modify pi (·.addThread thread)
          threads := m.threads ++ [thread]
          newThreads := m.newThreads ++ [thread]
          threadsById := m.threadsById.insertNew info.id thread }
      threadsByKey := b.threadsByKey.insertNew info.key thread }

/-- `BuildProcessInfo`: build an object for a process record, or update the
object passed in, and then visit its threads. -/
def buildProcessInfo (env : Environment) (args : EnumArgs) (delta : Int64) (b : Builder)
    (info : SystemProcessInformation) (known : Option (Ref ProcessInfo)) :
    Builder × Ref ProcessInfo :=
  let heap := b.impl.processHeap
  let pi := known.getD heap.fresh
  let heap :=
    match known with
    | some _ => heap
    | none => heap.allocate ((ProcessInfo.make (heap.read pi)).identify env.isElevated info)
  let heap := heap.modify pi (·.update info)
  let b := { b with impl := { b.impl with processHeap := heap } }
  if args.includeThreads && decide (0 < (heap.read pi).id) then
    (info.threads.foldl (buildThread env args delta pi) b, pi)
  else (b, pi)

/-- The local variables of `EnumProcesses` that its loop changes. -/
structure EnumLocals extends Builder where
  /-- `processes`, the list under construction. -/
  processes : List (Ref ProcessInfo)
  /-- `processesByKey`, the map under construction. -/
  processesByKey : ProcessMap

/-- The end of the loop body: list the process and enter it into the maps. -/
def EnumLocals.record (e : EnumLocals) (key : ProcessOrThreadKey) (pi : Ref ProcessInfo) :
    EnumLocals :=
  { e with
    processes := e.processes ++ [pi]
    processesByKey := e.processesByKey.insertNew key pi
    impl := { e.impl with
      processesById := e.impl.processesById.insertNew (e.impl.process pi).id pi } }

/-- The filter of the loop: all processes, or the one asked for. -/
def EnumArgs.selects (args : EnumArgs) (p : SystemProcessInformation) : Bool :=
  args.pid == 0 || args.pid == handleToULong p.uniqueProcessId

/-- The loop body of `EnumProcesses`: one process record. -/
def enumProcess (env : Environment) (args : EnumArgs) (delta : Int64) (e : EnumLocals)
    (p : SystemProcessInformation) : EnumLocals :=
  if args.selects p then
    match e.impl.processesByKey.lookup p.key with
    | none =>
      let (b, pi) := buildProcessInfo env args delta e.toBuilder p none
      let e := { e with
        impl := { b.impl with
          newProcesses := b.impl.newProcesses ++ [pi]
          processHeap := b.impl.processHeap.modify pi (·.setCpu 0) }
        threadsByKey := b.threadsByKey }
      e.record p.key pi
    | some pi2 =>
      let cpu := (e.impl.process pi2).cpuSince p delta env.totalProcessors
      let (b, pi) := buildProcessInfo env args delta e.toBuilder p (some pi2)
      let e := { e with
        impl := { b.impl with
          processHeap := b.impl.processHeap.modify pi (·.setCpu cpu)
          processesByKey := AList.erase p.key b.impl.processesByKey }
        threadsByKey := b.threadsByKey }
      e.record p.key pi
  else e

/-- What a call of `EnumProcesses` meets outside the manager: the performance
counter, the answer of the system, and the iteration orders of the two maps. -/
structure EnumWorld where
  /-- The reading of `QueryPerformanceCounter`. -/
  ticks : Int64
  /-- The answer of `NtQuerySystemInformation`. -/
  answer : QueryAnswer
  /-- The order in which `_processesByKey` is traversed. -/
  processOrder : IterationOrder
  /-- The order in which `_threadsByKey` is traversed. -/
  threadOrder : IterationOrder

/-- The start of `EnumProcesses`: the containers that are cleared before the
system is asked. -/
def Impl.clearTables (m : Impl) (includeThreads : Bool) : Impl :=
  let m := { m with processesById := ∅, newProcesses := [] }
  if includeThreads then { m with newThreads := [], threads := [], threadsById := ∅ } else m

/-- The local variables of `EnumProcesses` before its loop, with the containers
cleared. -/
def Impl.locals (m : Impl) (includeThreads : Bool) : EnumLocals :=
  { impl := m.clearTables includeThreads, threadsByKey := ∅, processes := [], processesByKey := ∅ }

/-- The end of `EnumProcesses`: what the loop left in the old maps is reported
terminated, and the new tables replace the old ones. -/
def EnumLocals.finish (e : EnumLocals) (args : EnumArgs) (world : EnumWorld) : Impl :=
  let m := { e.impl with
    processes := e.processes
    terminatedProcesses := e.impl.processesByKey.values world.processOrder
    processesByKey := e.processesByKey }
  let m :=
    if args.includeThreads then
      { m with
        terminatedThreads := m.threadsByKey.values world.threadOrder
        threadsByKey := e.threadsByKey }
    else m
  { m with prevTicks := world.ticks }

/-- `Impl::EnumProcesses`, with the count it returns. -/
def Impl.enumProcesses (env : Environment) (args : EnumArgs) (world : EnumWorld) (m : Impl) :
    Impl × UInt32 :=
  let delta := world.ticks - m.prevTicks
  let e := m.locals args.includeThreads
  let e :=
    match world.answer with
    | .success snapshot => snapshot.records.foldl (enumProcess env args delta) e
    | .failure => e
  let m := e.finish args world
  (m, UInt32.ofNat m.processes.length)

/-- The two entry points of `ProcessManager` that enumerate. -/
inductive Api
  /-- `EnumProcesses()`. -/
  | enumProcesses
  /-- `EnumProcessesAndThreads(pid, extraBytesProcess, extraBytesThread)`. -/
  | enumProcessesAndThreads (pid : UInt32) (extraBytesProcess extraBytesThread : ℕ)

/-- The arguments that an entry point passes on. -/
def Api.args : Api → EnumArgs
  | .enumProcesses => ⟨false, 0, 0, 0⟩
  | .enumProcessesAndThreads pid extraBytesProcess extraBytesThread =>
    ⟨true, pid, extraBytesProcess, extraBytesThread⟩

/-- A call of one of the entry points together with what it meets. -/
structure Call extends EnumWorld where
  /-- The entry point and its arguments. -/
  api : Api

/-- The arguments of a call. -/
def Call.args (c : Call) : EnumArgs := c.api.args

/-- The state after a call. -/
def Impl.step (env : Environment) (m : Impl) (c : Call) : Impl :=
  (m.enumProcesses env c.args c.toEnumWorld).1

/-- The state after a run of calls on a new manager over the given raw memory. -/
def Impl.run (env : Environment) (rawProcesses : ℕ → ProcessInfo) (rawThreads : ℕ → ThreadInfo)
    (calls : List Call) : Impl :=
  calls.foldl (Impl.step env) (Impl.initial rawProcesses rawThreads)

end WinSys
