import ProcExpX.Library.Heap
import ProcExpX.WinSys.SystemInformation

/-!
# Process and thread objects

`ProcessInfo` and `ThreadInfo` with the parts of `BuildProcessInfo` that write
their members: the part done once for a new object, the part done from every
record, and the two CPU formulas. Arithmetic is that of the C++ types.
-/

namespace WinSys

open Library

/-- `ThreadInfo`. -/
structure ThreadInfo where
  /-- Time spent in kernel mode. -/
  kernelTime : UInt64
  /-- Time spent in user mode. -/
  userTime : UInt64
  /-- Creation time. -/
  createTime : UInt64
  /-- Time spent waiting. -/
  waitTime : UInt32
  /-- Thread id. -/
  id : UInt32
  /-- Id of the owning process. -/
  processId : UInt32
  /-- Current priority. -/
  priority : Int32
  /-- Base priority. -/
  basePriority : Int32
  /-- Number of context switches. -/
  contextSwitches : UInt32
  /-- A `ThreadState`, any value of its underlying type. -/
  threadState : UInt32
  /-- A `WaitReason`, any value of its underlying type. -/
  waitReason : UInt32
  /-- Share of CPU time since the previous enumeration, in millionths. -/
  cpu : Int32
  /-- Start address. -/
  startAddress : UInt64
  /-- Top of the kernel stack. -/
  stackBase : UInt64
  /-- Limit of the kernel stack. -/
  stackLimit : UInt64
  /-- Start address as seen by the Windows subsystem. -/
  win32StartAddress : UInt64
  /-- Address of the thread environment block. -/
  tebBase : UInt64
  /-- The key of the thread. -/
  key : ProcessOrThreadKey
  /-- Image name of the owning process. -/
  processName : WString
  deriving Inhabited

/-- `ProcessInfo`. The cached user name is left out; no enumeration touches it. -/
structure ProcessInfo where
  /-- Base priority. -/
  basePriority : Int32
  /-- Process id. -/
  id : UInt32
  /-- Id of the creating process. -/
  parentId : UInt32
  /-- Number of open handles. -/
  handleCount : UInt32
  /-- Number of threads. -/
  threadCount : UInt32
  /-- Largest number of threads so far. -/
  peakThreads : UInt32
  /-- Number of hard faults. -/
  hardFaultCount : UInt32
  /-- Session id. -/
  sessionId : UInt32
  /-- Virtual size. -/
  virtualSize : UInt64
  /-- Peak virtual size. -/
  peakVirtualSize : UInt64
  /-- Creation time. -/
  createTime : Int64
  /-- Time spent in user mode. -/
  userTime : Int64
  /-- Time spent in kernel mode. -/
  kernelTime : Int64
  /-- Number of page faults. -/
  pageFaultCount : UInt32
  /-- Peak working set. -/
  peakWorkingSetSize : UInt64
  /-- Working set. -/
  workingSetSize : UInt64
  /-- Peak paged pool quota. -/
  peakPagedPoolUsage : UInt64
  /-- Paged pool quota. -/
  pagedPoolUsage : UInt64
  /-- Peak non-paged pool quota. -/
  peakNonPagedPoolUsage : UInt64
  /-- Non-paged pool quota. -/
  nonPagedPoolUsage : UInt64
  /-- Page file use. -/
  pagefileUsage : UInt64
  /-- Peak page file use. -/
  peakPagefileUsage : UInt64
  /-- Private pages. -/
  privatePageCount : UInt64
  /-- Number of reads. -/
  readOperationCount : Int64
  /-- Number of writes. -/
  writeOperationCount : Int64
  /-- Number of other operations. -/
  otherOperationCount : Int64
  /-- Bytes read. -/
  readTransferCount : Int64
  /-- Bytes written. -/
  writeTransferCount : Int64
  /-- Bytes of other operations. -/
  otherTransferCount : Int64
  /-- Cycles used. -/
  cycleTime : UInt64
  /-- Private working set; no enumeration writes it. -/
  workingSetPrivateSize : Int64
  /-- Share of CPU time since the previous enumeration, in millionths. -/
  cpu : Int32
  /-- The job the process belongs to. -/
  jobObjectId : UInt32
  /-- Security identifier of the user. -/
  userSid : List UInt8
  /-- The key of the process. -/
  key : ProcessOrThreadKey
  /-- Image name without directory. -/
  processName : WString
  /-- Image path in native form. -/
  nativeImagePath : WString
  /-- Full name of the package. -/
  packageFullName : WString
  /-- The threads added to the process. -/
  threads : List (Ref ThreadInfo)
  deriving Inhabited

namespace ThreadInfo

/-- `std::make_shared<ThreadInfo>()` when no extra bytes are asked for, which
zeroes the members; placement `new` without initializer otherwise, which leaves
all but the string as the memory was. -/
def make (extraBytesThread : ℕ) (raw : ThreadInfo) : ThreadInfo :=
  if extraBytesThread = 0 then
    { kernelTime := 0, userTime := 0, createTime := 0, waitTime := 0, id := 0, processId := 0
      priority := 0, basePriority := 0, contextSwitches := 0, threadState := 0, waitReason := 0
      cpu := 0, startAddress := 0, stackBase := 0, stackLimit := 0, win32StartAddress := 0
      tebBase := 0, key := ⟨0, 0⟩, processName := [] }
  else { raw with processName := [] }

/-- The members `BuildProcessInfo` writes for a new thread only. -/
def identify (thread : ThreadInfo) (processName : WString)
    (tinfo : SystemExtendedThreadInformation) : ThreadInfo :=
  { thread with
    processName := processName
    id := handleToULong tinfo.threadInfo.clientId.uniqueThread
    processId := handleToULong tinfo.threadInfo.clientId.uniqueProcess
    createTime := tinfo.threadInfo.createTime.toUInt64
    startAddress := tinfo.threadInfo.startAddress
    stackBase := tinfo.stackBase
    stackLimit := tinfo.stackLimit
    win32StartAddress := tinfo.win32StartAddress
    tebBase := tinfo.tebBase
    key := tinfo.key }

/-- The members `BuildProcessInfo` writes from every thread record. -/
def update (thread : ThreadInfo) (tinfo : SystemExtendedThreadInformation) : ThreadInfo :=
  { thread with
    kernelTime := tinfo.threadInfo.kernelTime.toUInt64
    userTime := tinfo.threadInfo.userTime.toUInt64
    priority := tinfo.threadInfo.priority
    basePriority := tinfo.threadInfo.basePriority
    threadState := tinfo.threadInfo.threadState
    waitReason := tinfo.threadInfo.waitReason
    waitTime := tinfo.threadInfo.waitTime }

/-- Assignment to `CPU`. -/
def setCpu (thread : ThreadInfo) (cpu : Int32) : ThreadInfo := { thread with cpu := cpu }

/-- An update keeps the key. -/
@[simp] theorem update_key (thread : ThreadInfo) (tinfo : SystemExtendedThreadInformation) :
    (thread.update tinfo).key = thread.key := rfl

/-- An update keeps the id. -/
@[simp] theorem update_id (thread : ThreadInfo) (tinfo : SystemExtendedThreadInformation) :
    (thread.update tinfo).id = thread.id := rfl

/-- The CPU value is not part of the key. -/
@[simp] theorem setCpu_key (thread : ThreadInfo) (cpu : Int32) :
    (thread.setCpu cpu).key = thread.key := rfl

/-- The CPU value is not part of the id. -/
@[simp] theorem setCpu_id (thread : ThreadInfo) (cpu : Int32) :
    (thread.setCpu cpu).id = thread.id := rfl

/-- The CPU value of a thread seen before, in unsigned 64-bit arithmetic, from
its new times and its previous total time. -/
def cpuSince (thread : ThreadInfo) (cpuTime delta : Int64) (totalProcessors : UInt32) : Int32 :=
  if delta = 0 then 0
  else
    ((thread.kernelTime + thread.userTime - cpuTime.toUInt64) * 1000000 / delta.toUInt64 /
      totalProcessors.toUInt64).toUInt32.toInt32

end ThreadInfo

namespace ProcessInfo

/-- A new `ProcessInfo`. Its constructor is user-provided and empty, so both ways
of allocating it leave the scalar members as the memory was. -/
def make (raw : ProcessInfo) : ProcessInfo :=
  { raw with processName := [], nativeImagePath := [], packageFullName := [], threads := [] }

/-- The part of a path after its last backslash, the whole path if it has none. -/
def fileName (path : WString) : WString :=
  (path.reverse.takeWhile (· ≠ 0x5C)).reverse

/-- The members `BuildProcessInfo` writes for a new process only. -/
def identify (pi : ProcessInfo) (extended : Bool) (info : SystemProcessInformation) :
    ProcessInfo :=
  let pi :=
    { pi with
      id := handleToULong info.uniqueProcessId
      sessionId := info.sessionId
      createTime := info.createTime
      key := ⟨info.createTime, handleToULong info.uniqueProcessId⟩
      parentId := handleToULong info.inheritedFromUniqueProcessId
      threads := [] }
  let name := if info.uniqueProcessId = 0 then wide "(Idle)" else info.imageName
  if extended && info.uniqueProcessId != 0 then
    { pi with
      jobObjectId := info.extension.jobObjectId
      userSid := info.extension.userSid
      processName := fileName name
      nativeImagePath := name
      packageFullName := info.extension.packageFullName.getD pi.packageFullName }
  else { pi with processName := name, jobObjectId := 0 }

/-- The members `BuildProcessInfo` writes from every process record. -/
def update (pi : ProcessInfo) (info : SystemProcessInformation) : ProcessInfo :=
  { pi with
    threadCount := info.numberOfThreads
    basePriority := info.basePriority
    userTime := info.userTime
    kernelTime := info.kernelTime
    handleCount := info.handleCount
    pageFaultCount := info.pageFaultCount
    peakThreads := info.numberOfThreadsHighWatermark
    peakVirtualSize := info.peakVirtualSize
    virtualSize := info.virtualSize
    workingSetSize := info.workingSetSize
    peakWorkingSetSize := info.peakWorkingSetSize
    pagefileUsage := info.pagefileUsage
    otherOperationCount := info.otherOperationCount
    readOperationCount := info.readOperationCount
    writeOperationCount := info.writeOperationCount
    hardFaultCount := info.hardFaultCount
    otherTransferCount := info.otherTransferCount
    readTransferCount := info.readTransferCount
    writeTransferCount := info.writeTransferCount
    peakPagefileUsage := info.peakPagefileUsage
    cycleTime := info.cycleTime
    nonPagedPoolUsage := info.quotaNonPagedPoolUsage
    pagedPoolUsage := info.quotaPagedPoolUsage
    peakNonPagedPoolUsage := info.quotaPeakNonPagedPoolUsage
    peakPagedPoolUsage := info.quotaPeakPagedPoolUsage
    privatePageCount := info.privatePageCount }

/-- Assignment to `CPU`. -/
def setCpu (pi : ProcessInfo) (cpu : Int32) : ProcessInfo := { pi with cpu := cpu }

/-- `AddThread`. -/
def addThread (pi : ProcessInfo) (thread : Ref ThreadInfo) : ProcessInfo :=
  { pi with threads := pi.threads ++ [thread] }

/-- Add several threads to a process. -/
def addThreads (pi : ProcessInfo) (threads : List (Ref ThreadInfo)) : ProcessInfo :=
  { pi with threads := pi.threads ++ threads }

/-- The CPU value of a process seen before, in signed 64-bit arithmetic, from its
new record and its times in the previous one. -/
def cpuSince (pi2 : ProcessInfo) (p : SystemProcessInformation) (delta : Int64)
    (totalProcessors : UInt32) : Int32 :=
  if delta = 0 then 0
  else
    ((p.kernelTime + p.userTime - pi2.userTime - pi2.kernelTime) * 1000000 / delta /
      totalProcessors.toUInt64.toInt64).toInt32

/-- A new process object has the key of its record. -/
@[simp] theorem identify_key (pi : ProcessInfo) (extended : Bool)
    (info : SystemProcessInformation) : (pi.identify extended info).key = info.key := by
  unfold identify
  dsimp only
  split <;> rfl

/-- A new process object has the pid of its record. -/
@[simp] theorem identify_id (pi : ProcessInfo) (extended : Bool)
    (info : SystemProcessInformation) : (pi.identify extended info).id = info.key.id := by
  unfold identify
  dsimp only
  split <;> rfl

/-- A new process object has no thread. -/
@[simp] theorem identify_threads (pi : ProcessInfo) (extended : Bool)
    (info : SystemProcessInformation) : (pi.identify extended info).threads = [] := by
  unfold identify
  dsimp only
  split <;> rfl

/-- A new process object has the private working set that the memory held. -/
@[simp] theorem identify_workingSetPrivateSize (pi : ProcessInfo) (extended : Bool)
    (info : SystemProcessInformation) :
    (pi.identify extended info).workingSetPrivateSize = pi.workingSetPrivateSize := by
  unfold identify
  dsimp only
  split <;> rfl

/-- An update keeps the pid. -/
@[simp] theorem update_id (pi : ProcessInfo) (info : SystemProcessInformation) :
    (pi.update info).id = pi.id := rfl

/-- The threads are not part of the pid. -/
@[simp] theorem addThreads_id (pi : ProcessInfo) (threads : List (Ref ThreadInfo)) :
    (pi.addThreads threads).id = pi.id := rfl

/-- The CPU value is not part of the pid. -/
@[simp] theorem setCpu_id (pi : ProcessInfo) (cpu : Int32) : (pi.setCpu cpu).id = pi.id := rfl

end ProcessInfo

end WinSys
