import ProcExpX.WinSys.Keys

/-!
# Records of a system snapshot

The records that `NtQuerySystemInformation` writes for `SystemFullProcessInformation`
and `SystemExtendedProcessInformation`, with the members that the process manager
reads. Offsets into the buffer are resolved: the threads of a process are a list
and the extension record carries the strings its offsets point to.
-/

namespace WinSys

/-- `CLIENT_ID`: the ids of a thread and of its process. -/
structure ClientId where
  /-- The process id. -/
  uniqueProcess : Handle
  /-- The thread id. -/
  uniqueThread : Handle
  deriving Inhabited

/-- `SYSTEM_THREAD_INFORMATION`. -/
structure SystemThreadInformation where
  /-- Time spent in kernel mode. -/
  kernelTime : Int64
  /-- Time spent in user mode. -/
  userTime : Int64
  /-- Creation time. -/
  createTime : Int64
  /-- Time spent waiting. -/
  waitTime : UInt32
  /-- Start address. -/
  startAddress : UInt64
  /-- Process and thread id. -/
  clientId : ClientId
  /-- Current priority. -/
  priority : Int32
  /-- Base priority. -/
  basePriority : Int32
  /-- Number of context switches. -/
  contextSwitches : UInt32
  /-- A `KTHREAD_STATE`. -/
  threadState : UInt32
  /-- A `KWAIT_REASON`. -/
  waitReason : UInt32
  deriving Inhabited

/-- `SYSTEM_EXTENDED_THREAD_INFORMATION`. -/
structure SystemExtendedThreadInformation where
  /-- The basic record. -/
  threadInfo : SystemThreadInformation
  /-- Top of the kernel stack. -/
  stackBase : UInt64
  /-- Limit of the kernel stack. -/
  stackLimit : UInt64
  /-- Start address as seen by the Windows subsystem. -/
  win32StartAddress : UInt64
  /-- Address of the thread environment block. -/
  tebBase : UInt64
  deriving Inhabited

/-- The key `BuildProcessInfo` forms for a thread record. -/
def SystemExtendedThreadInformation.key (t : SystemExtendedThreadInformation) :
    ProcessOrThreadKey :=
  ⟨t.threadInfo.createTime, handleToULong t.threadInfo.clientId.uniqueThread⟩

/-- A thread record with the given creation time, id and time in user mode, and all
other members zero. -/
def SystemExtendedThreadInformation.bare (createTime : Int64) (tid : Handle)
    (userTime : Int64) : SystemExtendedThreadInformation :=
  { (default : SystemExtendedThreadInformation) with
    threadInfo := { (default : SystemThreadInformation) with
      createTime := createTime, userTime := userTime, clientId := ⟨0, tid⟩ } }

/-- `SYSTEM_PROCESS_INFORMATION_EXTENSION`, present in a full snapshot only. -/
structure SystemProcessInformationExtension where
  /-- The job the process belongs to. -/
  jobObjectId : UInt32
  /-- The bytes at `UserSidOffset`. -/
  userSid : List UInt8
  /-- The string at `PackageFullNameOffset`, unless that offset is zero. -/
  packageFullName : Option WString
  deriving Inhabited

/-- `SYSTEM_PROCESS_INFORMATION` with its threads and its extension. -/
structure SystemProcessInformation where
  /-- Number of thread records. -/
  numberOfThreads : UInt32
  /-- Private working set. -/
  workingSetPrivateSize : Int64
  /-- Number of hard faults. -/
  hardFaultCount : UInt32
  /-- Largest number of threads so far. -/
  numberOfThreadsHighWatermark : UInt32
  /-- Cycles used. -/
  cycleTime : UInt64
  /-- Creation time. -/
  createTime : Int64
  /-- Time spent in user mode. -/
  userTime : Int64
  /-- Time spent in kernel mode. -/
  kernelTime : Int64
  /-- Image name; a full path in a full snapshot. -/
  imageName : WString
  /-- Base priority. -/
  basePriority : Int32
  /-- Process id. -/
  uniqueProcessId : Handle
  /-- Id of the creating process. -/
  inheritedFromUniqueProcessId : Handle
  /-- Number of open handles. -/
  handleCount : UInt32
  /-- Session id. -/
  sessionId : UInt32
  /-- Peak virtual size. -/
  peakVirtualSize : UInt64
  /-- Virtual size. -/
  virtualSize : UInt64
  /-- Number of page faults. -/
  pageFaultCount : UInt32
  /-- Peak working set. -/
  peakWorkingSetSize : UInt64
  /-- Working set. -/
  workingSetSize : UInt64
  /-- Peak paged pool quota. -/
  quotaPeakPagedPoolUsage : UInt64
  /-- Paged pool quota. -/
  quotaPagedPoolUsage : UInt64
  /-- Peak non-paged pool quota. -/
  quotaPeakNonPagedPoolUsage : UInt64
  /-- Non-paged pool quota. -/
  quotaNonPagedPoolUsage : UInt64
  /-- Page file use. -/
  pagefileUsage : UInt64
  /-- Peak page file use. -/
  peakPagefileUsage : UInt64
  /-- Private pages. -/
  privatePageCount : UInt64
  /-- Number of reads. -/
  readOperationCount : Int64
  /-- Number of writes. -/
  writeOperationCount : Int64
  /-- Number of other operations. -/
  otherOperationCount : Int64
  /-- Bytes read. -/
  readTransferCount : Int64
  /-- Bytes written. -/
  writeTransferCount : Int64
  /-- Bytes of other operations. -/
  otherTransferCount : Int64
  /-- The thread records that follow. -/
  threads : List SystemExtendedThreadInformation
  /-- The extension record after the threads. -/
  extension : SystemProcessInformationExtension
  /-- The system writes as many thread records as it announces. -/
  threads_length : threads.length = numberOfThreads.toNat

/-- A process record with all members zero and no thread. -/
def SystemProcessInformation.zero : SystemProcessInformation :=
  { numberOfThreads := 0, workingSetPrivateSize := 0, hardFaultCount := 0
    numberOfThreadsHighWatermark := 0, cycleTime := 0, createTime := 0, userTime := 0
    kernelTime := 0, imageName := [], basePriority := 0, uniqueProcessId := 0
    inheritedFromUniqueProcessId := 0, handleCount := 0, sessionId := 0, peakVirtualSize := 0
    virtualSize := 0, pageFaultCount := 0, peakWorkingSetSize := 0, workingSetSize := 0
    quotaPeakPagedPoolUsage := 0, quotaPagedPoolUsage := 0, quotaPeakNonPagedPoolUsage := 0
    quotaNonPagedPoolUsage := 0, pagefileUsage := 0, peakPagefileUsage := 0
    privatePageCount := 0, readOperationCount := 0, writeOperationCount := 0
    otherOperationCount := 0, readTransferCount := 0, writeTransferCount := 0
    otherTransferCount := 0, threads := [], extension := default, threads_length := rfl }

/-- A process record with the given creation time and id, no thread, and all other
members zero. -/
def SystemProcessInformation.bare (createTime : Int64) (pid : Handle) :
    SystemProcessInformation :=
  { SystemProcessInformation.zero with createTime := createTime, uniqueProcessId := pid }

/-- The same process with a single thread. -/
def SystemProcessInformation.withThread (p : SystemProcessInformation)
    (t : SystemExtendedThreadInformation) : SystemProcessInformation :=
  { p with numberOfThreads := 1, threads := [t], threads_length := rfl }

/-- The key `EnumProcesses` forms for a process record. -/
def SystemProcessInformation.key (p : SystemProcessInformation) : ProcessOrThreadKey :=
  ⟨p.createTime, handleToULong p.uniqueProcessId⟩

/-- The buffer of a successful query: a chain of process records linked by
`NextEntryOffset`, which has at least one record. -/
structure Snapshot where
  /-- The records in the order of the chain. -/
  records : List SystemProcessInformation
  /-- The chain has a first record. -/
  records_ne_nil : records ≠ []

/-- What a query of the system for its processes returns. -/
inductive QueryAnswer
  /-- A status for which `NT_SUCCESS` holds, with the buffer written. -/
  | success (snapshot : Snapshot)
  /-- A failure status, for example because the buffer is too small. -/
  | failure

end WinSys
