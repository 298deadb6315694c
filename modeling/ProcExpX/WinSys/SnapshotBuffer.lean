import ProcExpX.Library.Chain
import ProcExpX.Library.Reader
import ProcExpX.WinSys.MultiStrings
import ProcExpX.WinSys.ProcessManager

/-!
# The buffer of a system query

`NtQuerySystemInformation` leaves the processes of the system in a buffer: records of
fixed layout, each with its threads behind it and in a full snapshot an extension behind
those, chained by `NextEntryOffset`. Names and identifiers lie elsewhere in the buffer,
by address or by offset. `EnumProcesses` follows the chain in place. Here it works on the
bytes, and reads of each record only what it uses; elsewhere the manager is handed the records
that the bytes stand for.
-/

namespace WinSys

open Library Library.Reader

/-- The memory that may be read, from an address on. -/
structure Memory where
  /-- The address of the first byte. -/
  base : ℕ
  /-- The bytes. -/
  bytes : List UInt8

/-- The bytes from an address on. -/
def Memory.startingAt (mem : Memory) (address : ℕ) : List UInt8 :=
  if mem.base ≤ address then mem.bytes.drop (address - mem.base) else []

/-- What is read at an address, unless the memory ends before. -/
def Memory.get {α : Type} (mem : Memory) (r : Reader α) (address : ℕ) : Option α :=
  (r (mem.startingAt address)).map Prod.fst

/-- A number of bytes at an address, unless the memory ends before. -/
def Memory.read (mem : Memory) (n address : ℕ) : Option (List UInt8) := mem.get (take n) address

/-- The string at an address up to its NUL, unless the memory ends before. -/
def Memory.cString (mem : Memory) (address : ℕ) : Option WString :=
  let p := wchars (mem.startingAt address)
  (wcslen p).map fun n => p.take n

/-- `FIELD_OFFSET(SYSTEM_PROCESS_INFORMATION, Threads)`. -/
def threadsOffset : ℕ := 256

/-- `sizeof(SYSTEM_EXTENDED_THREAD_INFORMATION)`. -/
def threadSize : ℕ := 136

/-- `sizeof(SYSTEM_PROCESS_INFORMATION_EXTENSION)`. -/
def extensionSize : ℕ := 368

/-- `SECURITY_MAX_SID_SIZE`. -/
def securityMaxSidSize : ℕ := 68

/-- The members of a `SYSTEM_EXTENDED_THREAD_INFORMATION` that are used, in the order of its
layout. Those behind the basic record are used of a new thread only. -/
def readThread (known : ProcessOrThreadKey → Bool) : Reader SystemExtendedThreadInformation := do
  let kernelTime ← int64
  let userTime ← int64
  let createTime ← int64
  let waitTime ← uint32
  let _ ← take 4
  let startAddress ← uint64
  let uniqueProcess ← uint64
  let uniqueThread ← uint64
  let priority ← int32
  let basePriority ← int32
  let contextSwitches ← uint32
  let threadState ← uint32
  let waitReason ← uint32
  let tinfo : SystemExtendedThreadInformation := {
    threadInfo := {
      kernelTime := kernelTime, userTime := userTime, createTime := createTime
      waitTime := waitTime, startAddress := startAddress
      clientId := ⟨uniqueProcess, uniqueThread⟩, priority := priority
      basePriority := basePriority, contextSwitches := contextSwitches
      threadState := threadState, waitReason := waitReason }
    stackBase := 0, stackLimit := 0, win32StartAddress := 0, tebBase := 0 }
  if known tinfo.key then return tinfo
  else
    let _ ← take 4
    let stackBase ← uint64
    let stackLimit ← uint64
    let win32StartAddress ← uint64
    let tebBase ← uint64
    return { tinfo with
      stackBase := stackBase, stackLimit := stackLimit
      win32StartAddress := win32StartAddress, tebBase := tebBase }

/-- The thread records at an address, as far as the loop of `BuildProcessInfo` reads them.
Which threads it knows changes as it goes on. -/
def readThreads (env : Environment) (args : EnumArgs) (delta : Int64) (mem : Memory)
    (pi : Ref ProcessInfo) : (n address : ℕ) → Builder →
      Option {l : List SystemExtendedThreadInformation // l.length = n}
  | 0, _, _ => some ⟨[], rfl⟩
  | n + 1, address, b => do
    let known key := (b.impl.threadsByKey.lookup key).isSome
    let tinfo ← mem.get (readThread known) address
    let rest ← readThreads env args delta mem pi n (address + threadSize)
      (buildThread env args delta pi b tinfo)
    return ⟨tinfo :: rest.val, by rw [List.length_cons, rest.property]⟩

/-- The members of a `SYSTEM_PROCESS_INFORMATION_EXTENSION` that are used: `UserSidOffset`,
`PackageFullNameOffset` and `JobObjectId`. -/
def readExtension : Reader (UInt32 × UInt32 × UInt32) := do
  -- the disk counters, the context switches and the flags
  let _ ← take 52
  let userSidOffset ← uint32
  let packageFullNameOffset ← uint32
  -- the energy values, another offset and the shared commit charge
  let _ ← take 292
  let jobObjectId ← uint32
  return (userSidOffset, packageFullNameOffset, jobObjectId)

/-- The extension at an address, with what its offsets lead to. The identifier is found from
the process record on, the name of the package from the extension on. -/
def Memory.extension (mem : Memory) (info ext : ℕ) :
    Option SystemProcessInformationExtension := do
  let (userSidOffset, packageFullNameOffset, jobObjectId) ← mem.get readExtension ext
  let userSid ← mem.read securityMaxSidSize (info + userSidOffset.toNat)
  let packageFullName ← (
    if packageFullNameOffset > 0 then
      (mem.cString (ext + packageFullNameOffset.toNat)).map some
    else some none)
  return ⟨jobObjectId, userSid, packageFullName⟩

/-- The members of a `SYSTEM_PROCESS_INFORMATION` before its threads. -/
structure ProcessHeader where
  /-- `NextEntryOffset`. -/
  nextEntryOffset : UInt32
  /-- `ImageName.Length`. -/
  length : UInt16
  /-- `ImageName.Buffer`. -/
  buffer : UInt64
  /-- The other members, with a blank image name, blank threads and a blank extension. -/
  process : SystemProcessInformation

/-- The members of a `SYSTEM_PROCESS_INFORMATION` before its threads, in the order of its
layout. -/
def readHeader : Reader ProcessHeader := do
  let nextEntryOffset ← uint32
  let numberOfThreads ← uint32
  let workingSetPrivateSize ← int64
  let hardFaultCount ← uint32
  let numberOfThreadsHighWatermark ← uint32
  let cycleTime ← uint64
  let createTime ← int64
  let userTime ← int64
  let kernelTime ← int64
  -- `ImageName`
  let length ← uint16
  let _ ← take 6
  let buffer ← uint64
  let basePriority ← int32
  let _ ← take 4
  let uniqueProcessId ← uint64
  let inheritedFromUniqueProcessId ← uint64
  let handleCount ← uint32
  let sessionId ← uint32
  -- `UniqueProcessKey`
  let _ ← take 8
  let peakVirtualSize ← uint64
  let virtualSize ← uint64
  let pageFaultCount ← uint32
  let _ ← take 4
  let peakWorkingSetSize ← uint64
  let workingSetSize ← uint64
  let quotaPeakPagedPoolUsage ← uint64
  let quotaPagedPoolUsage ← uint64
  let quotaPeakNonPagedPoolUsage ← uint64
  let quotaNonPagedPoolUsage ← uint64
  let pagefileUsage ← uint64
  let peakPagefileUsage ← uint64
  let privatePageCount ← uint64
  let readOperationCount ← int64
  let writeOperationCount ← int64
  let otherOperationCount ← int64
  let readTransferCount ← int64
  let writeTransferCount ← int64
  let otherTransferCount ← int64
  return {
    nextEntryOffset := nextEntryOffset, length := length, buffer := buffer
    process := {
      numberOfThreads := numberOfThreads, workingSetPrivateSize := workingSetPrivateSize
      hardFaultCount := hardFaultCount
      numberOfThreadsHighWatermark := numberOfThreadsHighWatermark, cycleTime := cycleTime
      createTime := createTime, userTime := userTime, kernelTime := kernelTime
      imageName := [], basePriority := basePriority
      uniqueProcessId := uniqueProcessId
      inheritedFromUniqueProcessId := inheritedFromUniqueProcessId
      handleCount := handleCount, sessionId := sessionId
      peakVirtualSize := peakVirtualSize, virtualSize := virtualSize
      pageFaultCount := pageFaultCount, peakWorkingSetSize := peakWorkingSetSize
      workingSetSize := workingSetSize, quotaPeakPagedPoolUsage := quotaPeakPagedPoolUsage
      quotaPagedPoolUsage := quotaPagedPoolUsage
      quotaPeakNonPagedPoolUsage := quotaPeakNonPagedPoolUsage
      quotaNonPagedPoolUsage := quotaNonPagedPoolUsage, pagefileUsage := pagefileUsage
      peakPagefileUsage := peakPagefileUsage, privatePageCount := privatePageCount
      readOperationCount := readOperationCount, writeOperationCount := writeOperationCount
      otherOperationCount := otherOperationCount, readTransferCount := readTransferCount
      writeTransferCount := writeTransferCount, otherTransferCount := otherTransferCount
      threads := List.replicate numberOfThreads.toNat default, extension := default
      threads_length := List.length_replicate } }

namespace ProcessHeader

variable (mem : Memory) (extended : Bool) (info : ℕ) (h : ProcessHeader)

/-- The image name. The idle process has none. -/
def imageName : Option WString :=
  if h.process.uniqueProcessId = 0 then some []
  else (mem.read (2 * (h.length.toNat / 2)) h.buffer.toNat).map wchars

/-- The extension, which is used in a full snapshot, for all but the idle process. -/
def extension : Option SystemProcessInformationExtension :=
  if extended && h.process.uniqueProcessId != 0 then
    mem.extension info (info + threadsOffset + threadSize * h.process.numberOfThreads.toNat)
  else some default

/-- The process with its image name and its extension. -/
def identified : Option SystemProcessInformation := do
  let imageName ← h.imageName mem
  let extension ← h.extension mem extended info
  return { h.process with imageName := imageName, extension := extension }

end ProcessHeader

/-- The process record at an address with its distance to the next, as far as the loop body
of `EnumProcesses` reads it: the image name and the extension for a new object only, and the
threads if they are visited. -/
def readProcess (env : Environment) (args : EnumArgs) (delta : Int64) (mem : Memory)
    (e : EnumLocals) (info : ℕ) : Option (Link SystemProcessInformation) := do
  let h ← mem.get readHeader info
  let known := e.impl.processesByKey.lookup h.process.key
  let p ← (if known.isNone then h.identified mem env.isElevated info else some h.process)
  -- The object as it is before its threads are visited.
  let (b, pi) :=
    buildProcessInfo env { args with includeThreads := false } delta e.toBuilder p known
  let threads ← (
    if args.includeThreads && decide (0 < (b.impl.process pi).id) then
      readThreads env args delta mem pi p.numberOfThreads.toNat (info + threadsOffset) b
    else some ⟨p.threads, p.threads_length⟩)
  return {
    value := { p with threads := threads.val, threads_length := threads.property }
    next := h.nextEntryOffset.toNat }

/-- `NextEntryOffset` and `UniqueProcessId`. -/
def readFiltered : Reader (UInt32 × Handle) := do
  let nextEntryOffset ← uint32
  let _ ← take 76
  let uniqueProcessId ← uint64
  return (nextEntryOffset, uniqueProcessId)

/-- The process record at an address, unless the memory ends before what is read of it. Of a
record that the filter passes over no more than the id is read. -/
def Memory.node (env : Environment) (args : EnumArgs) (delta : Int64) (mem : Memory)
    (e : EnumLocals) (info : ℕ) : Option (Link SystemProcessInformation) := do
  let (nextEntryOffset, uniqueProcessId) ← mem.get readFiltered info
  let p := SystemProcessInformation.bare 0 uniqueProcessId
  if args.selects p then readProcess env args delta mem e info
  else return ⟨p, nextEntryOffset.toNat⟩

/-- What a call of `EnumProcesses` meets outside the manager, with the buffer as it is. -/
structure BufferWorld where
  /-- The reading of `QueryPerformanceCounter`. -/
  ticks : Int64
  /-- The memory from the buffer on, if the query succeeds. -/
  buffer : Option Memory
  /-- The order in which `_processesByKey` is traversed. -/
  processOrder : IterationOrder
  /-- The order in which `_threadsByKey` is traversed. -/
  threadOrder : IterationOrder

/-- The same with the answer of the system in place of the buffer. -/
def BufferWorld.answered (world : BufferWorld) (answer : QueryAnswer) : EnumWorld :=
  { ticks := world.ticks, answer := answer, processOrder := world.processOrder
    threadOrder := world.threadOrder }

/-- One round of the loop of `EnumProcesses` on the buffer. -/
def enumRound (env : Environment) (args : EnumArgs) (delta : Int64) (mem : Memory) :
    Walker EnumLocals → Round (Walker EnumLocals) :=
  Walker.round (mem.node env args delta) (enumProcess env args delta)

/-- `Impl::EnumProcesses` on the buffer, if its loop ends within `fuel` rounds and reads
no other memory. -/
def Impl.enumProcessesIn (env : Environment) (args : EnumArgs) (world : BufferWorld)
    (fuel : ℕ) (m : Impl) : Option (Impl × UInt32) :=
  let delta := world.ticks - m.prevTicks
  let e := m.locals args.includeThreads
  let e : Option EnumLocals :=
    match world.buffer with
    | some mem => (loop (enumRound env args delta mem) fuel ⟨mem.base, e⟩).map Walker.state
    | none => some e
  e.map fun e =>
    let m := e.finish args (world.answered .failure)
    (m, UInt32.ofNat m.processes.length)

/-- There are no records outside of the memory. -/
theorem Memory.node_lt {env : Environment} {args : EnumArgs} {delta : Int64} {mem : Memory}
    {e : EnumLocals} {info : ℕ} {link : Link SystemProcessInformation}
    (h : mem.node env args delta e info = some link) : info < mem.base + mem.bytes.length := by
  by_contra hle
  have hnone : mem.startingAt info = [] := by
    unfold startingAt
    split
    · exact List.drop_eq_nil_of_le (by omega)
    · rfl
  rw [node, get, hnone] at h
  cases h

/-- What a call does on a buffer is what its loop makes of it. -/
theorem Impl.enumProcessesIn_eq_some_iff {env : Environment} {args : EnumArgs}
    {world : BufferWorld} {m : Impl} {mem : Memory} (hbuffer : world.buffer = some mem)
    {fuel : ℕ} {result : Impl × UInt32} :
    m.enumProcessesIn env args world fuel = some result ↔
      ∃ w, loop (enumRound env args (world.ticks - m.prevTicks) mem) fuel
          ⟨mem.base, m.locals args.includeThreads⟩ = some w ∧
        ((w.state.finish args (world.answered .failure)),
          UInt32.ofNat (w.state.finish args (world.answered .failure)).processes.length) =
          result := by
  unfold enumProcessesIn
  rw [hbuffer]
  dsimp only
  rw [Option.map_map, Option.map_eq_some_iff]
  rfl

/-- **Any buffer.** Whatever a successful query has left in the buffer, the loop makes at
most as many rounds as the buffer has bytes, unless it reads other memory. A call returns
precisely where the buffer starts with a chain of records, as far as the call reads them, and
then it does what it does on a snapshot of these records. -/
theorem Impl.enumProcessesIn_exact (env : Environment) (args : EnumArgs) (world : BufferWorld)
    (mem : Memory) (m : Impl) :
    let world := { world with buffer := some mem }
    let delta := world.ticks - m.prevTicks
    (∀ fuel, mem.bytes.length < fuel → ∀ w, rounds (enumRound env args delta mem) fuel
        ⟨mem.base, m.locals args.includeThreads⟩ ≠ .again w) ∧
      ∀ fuel result, m.enumProcessesIn env args world fuel = some result ↔
        ∃ snapshot : Snapshot,
          Chained (mem.node env args delta) (enumProcess env args delta)
            (m.locals args.includeThreads) mem.base snapshot.records ∧
          snapshot.records.length ≤ fuel ∧
          m.enumProcesses env args (world.answered (.success snapshot)) = result := by
  intro world delta
  constructor
  · intro fuel hfuel w
    apply walk_ends fun e p link => Memory.node_lt
    show mem.base + mem.bytes.length - mem.base < fuel
    omega
  · intro fuel result
    rw [enumProcessesIn_eq_some_iff rfl]
    constructor
    · rintro ⟨w, hloop, hresult⟩
      obtain ⟨records, hchain, hlength, hstate⟩ := chained_of_loop hloop
      refine ⟨⟨records, hchain.ne_nil⟩, hchain, hlength, ?_⟩
      rw [← hresult, hstate]
      rfl
    · rintro ⟨snapshot, hchain, hlength, hresult⟩
      obtain ⟨last, hloop⟩ := hchain.loop
      exact ⟨_, hloop fuel hlength, hresult⟩

end WinSys
