import ProcExpX.WinSys.SnapshotBuffer
import Mathlib.Algebra.GroupWithZero.Nat

/-!
# Buffers as the system writes them

The system writes the records of a snapshot one after another, the strings of each behind
it, and aligns the next one. The bytes that no member covers hold anything. From such a
buffer `EnumProcesses` gets exactly the records that were written.
-/

namespace WinSys

open Library Library.Reader

/-- A string as bytes, without a terminator. -/
def putWide (s : WString) : List UInt8 := s.flatMap put16

/-- A thread record at a place. -/
def putThread (raw : ℕ → UInt8) (place : ℕ) (t : SystemExtendedThreadInformation) :
    List UInt8 :=
  [put64 t.threadInfo.kernelTime.toUInt64, put64 t.threadInfo.userTime.toUInt64,
    put64 t.threadInfo.createTime.toUInt64, put32 t.threadInfo.waitTime, pad raw (place + 28) 4,
    put64 t.threadInfo.startAddress, put64 t.threadInfo.clientId.uniqueProcess,
    put64 t.threadInfo.clientId.uniqueThread, put32 t.threadInfo.priority.toUInt32,
    put32 t.threadInfo.basePriority.toUInt32, put32 t.threadInfo.contextSwitches,
    put32 t.threadInfo.threadState, put32 t.threadInfo.waitReason, pad raw (place + 76) 4,
    put64 t.stackBase, put64 t.stackLimit, put64 t.win32StartAddress, put64 t.tebBase,
    pad raw (place + 112) 24].flatten

/-- The extension record at a place, with the offsets of the identifier and the name. -/
def putExtension (raw : ℕ → UInt8) (place : ℕ) (ext : SystemProcessInformationExtension)
    (userSidOffset packageFullNameOffset : UInt32) : List UInt8 :=
  [pad raw place 52, put32 userSidOffset, put32 packageFullNameOffset, pad raw (place + 60) 292,
    put32 ext.jobObjectId, pad raw (place + 356) 12].flatten

/-- The members of a process record before its threads, with the distance to the next
record and the address of the image name. -/
def putHeader (raw : ℕ → UInt8) (place : ℕ) (p : SystemProcessInformation)
    (nextEntryOffset : UInt32) (length : UInt16) (buffer : UInt64) : List UInt8 :=
  [put32 nextEntryOffset, put32 p.numberOfThreads, put64 p.workingSetPrivateSize.toUInt64,
    put32 p.hardFaultCount, put32 p.numberOfThreadsHighWatermark, put64 p.cycleTime,
    put64 p.createTime.toUInt64, put64 p.userTime.toUInt64, put64 p.kernelTime.toUInt64,
    put16 length, pad raw (place + 58) 6, put64 buffer, put32 p.basePriority.toUInt32,
    pad raw (place + 76) 4, put64 p.uniqueProcessId, put64 p.inheritedFromUniqueProcessId,
    put32 p.handleCount, put32 p.sessionId, pad raw (place + 104) 8, put64 p.peakVirtualSize,
    put64 p.virtualSize, put32 p.pageFaultCount, pad raw (place + 132) 4,
    put64 p.peakWorkingSetSize, put64 p.workingSetSize, put64 p.quotaPeakPagedPoolUsage,
    put64 p.quotaPagedPoolUsage, put64 p.quotaPeakNonPagedPoolUsage,
    put64 p.quotaNonPagedPoolUsage, put64 p.pagefileUsage, put64 p.peakPagefileUsage,
    put64 p.privatePageCount, put64 p.readOperationCount.toUInt64,
    put64 p.writeOperationCount.toUInt64, put64 p.otherOperationCount.toUInt64,
    put64 p.readTransferCount.toUInt64, put64 p.writeTransferCount.toUInt64,
    put64 p.otherTransferCount.toUInt64].flatten

/-- A thread record has the size of its type. -/
theorem length_putThread (raw : ℕ → UInt8) (place : ℕ) (t : SystemExtendedThreadInformation) :
    (putThread raw place t).length = threadSize := by
  simp only [putThread, List.length_flatten, List.map_cons, length_put32, length_put64,
    length_pad, List.map_nil]
  rfl

/-- The threads start at the offset that the manager uses. -/
theorem length_putHeader (raw : ℕ → UInt8) (place : ℕ) (p : SystemProcessInformation)
    (nextEntryOffset : UInt32) (length : UInt16) (buffer : UInt64) :
    (putHeader raw place p nextEntryOffset length buffer).length = threadsOffset := by
  simp only [putHeader, List.length_flatten, List.map_cons, length_put16, length_put32,
    length_put64, length_pad, List.map_nil]
  rfl

/-- An extension record has the size of its type. -/
theorem length_putExtension (raw : ℕ → UInt8) (place : ℕ)
    (ext : SystemProcessInformationExtension) (userSidOffset packageFullNameOffset : UInt32) :
    (putExtension raw place ext userSidOffset packageFullNameOffset).length = extensionSize := by
  simp only [putExtension, List.length_flatten, List.map_cons, length_put32, length_pad,
    List.map_nil]
  rfl

/-- What is read of a thread: of a known one no more than the basic record. -/
def SystemExtendedThreadInformation.asRead (known : Bool) (t : SystemExtendedThreadInformation) :
    SystemExtendedThreadInformation :=
  if known then { t with stackBase := 0, stackLimit := 0, win32StartAddress := 0, tebBase := 0 }
  else t

/-- A thread record is read as it was written. -/
theorem readThread_putThread (known : ProcessOrThreadKey → Bool) (raw : ℕ → UInt8) (place : ℕ)
    (t : SystemExtendedThreadInformation) (rest : List UInt8) :
    (readThread known (putThread raw place t ++ rest)).map Prod.fst =
      some (t.asRead (known t.key)) := by
  simp only [readThread, putThread, List.flatten_cons, List.append_assoc, run_int64, run_uint32,
    run_pad, run_uint64, run_int32]
  unfold SystemExtendedThreadInformation.asRead
  split
  · rename_i hknown
    have hread : known t.key = true := hknown
    rw [if_pos hread]
    rfl
  · rename_i hnew
    have hread : ¬ known t.key = true := hnew
    rw [if_neg hread]
    simp only [run_pad, run_uint64]
    rfl

/-- The elements that a string as bytes makes up. -/
theorem wchars_putWide (s : WString) (rest : List UInt8) :
    wchars (putWide s ++ rest) = s ++ wchars rest := by
  induction s with
  | nil => rfl
  | cons c s ih =>
    have hbytes : putWide (c :: s) ++ rest =
        UInt8.ofNat c.toNat :: UInt8.ofNat (c.toNat / 256) :: (putWide s ++ rest) := rfl
    rw [hbytes, wchars, ih, List.cons_append]
    congr 1
    apply UInt16.toNat_inj.mp
    have hc := c.toNat_lt
    have hlow : c.toNat % 256 < 2 ^ 8 := Nat.mod_lt _ (by decide)
    have hsplit := Nat.two_pow_add_eq_or_of_lt hlow (c.toNat / 256)
    rw [UInt16.toNat_or, UInt16.toNat_shiftLeft, UInt8.toNat_toUInt16, UInt8.toNat_toUInt16,
      UInt8.toNat_ofNat', UInt8.toNat_ofNat']
    have hhigh : (c.toNat / 256 % 2 ^ 8) <<< (UInt16.toNat 8 % 16) % 2 ^ 16 =
        2 ^ 8 * (c.toNat / 256) := by
      rw [Nat.shiftLeft_eq]
      show c.toNat / 256 % 2 ^ 8 * 2 ^ 8 % 2 ^ 16 = 2 ^ 8 * (c.toNat / 256)
      omega
    rw [hhigh, Nat.or_comm, ← hsplit]
    omega

/-- A string as bytes has two for each element. -/
theorem length_putWide (s : WString) : (putWide s).length = 2 * s.length := by
  induction s with
  | nil => rfl
  | cons c s ih =>
    have hbytes : putWide (c :: s) = put16 c ++ putWide s := rfl
    rw [hbytes, List.length_append, ih, length_put16, List.length_cons]
    omega

/-- Where the extension of a record goes, from the start of the record on. -/
def extensionOffset (p : SystemProcessInformation) : ℕ :=
  threadsOffset + threadSize * p.threads.length

/-- Where its image name goes. -/
def imageNameOffset (extended : Bool) (p : SystemProcessInformation) : ℕ :=
  extensionOffset p + if extended then extensionSize else 0

/-- Where the identifier of its user goes. -/
def userSidOffset (extended : Bool) (p : SystemProcessInformation) : ℕ :=
  imageNameOffset extended p + 2 * p.imageName.length

/-- Where the name of its package goes, from the start of the extension on; zero for no
package. -/
def packageFullNameOffset (p : SystemProcessInformation) : ℕ :=
  match p.extension.packageFullName with
  | none => 0
  | some _ => extensionSize + 2 * p.imageName.length + securityMaxSidSize

/-- The name of a package with its terminator. -/
def putPackageFullName : Option WString → List UInt8
  | none => []
  | some name => putWide name ++ put16 0

/-- What an extension leads to. -/
def putIdentity (p : SystemProcessInformation) : List UInt8 :=
  p.extension.userSid ++ putPackageFullName p.extension.packageFullName

/-- Where the bytes behind the strings start. -/
def slackOffset (extended : Bool) (p : SystemProcessInformation) : ℕ :=
  userSidOffset extended p + if extended then (putIdentity p).length else 0

/-- A process as the system writes it into a buffer, with or without an extension. -/
structure Entry (extended : Bool) where
  /-- The process. -/
  process : SystemProcessInformation
  /-- The number of bytes behind the strings, which align the next record. -/
  slack : ℕ
  /-- The length of the name in bytes is a 16-bit number. -/
  name_fits : 2 * process.imageName.length < 2 ^ 16
  /-- The identifier in an extension has its largest size. -/
  userSid_length : extended = true → process.extension.userSid.length = securityMaxSidSize
  /-- The name of the package has no terminator in it. -/
  package_terminable : ∀ name, process.extension.packageFullName = some name → 0 ∉ name
  /-- The offsets are 32-bit numbers. -/
  fits : slackOffset extended process + slack < 2 ^ 32

namespace Entry

variable {extended : Bool} (raw : ℕ → UInt8) (place : ℕ) (nextEntryOffset : UInt32)
  (e : Entry extended)

/-- The distance from a record to the next. -/
def size : ℕ := slackOffset extended e.process + e.slack

/-- The record and its extension at a place. -/
def putRecord : List UInt8 :=
  putHeader raw place e.process nextEntryOffset (.ofNat (2 * e.process.imageName.length))
      (.ofNat (place + imageNameOffset extended e.process)) ++
    (putMany threadSize (putThread raw) (place + threadsOffset) e.process.threads ++
      if extended then
        putExtension raw (place + extensionOffset e.process) e.process.extension
          (.ofNat (userSidOffset extended e.process)) (.ofNat (packageFullNameOffset e.process))
      else [])

/-- All that belongs to a process at a place, and the bytes behind. -/
def put : List UInt8 :=
  putRecord raw place nextEntryOffset e ++
    (putWide e.process.imageName ++ ((if extended then putIdentity e.process else []) ++
      pad raw (place + slackOffset extended e.process) e.slack))

/-- The image name starts where the record and its extension end. -/
theorem length_putRecord :
    (putRecord raw place nextEntryOffset e).length = imageNameOffset extended e.process := by
  unfold putRecord imageNameOffset extensionOffset
  rw [List.length_append, List.length_append, length_putHeader,
    length_putMany (length_putThread raw), ← Nat.add_assoc]
  cases extended
  · rfl
  · simp only [if_true, length_putExtension]

/-- An entry has the size that the next one is away. -/
theorem length_put : (put raw place nextEntryOffset e).length = e.size := by
  unfold put size slackOffset userSidOffset
  rw [List.length_append, List.length_append, List.length_append, length_putRecord,
    length_putWide, length_pad]
  cases extended
  · simp only [Bool.false_eq_true, if_false, List.length_nil]
    omega
  · simp only [if_true]
    omega

/-- A distance is not zero. -/
theorem size_pos : 0 < e.size := by
  unfold size slackOffset userSidOffset imageNameOffset extensionOffset threadsOffset
  omega

end Entry

/-- What is read of a process in any case. -/
def SystemProcessInformation.blank (p : SystemProcessInformation) : SystemProcessInformation :=
  { p with
    imageName := [], threads := List.replicate p.numberOfThreads.toNat default
    extension := default, threads_length := List.length_replicate }

/-- What is read of a new process before its threads: no name of the idle process, and an
extension only where it is used. -/
def SystemProcessInformation.asRead (extended : Bool) (p : SystemProcessInformation) :
    SystemProcessInformation :=
  { p.blank with
    imageName := if p.uniqueProcessId = 0 then [] else p.imageName
    extension := if extended && p.uniqueProcessId != 0 then p.extension else default }

/-- What depends on no more than is read in any case is the same. -/
theorem SystemProcessInformation.of_blank {α : Type} (f : SystemProcessInformation → α)
    (hf : ∀ p, f p.blank = f p) {p q : SystemProcessInformation} (hblank : q.blank = p.blank) :
    f q = f p := by
  rw [← hf q, hblank, hf]

/-- A new process object takes nothing from a record but what is read of it. -/
theorem ProcessInfo.identify_asRead (pi : ProcessInfo) (extended : Bool)
    (p : SystemProcessInformation) :
    pi.identify extended (p.asRead extended) = pi.identify extended p := by
  unfold identify SystemProcessInformation.asRead SystemProcessInformation.blank
  by_cases hidle : p.uniqueProcessId = 0
  · simp [hidle]
  · cases extended <;> simp [hidle]

section Manager

variable {env : Environment} {args : EnumArgs} {delta : Int64}

/-- A known thread takes nothing from the members behind the basic record. -/
theorem buildThread_asRead (env : Environment) (args : EnumArgs) (delta : Int64)
    (pi : Ref ProcessInfo) (b : Builder) (t : SystemExtendedThreadInformation) :
    buildThread env args delta pi b (t.asRead (b.impl.threadsByKey.lookup t.key).isSome) =
      buildThread env args delta pi b t := by
  cases hlookup : b.impl.threadsByKey.lookup t.key with
  | none => rfl
  | some thread =>
    have hkey : (t.asRead (some thread).isSome).key = t.key := rfl
    unfold buildThread
    dsimp only
    rw [hkey, hlookup]
    rfl

/-- The threads of a process are visited after its object is up to date. -/
theorem buildProcessInfo_visits (b : Builder) (p : SystemProcessInformation)
    (known : Option (Ref ProcessInfo)) :
    buildProcessInfo env args delta b p known =
      let object := buildProcessInfo env { args with includeThreads := false } delta b p known
      if args.includeThreads && decide (0 < (object.1.impl.process object.2).id) then
        (p.threads.foldl (buildThread env args delta object.2) object.1, object.2)
      else object := by
  unfold buildProcessInfo
  rfl

/-- The object takes nothing else from a record than what is read of it. -/
theorem buildProcessInfo_congr (b : Builder) {p q : SystemProcessInformation}
    {known : Option (Ref ProcessInfo)} (hblank : q.blank = p.blank)
    (hnew : known = none → ∀ pi : ProcessInfo,
      pi.identify env.isElevated q = pi.identify env.isElevated p) :
    buildProcessInfo env { args with includeThreads := false } delta b q known =
      buildProcessInfo env { args with includeThreads := false } delta b p known := by
  have hupdate : (fun pi : ProcessInfo => pi.update q) = fun pi => pi.update p :=
    SystemProcessInformation.of_blank (fun p (pi : ProcessInfo) => pi.update p) (fun _ => rfl)
      hblank
  unfold buildProcessInfo
  dsimp only
  rw [hupdate]
  cases known with
  | some pi => rfl
  | none =>
    rw [hnew rfl]
    rfl

/-- If the same is made of their threads, the same is made of two records. -/
theorem buildProcessInfo_of_visits (b : Builder) {p q : SystemProcessInformation}
    {known : Option (Ref ProcessInfo)} {object : Builder × Ref ProcessInfo}
    (hq : buildProcessInfo env { args with includeThreads := false } delta b q known = object)
    (hp : buildProcessInfo env { args with includeThreads := false } delta b p known = object)
    (hvisit : args.includeThreads && decide (0 < (object.1.impl.process object.2).id) →
      q.threads.foldl (buildThread env args delta object.2) object.1 =
        p.threads.foldl (buildThread env args delta object.2) object.1) :
    buildProcessInfo env args delta b q known = buildProcessInfo env args delta b p known := by
  rw [buildProcessInfo_visits b q, buildProcessInfo_visits b p, hq, hp]
  dsimp only
  split
  · rename_i hvisited
    rw [hvisit hvisited]
  · rfl

/-- The loop body of `EnumProcesses` makes the same of two records if `BuildProcessInfo` does and
what is read of them in any case is the same. -/
theorem enumProcess_congr (e : EnumLocals) {p q : SystemProcessInformation}
    (hblank : q.blank = p.blank)
    (hbuild : buildProcessInfo env args delta e.toBuilder q (e.impl.processesByKey.lookup p.key) =
      buildProcessInfo env args delta e.toBuilder p (e.impl.processesByKey.lookup p.key)) :
    enumProcess env args delta e q = enumProcess env args delta e p := by
  have hkey : q.key = p.key := SystemProcessInformation.of_blank _ (fun _ => rfl) hblank
  have hselects : args.selects q = args.selects p :=
    SystemProcessInformation.of_blank args.selects (fun _ => rfl) hblank
  have hcpu : ∀ pi : ProcessInfo, pi.cpuSince q delta env.totalProcessors =
      pi.cpuSince p delta env.totalProcessors := fun pi =>
    SystemProcessInformation.of_blank (pi.cpuSince · delta env.totalProcessors)
      (fun _ => rfl) hblank
  unfold enumProcess
  rw [hkey, hselects]
  cases hlookup : e.impl.processesByKey.lookup p.key with
  | none =>
    rw [hlookup] at hbuild
    dsimp only
    rw [hbuild]
  | some pi2 =>
    rw [hlookup] at hbuild
    dsimp only
    rw [hbuild, hcpu]

end Manager

/-- Memory further on. -/
theorem Memory.startingAt_add {mem : Memory} {place : ℕ} (hbase : mem.base ≤ place) (n : ℕ) :
    mem.startingAt (place + n) = (mem.startingAt place).drop n := by
  unfold startingAt
  rw [if_pos hbase, if_pos (by omega), List.drop_drop]
  congr 1
  omega

/-- Bytes that are in memory at an address are read. -/
theorem Memory.read_eq {mem : Memory} {address n : ℕ} {bytes rest : List UInt8}
    (hmem : mem.startingAt address = bytes ++ rest) (hn : bytes.length = n) :
    mem.read n address = some bytes := by
  subst hn
  unfold read get take
  rw [hmem, if_pos (by simp), List.take_left]
  rfl

/-- A string that is in memory with its terminator is read. -/
theorem Memory.cString_eq {mem : Memory} {address : ℕ} {s : WString} {rest : List UInt8}
    (hmem : mem.startingAt address = putWide s ++ (put16 0 ++ rest)) (hs : 0 ∉ s) :
    mem.cString address = some s := by
  unfold cString
  have hend : wchars (put16 0 ++ rest) = 0 :: wchars rest := rfl
  dsimp only
  rw [hmem, wchars_putWide, hend, wcslen_append hs, Option.map_some, List.take_left]

section Reading

variable {extended : Bool} {raw : ℕ → UInt8} {place : ℕ} {nextEntryOffset : UInt32}
  {e : Entry extended} {mem : Memory} {rest : List UInt8}

/-- The image name is found at its address. -/
theorem Entry.read_imageName (hbase : mem.base ≤ place) (hplace : place + e.size < 2 ^ 64)
    (hmem : mem.startingAt place = e.put raw place nextEntryOffset ++ rest) :
    mem.read (2 * ((UInt16.ofNat (2 * e.process.imageName.length)).toNat / 2))
        (UInt64.ofNat (place + imageNameOffset extended e.process)).toNat =
      some (putWide e.process.imageName) := by
  have hoffset : place + imageNameOffset extended e.process < 2 ^ 64 := by
    unfold size slackOffset userSidOffset at hplace
    omega
  have hstart : mem.startingAt (place + imageNameOffset extended e.process) =
      putWide e.process.imageName ++ (((if extended then putIdentity e.process else []) ++
        pad raw (place + slackOffset extended e.process) e.slack) ++ rest) := by
    rw [Memory.startingAt_add hbase, hmem, put, List.append_assoc, List.append_assoc]
    exact List.drop_left' (length_putRecord raw place nextEntryOffset e)
  rw [UInt16.toNat_ofNat_of_lt' e.name_fits, UInt64.toNat_ofNat_of_lt' hoffset,
    Nat.mul_div_cancel_left _ (by decide)]
  exact Memory.read_eq hstart (length_putWide _)

/-- What the extension leads to is found at the offsets. -/
theorem Entry.startingAt_identity {e : Entry true} (hbase : mem.base ≤ place)
    (hmem : mem.startingAt place = e.put raw place nextEntryOffset ++ rest) :
    mem.startingAt (place + userSidOffset true e.process) =
      e.process.extension.userSid ++
        (putPackageFullName e.process.extension.packageFullName ++
          (pad raw (place + slackOffset true e.process) e.slack ++ rest)) := by
  have hsplit : e.put raw place nextEntryOffset ++ rest =
      (putRecord raw place nextEntryOffset e ++ putWide e.process.imageName) ++
        (e.process.extension.userSid ++
          (putPackageFullName e.process.extension.packageFullName ++
            (pad raw (place + slackOffset true e.process) e.slack ++ rest))) := by
    simp only [put, putIdentity, if_true, List.append_assoc]
  rw [Memory.startingAt_add hbase, hmem, hsplit]
  apply List.drop_left'
  rw [List.length_append, length_putRecord, length_putWide, userSidOffset]

/-- The threads start where the header ends. -/
theorem Entry.startingAt_threads (hbase : mem.base ≤ place)
    (hmem : mem.startingAt place = e.put raw place nextEntryOffset ++ rest) :
    ∃ more, mem.startingAt (place + threadsOffset) =
      putMany threadSize (putThread raw) (place + threadsOffset) e.process.threads ++
        ((if extended then
          putExtension raw (place + extensionOffset e.process) e.process.extension
            (.ofNat (userSidOffset extended e.process))
            (.ofNat (packageFullNameOffset e.process))
        else []) ++ more) := by
  refine ⟨putWide e.process.imageName ++ ((if extended then putIdentity e.process else []) ++
    (pad raw (place + slackOffset extended e.process) e.slack ++ rest)), ?_⟩
  rw [Memory.startingAt_add hbase, hmem, put, putRecord]
  simp only [List.append_assoc]
  exact List.drop_left' (length_putHeader _ _ _ _ _ _)

/-- The extension starts where the threads end. -/
theorem Entry.startingAt_extension {e : Entry true} (hbase : mem.base ≤ place)
    (hmem : mem.startingAt place = e.put raw place nextEntryOffset ++ rest) :
    ∃ more, mem.startingAt (place + extensionOffset e.process) =
      putExtension raw (place + extensionOffset e.process) e.process.extension
        (.ofNat (userSidOffset true e.process)) (.ofNat (packageFullNameOffset e.process)) ++
          more := by
  obtain ⟨more, hthreads⟩ := startingAt_threads hbase hmem
  refine ⟨more, ?_⟩
  have hlength := length_putMany (length_putThread raw) (place + threadsOffset) e.process.threads
  rw [extensionOffset, ← Nat.add_assoc, Memory.startingAt_add (by omega), hthreads,
    List.drop_left' hlength, if_pos rfl, extensionOffset, ← Nat.add_assoc]

/-- The extension of a process is read as it was written. -/
theorem Entry.extension_eq {e : Entry true} (hbase : mem.base ≤ place)
    (hmem : mem.startingAt place = e.put raw place nextEntryOffset ++ rest) :
    mem.extension place (place + extensionOffset e.process) = some e.process.extension := by
  obtain ⟨more, hstart⟩ := startingAt_extension hbase hmem
  have hidentity := startingAt_identity hbase hmem
  have hfits := e.fits
  unfold slackOffset putIdentity at hfits
  rw [if_pos rfl, List.length_append, e.userSid_length rfl] at hfits
  have hsid : mem.read securityMaxSidSize
      (place + (UInt32.ofNat (userSidOffset true e.process)).toNat) =
        some e.process.extension.userSid := by
    rw [UInt32.toNat_ofNat_of_lt' (by show _ < 2 ^ 32; omega)]
    exact Memory.read_eq hidentity (e.userSid_length rfl)
  have hget : mem.get readExtension (place + extensionOffset e.process) =
      some (.ofNat (userSidOffset true e.process), .ofNat (packageFullNameOffset e.process),
        e.process.extension.jobObjectId) := by
    unfold Memory.get
    rw [hstart]
    simp only [readExtension, putExtension, List.flatten_cons, List.append_assoc, run_pad,
      run_uint32]
    rfl
  unfold Memory.extension
  rw [hget]
  show (mem.read securityMaxSidSize
    (place + (UInt32.ofNat (userSidOffset true e.process)).toNat)).bind _ = _
  rw [hsid, Option.bind_some]
  cases hpackage : e.process.extension.packageFullName with
  | none =>
    have hzero : packageFullNameOffset e.process = 0 := by rw [packageFullNameOffset, hpackage]
    rw [hzero, if_neg (by decide), ← hpackage]
    rfl
  | some name =>
    rw [hpackage] at hidentity
    have hlength : packageFullNameOffset e.process =
        extensionSize + 2 * e.process.imageName.length + securityMaxSidSize := by
      rw [packageFullNameOffset, hpackage]
    have hplace : place + extensionOffset e.process + packageFullNameOffset e.process =
        place + userSidOffset true e.process + securityMaxSidSize := by
      rw [hlength, userSidOffset, imageNameOffset, if_pos rfl]
      omega
    have hsmall : packageFullNameOffset e.process < 2 ^ 32 := by
      unfold userSidOffset imageNameOffset at hfits
      rw [if_pos rfl] at hfits
      omega
    have hname : mem.startingAt (place + extensionOffset e.process +
          (UInt32.ofNat (packageFullNameOffset e.process)).toNat) =
        putWide name ++ (put16 0 ++
          (pad raw (place + slackOffset true e.process) e.slack ++ rest)) := by
      rw [UInt32.toNat_ofNat_of_lt' hsmall, hplace, Memory.startingAt_add (by omega), hidentity,
        List.drop_left' (e.userSid_length rfl), putPackageFullName, List.append_assoc]
    have hpositive : UInt32.ofNat (packageFullNameOffset e.process) > 0 := by
      rw [gt_iff_lt, UInt32.lt_iff_toNat_lt, UInt32.toNat_ofNat_of_lt' hsmall, hlength]
      show 0 < _
      unfold extensionSize
      omega
    rw [if_pos hpositive, Memory.cString_eq hname (e.package_terminable name hpackage)]
    show some (⟨e.process.extension.jobObjectId, e.process.extension.userSid, some name⟩ :
      SystemProcessInformationExtension) = _
    rw [← hpackage]

/-- The members before the threads, as they are read. -/
def Entry.header (place : ℕ) (nextEntryOffset : UInt32) (e : Entry extended) : ProcessHeader :=
  { nextEntryOffset := nextEntryOffset, length := .ofNat (2 * e.process.imageName.length)
    buffer := .ofNat (place + imageNameOffset extended e.process), process := e.process.blank }

/-- The members before the threads are read as they were written. -/
theorem Entry.readHeader_eq
    (hmem : mem.startingAt place = e.put raw place nextEntryOffset ++ rest) :
    mem.get readHeader place = some (e.header place nextEntryOffset) := by
  unfold Memory.get
  rw [hmem]
  simp only [readHeader, put, putRecord, putHeader, List.flatten_cons, List.append_assoc,
    run_uint32, run_int64, run_uint64, run_uint16, run_pad, run_int32]
  rfl

/-- So are those that the filter needs. -/
theorem Entry.readFiltered_eq
    (hmem : mem.startingAt place = e.put raw place nextEntryOffset ++ rest) :
    mem.get readFiltered place = some (nextEntryOffset, e.process.uniqueProcessId) := by
  have hsplit : ∃ between more, e.put raw place nextEntryOffset ++ rest =
      put32 nextEntryOffset ++ (between ++ (put64 e.process.uniqueProcessId ++ more)) ∧
        between.length = 76 := by
    refine ⟨[put32 e.process.numberOfThreads, put64 e.process.workingSetPrivateSize.toUInt64,
      put32 e.process.hardFaultCount, put32 e.process.numberOfThreadsHighWatermark,
      put64 e.process.cycleTime, put64 e.process.createTime.toUInt64,
      put64 e.process.userTime.toUInt64, put64 e.process.kernelTime.toUInt64,
      put16 (.ofNat (2 * e.process.imageName.length)), pad raw (place + 58) 6,
      put64 (.ofNat (place + imageNameOffset extended e.process)),
      put32 e.process.basePriority.toUInt32, pad raw (place + 76) 4].flatten,
      ?more, ?split, ?length⟩
    case split =>
      simp only [put, putRecord, putHeader, List.flatten_cons, List.append_assoc,
        List.flatten_nil, List.nil_append]
      rfl
    case length =>
      simp only [List.length_flatten, List.map_cons, length_put16, length_put32, length_put64,
        length_pad, List.map_nil]
      rfl
  obtain ⟨between, more, hput, hlength⟩ := hsplit
  unfold Memory.get
  rw [hmem, hput]
  simp only [readFiltered, run_uint32, run_take hlength, run_uint64]
  rfl

/-- The image name is read as it was written, unless the process is the idle one. -/
theorem Entry.imageName_eq (hbase : mem.base ≤ place) (hplace : place + e.size < 2 ^ 64)
    (hmem : mem.startingAt place = e.put raw place nextEntryOffset ++ rest) :
    (e.header place nextEntryOffset).imageName mem =
      some (e.process.asRead extended).imageName := by
  have hread := read_imageName hbase hplace hmem
  have hwchars := wchars_putWide e.process.imageName []
  rw [List.append_nil] at hwchars
  unfold ProcessHeader.imageName SystemProcessInformation.asRead header
  dsimp only
  rw [hread, Option.map_some, hwchars]
  by_cases hidle : e.process.uniqueProcessId = 0
  · rw [if_pos hidle]
    exact if_pos hidle
  · rw [if_neg hidle]
    exact (if_neg hidle).trans (congrArg some (List.append_nil _))

/-- The extension is read as it was written where it is used. -/
theorem Entry.usedExtension_eq (hbase : mem.base ≤ place)
    (hmem : mem.startingAt place = e.put raw place nextEntryOffset ++ rest) :
    (e.header place nextEntryOffset).extension mem extended place =
      some (e.process.asRead extended).extension := by
  have hthreads : place + threadsOffset + threadSize * e.process.numberOfThreads.toNat =
      place + extensionOffset e.process := by
    rw [← e.process.threads_length, extensionOffset, Nat.add_assoc]
  unfold ProcessHeader.extension SystemProcessInformation.asRead
  cases extended with
  | false => rfl
  | true =>
    have hextension := extension_eq hbase hmem
    rw [← hthreads] at hextension
    by_cases hused : (true && e.process.uniqueProcessId != 0) = true
    · rw [if_pos hused]
      exact (if_pos hused).trans hextension
    · rw [if_neg hused]
      exact if_neg hused

/-- A new process is read as it was written, except for its threads. -/
theorem Entry.identified_eq (hbase : mem.base ≤ place) (hplace : place + e.size < 2 ^ 64)
    (hmem : mem.startingAt place = e.put raw place nextEntryOffset ++ rest) :
    (e.header place nextEntryOffset).identified mem extended place =
      some (e.process.asRead extended) := by
  unfold ProcessHeader.identified
  rw [imageName_eq hbase hplace hmem, usedExtension_eq hbase hmem]
  rfl

/-- The threads are read as they were written, as far as the loop uses them. -/
theorem readThreads_eq {env : Environment} {args : EnumArgs} {delta : Int64}
    {pi : Ref ProcessInfo} {threads : List SystemExtendedThreadInformation} {n : ℕ}
    (hn : threads.length = n) (hbase : mem.base ≤ place)
    (hmem : mem.startingAt place = putMany threadSize (putThread raw) place threads ++ rest)
    (b : Builder) :
    ∃ read, readThreads env args delta mem pi n place b = some read ∧
      read.val.foldl (buildThread env args delta pi) b =
        threads.foldl (buildThread env args delta pi) b := by
  induction threads generalizing n place b with
  | nil =>
    subst hn
    exact ⟨_, rfl, rfl⟩
  | cons t threads ih =>
    subst hn
    rw [putMany, List.append_assoc] at hmem
    have hnext : mem.startingAt (place + threadSize) =
        putMany threadSize (putThread raw) (place + threadSize) threads ++ rest := by
      rw [Memory.startingAt_add hbase, hmem]
      exact List.drop_left' (length_putThread raw place t)
    let known key := (b.impl.threadsByKey.lookup key).isSome
    have hget : mem.get (readThread known) place = some (t.asRead (known t.key)) := by
      unfold Memory.get
      rw [hmem, readThread_putThread]
    have hvisit := buildThread_asRead env args delta pi b t
    obtain ⟨read, hread, hfold⟩ := ih rfl (by omega) hnext (buildThread env args delta pi b t)
    rw [← hvisit] at hread
    refine ⟨⟨t.asRead (known t.key) :: read.val, by simp [read.property]⟩, ?_, ?_⟩
    · show (mem.get (readThread known) place).bind _ = _
      rw [hget, Option.bind_some]
      show (readThreads _ _ _ _ _ _ _ _).bind _ = _
      rw [hread]
      rfl
    · rw [List.foldl_cons, List.foldl_cons, hvisit, hfold]

/-- Before its threads, a process is read as it was written, as far as it is used. -/
theorem Entry.readObject_eq {extended : Bool} {e : Entry extended} (hbase : mem.base ≤ place)
    (hplace : place + e.size < 2 ^ 64)
    (hmem : mem.startingAt place = e.put raw place nextEntryOffset ++ rest)
    (known : Option (Ref ProcessInfo)) :
    ∃ p : SystemProcessInformation,
      (if known.isNone then (e.header place nextEntryOffset).identified mem extended place
        else some (e.header place nextEntryOffset).process) = some p ∧
      p.blank = e.process.blank ∧
      (known = none → ∀ pi : ProcessInfo,
        pi.identify extended p = pi.identify extended e.process) := by
  cases known with
  | none => exact ⟨_, identified_eq hbase hplace hmem, rfl, fun _ pi => pi.identify_asRead _ _⟩
  | some pi => exact ⟨_, rfl, rfl, nofun⟩

/-- An entry that the filter selects is read as it was written, as far as the loop body uses
it. -/
theorem Entry.readProcess_eq {env : Environment} {e : Entry env.isElevated}
    (hbase : mem.base ≤ place) (hplace : place + e.size < 2 ^ 64)
    (hmem : mem.startingAt place = e.put raw place nextEntryOffset ++ rest) (args : EnumArgs)
    (delta : Int64) (l : EnumLocals) :
    ∃ q, readProcess env args delta mem l place = some ⟨q, nextEntryOffset.toNat⟩ ∧
      enumProcess env args delta l q = enumProcess env args delta l e.process := by
  let known := l.impl.processesByKey.lookup e.process.key
  let object :=
    buildProcessInfo env { args with includeThreads := false } delta l.toBuilder e.process known
  obtain ⟨p, hp, hblank, hnew⟩ := readObject_eq hbase hplace hmem known
  have hobject : ∀ q : SystemProcessInformation, q.blank = e.process.blank →
      (known = none → ∀ pi : ProcessInfo,
        pi.identify env.isElevated q = pi.identify env.isElevated e.process) →
      buildProcessInfo env { args with includeThreads := false } delta l.toBuilder q known =
        object := fun q => buildProcessInfo_congr l.toBuilder
  have hcount : p.numberOfThreads = e.process.numberOfThreads :=
    SystemProcessInformation.of_blank _ (fun _ => rfl) hblank
  -- The threads are read only if they are visited.
  obtain ⟨threads, hthreads, hvisit⟩ :
      ∃ threads : {threads : List SystemExtendedThreadInformation //
          threads.length = p.numberOfThreads.toNat},
        (if args.includeThreads && decide (0 < (object.1.impl.process object.2).id) then
          readThreads env args delta mem object.2 p.numberOfThreads.toNat
            (place + threadsOffset) object.1
        else some ⟨p.threads, p.threads_length⟩) = some threads ∧
        (args.includeThreads && decide (0 < (object.1.impl.process object.2).id) →
          threads.val.foldl (buildThread env args delta object.2) object.1 =
            e.process.threads.foldl (buildThread env args delta object.2) object.1) := by
    obtain ⟨more, hstart⟩ := startingAt_threads hbase hmem
    split
    · obtain ⟨threads, hread, hfold⟩ := readThreads_eq (n := p.numberOfThreads.toNat)
        (by rw [hcount, e.process.threads_length]) (by omega) hstart object.1
      exact ⟨threads, hread, fun _ => hfold⟩
    · rename_i hunused
      exact ⟨_, rfl, fun hused => absurd hused hunused⟩
  let q := { p with threads := threads.val, threads_length := threads.property }
  have hbuild : buildProcessInfo env args delta l.toBuilder q known =
      buildProcessInfo env args delta l.toBuilder e.process known :=
    buildProcessInfo_of_visits l.toBuilder (hobject q hblank hnew) rfl hvisit
  refine ⟨q, ?_, enumProcess_congr l hblank hbuild⟩
  have hknown : l.impl.processesByKey.lookup (e.header place nextEntryOffset).process.key =
      known := rfl
  unfold readProcess
  simp only [readHeader_eq hmem, hknown, hp, hobject p hblank hnew, Option.bind_eq_bind,
    Option.bind_some]
  rw [hthreads]
  rfl

/-- **One entry**, whether or not the filter passes over it, is read as it was written, as far as
the loop uses it. -/
theorem Entry.node_eq {env : Environment} {e : Entry env.isElevated}
    (hbase : mem.base ≤ place) (hplace : place + e.size < 2 ^ 64)
    (hmem : mem.startingAt place = e.put raw place nextEntryOffset ++ rest) (args : EnumArgs)
    (delta : Int64) (l : EnumLocals) :
    ∃ q, mem.node env args delta l place = some ⟨q, nextEntryOffset.toNat⟩ ∧
      enumProcess env args delta l q = enumProcess env args delta l e.process := by
  let bare := SystemProcessInformation.bare 0 e.process.uniqueProcessId
  have hselects : args.selects bare = args.selects e.process := rfl
  unfold Memory.node
  rw [readFiltered_eq hmem]
  by_cases hselected : args.selects bare
  · obtain ⟨q, hread, hvisit⟩ := readProcess_eq hbase hplace hmem args delta l
    exact ⟨q, (if_pos hselected).trans hread, hvisit⟩
  · refine ⟨bare, if_neg hselected, ?_⟩
    unfold enumProcess
    rw [if_neg hselected, if_neg (hselects ▸ hselected)]

end Reading

/-- Entries one after another from a place on. The last one has distance zero. -/
def layOut {extended : Bool} (raw : ℕ → UInt8) : ℕ → List (Entry extended) → List UInt8
  | _, [] => []
  | place, [e] => e.put raw place 0
  | place, e :: e' :: entries =>
    e.put raw place (.ofNat e.size) ++ layOut raw (place + e.size) (e' :: entries)

/-- The distances between entries add up to the end of the last one. -/
def extent {extended : Bool} (entries : List (Entry extended)) : ℕ :=
  (entries.map Entry.size).sum

/-- **All entries** are chained as they were written, as far as the loop uses them. -/
theorem layOut_chained {env : Environment} (args : EnumArgs) (delta : Int64) {raw : ℕ → UInt8}
    {mem : Memory} {place : ℕ} {entries : List (Entry env.isElevated)} {rest : List UInt8}
    (hne : entries ≠ []) (hbase : mem.base ≤ place) (hplace : place + extent entries < 2 ^ 64)
    (hmem : mem.startingAt place = layOut raw place entries ++ rest) (l : EnumLocals) :
    ∃ records, Chained (mem.node env args delta) (enumProcess env args delta) l place records ∧
      records.length = entries.length ∧
      records.foldl (enumProcess env args delta) l =
        (entries.map Entry.process).foldl (enumProcess env args delta) l := by
  induction place, entries using layOut.induct generalizing l with
  | case1 => exact absurd rfl hne
  | case2 place e =>
    rw [layOut] at hmem
    have hsize : place + e.size < 2 ^ 64 := by simpa [extent] using hplace
    obtain ⟨q, hnode, hvisit⟩ := e.node_eq hbase hsize hmem args delta l
    exact ⟨[q], .last hnode, rfl, hvisit⟩
  | case3 place e e' entries ih =>
    have hextent : extent (e :: e' :: entries) = e.size + extent (e' :: entries) := by
      simp [extent]
    rw [hextent] at hplace
    rw [layOut, List.append_assoc] at hmem
    obtain ⟨q, hnode, hvisit⟩ := e.node_eq hbase (by omega) hmem args delta l
    have hfits : e.size < 2 ^ 32 := e.fits
    have hdistance : (UInt32.ofNat e.size).toNat = e.size := UInt32.toNat_ofNat_of_lt' hfits
    rw [hdistance] at hnode
    have hnext : mem.startingAt (place + e.size) =
        layOut raw (place + e.size) (e' :: entries) ++ rest := by
      rw [Memory.startingAt_add hbase, hmem]
      exact List.drop_left' (e.length_put raw place _)
    obtain ⟨records, hchain, hlength, hfold⟩ :=
      ih (List.cons_ne_nil _ _) (by omega) (by omega) hnext (enumProcess env args delta l q)
    refine ⟨q :: records, .link hnode e.size_pos hchain, congrArg Nat.succ hlength, ?_⟩
    rw [List.foldl_cons, hfold, hvisit]
    rfl

/-- A buffer that the system has filled, for a full snapshot or not. -/
structure SnapshotImage (extended : Bool) where
  /-- The processes. -/
  entries : List (Entry extended)
  /-- There is one at least. -/
  entries_ne_nil : entries ≠ []
  /-- The address of the buffer. -/
  base : ℕ
  /-- What the bytes hold that no member covers. -/
  raw : ℕ → UInt8
  /-- The rest of the buffer. -/
  behind : List UInt8
  /-- Addresses are 64-bit numbers. -/
  fits : base + extent entries < 2 ^ 64

/-- The idle process as the system writes it. -/
def Entry.idle : Entry false where
  process := .zero
  slack := 0
  name_fits := by decide
  userSid_length := by decide
  package_terminable _ h := by cases h
  fits := by decide

/-- A buffer with the idle process only. -/
instance : Inhabited (SnapshotImage false) where
  default :=
    { entries := [.idle], entries_ne_nil := List.cons_ne_nil _ _, base := 0, raw := fun _ => 0
      behind := [], fits := by decide }

/-- The buffer as memory. -/
def SnapshotImage.memory {extended : Bool} (image : SnapshotImage extended) : Memory :=
  { base := image.base, bytes := layOut image.raw image.base image.entries ++ image.behind }

/-- The processes as a snapshot. -/
def SnapshotImage.snapshot {extended : Bool} (image : SnapshotImage extended) : Snapshot :=
  { records := image.entries.map Entry.process
    records_ne_nil := by simpa using image.entries_ne_nil }

/-- **Round trip.** From a buffer that the system has filled, `EnumProcesses` makes exactly
what it makes of the snapshot, in as many rounds as there are processes, whatever the bytes
between the members and behind the records hold. -/
theorem Impl.enumProcessesIn_memory (env : Environment) (args : EnumArgs) (world : BufferWorld)
    (image : SnapshotImage env.isElevated) (m : Impl) (more : ℕ) :
    m.enumProcessesIn env args { world with buffer := some image.memory }
        (image.entries.length + more) =
      some (m.enumProcesses env args (world.answered (.success image.snapshot))) := by
  have hstart : image.memory.startingAt image.base =
      layOut image.raw image.base image.entries ++ image.behind := by
    simp [Memory.startingAt, SnapshotImage.memory]
  obtain ⟨records, hchain, hlength, hfold⟩ := layOut_chained args
    (world.ticks - m.prevTicks) image.entries_ne_nil (Nat.le_refl image.memory.base) image.fits
    hstart (m.locals args.includeThreads)
  obtain ⟨last, hloop⟩ := hchain.loop
  refine (enumProcessesIn_eq_some_iff rfl).mpr ⟨_, hloop _ (by omega), ?_⟩
  dsimp only
  rw [hfold]
  rfl

end WinSys
