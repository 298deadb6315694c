import ProcExpX.Library.AtEach
import ProcExpX.Library.Sweep
import ProcExpX.WinSys.Keys

/-!
# The memory tracker

`ProcessVMTracker::Impl`. Each call walks over the regions of a process and compares
them with a set of regions seen before. The set is only ever inserted into, and the
candidates for deletion are listed once for each region of the walk.
-/

namespace WinSys

open Library

/-- `MemoryRegionItem`, which has the members of `MEMORY_BASIC_INFORMATION`. -/
structure MemoryRegionItem where
  /-- The first address of the region. -/
  baseAddress : UInt64
  /-- The first address of the allocation that the region belongs to. -/
  allocationBase : UInt64
  /-- The protection that the allocation was made with. -/
  allocationProtect : UInt32
  /-- The size of the region in bytes. -/
  regionSize : UInt64
  /-- Whether the region is committed, reserved or free. -/
  state : UInt32
  /-- The protection of the region. -/
  protect : UInt32
  /-- The type of the region. -/
  type : UInt32
  deriving Inhabited

/-- What `operator==` compares. -/
structure RegionKey where
  /-- `BaseAddress`. -/
  baseAddress : UInt64
  /-- `Protect`. -/
  protect : UInt32
  /-- `State`. -/
  state : UInt32
  deriving DecidableEq

/-- The part of a region that tells it from others. -/
def MemoryRegionItem.key (mi : MemoryRegionItem) : RegionKey :=
  ⟨mi.baseAddress, mi.protect, mi.state⟩

/-- The memory of a process as the queries of one walk find it. It may change between
them. A walk ends, so that there is a last query. -/
inductive ProcessMemory
  /-- Every query fails. -/
  | gone
  /-- `VirtualQueryEx` answers for an address, and the memory then is as given. -/
  | mapped (virtualQueryEx : UInt64 → Option MemoryRegionItem) (next : UInt64 → ProcessMemory)

/-- The regions that a walk from an address returns. -/
def ProcessMemory.walkFrom : ProcessMemory → UInt64 → List MemoryRegionItem
  | .gone, _ => []
  | .mapped virtualQueryEx next, address =>
    match virtualQueryEx address with
    | none => []
    | some mi => mi :: (next address).walkFrom (address + mi.regionSize)

/-- `ProcessVMTracker::Impl`. -/
structure VMTracker where
  /-- Whether `_hProcess` is a handle. -/
  isValid : Bool
  /-- `_items`. -/
  items : List MemoryRegionItem
  /-- `_newItems`. -/
  newItems : List MemoryRegionItem
  /-- `_deletedItems`. -/
  deletedItems : List MemoryRegionItem
  /-- `_set`. -/
  set : UnorderedMap RegionKey MemoryRegionItem

/-- A call of `EnumRegions` with what it meets outside the tracker. -/
structure RegionCall where
  /-- The memory of the process. -/
  memory : ProcessMemory
  /-- The order in which the candidates for deletion are listed. -/
  order : IterationOrder

/-- The regions that the walk of a call returns. -/
def RegionCall.walk (c : RegionCall) : List MemoryRegionItem := c.memory.walkFrom 0

namespace VMTracker

/-- A tracker of a process that could be opened or not. -/
def opened (isValid : Bool) : VMTracker :=
  { isValid := isValid, items := [], newItems := [], deletedItems := [], set := ∅ }

/-- The tracker and the local variable `oldItems` of `EnumRegions`. -/
structure Locals extends VMTracker where
  /-- `oldItems`, the candidates for deletion. -/
  oldItems : UnorderedMap RegionKey MemoryRegionItem

/-- The comparison of one region with the set. -/
def Locals.compare (e : Locals) (mi : MemoryRegionItem) : Locals :=
  if mi.key ∈ e.set then { e with oldItems := AList.erase mi.key e.oldItems }
  else { e with newItems := e.newItems ++ [mi], set := e.set.insertNew mi.key mi }

/-- The loop body of `EnumRegions` for a region, after `count` regions in the walk
before. -/
def Locals.visit (order : IterationOrder) (count : ℕ) (e : Locals) (mi : MemoryRegionItem) :
    Locals :=
  let e :=
    if count = 0 then { e with set := e.set.insertNew mi.key mi }
    else
      let e := e.compare mi
      { e with deletedItems := e.deletedItems ++ e.oldItems.values order }
  { e with items := e.items ++ [mi] }

/-- The loop of `EnumRegions` from an address. -/
def Locals.loop (order : IterationOrder) (count : ℕ) : ProcessMemory → UInt64 → Locals → Locals
  | .gone, _, e => e
  | .mapped virtualQueryEx next, address, e =>
    match virtualQueryEx address with
    | none => e
    | some mi => loop order count (next address) (address + mi.regionSize) (e.visit order count mi)

/-- `EnumRegions`, with the count it returns. -/
def enumRegions (t : VMTracker) (c : RegionCall) : VMTracker × ℕ :=
  if t.isValid then
    let count := t.items.length
    let t := { t with items := [], newItems := [], deletedItems := [] }
    let e := Locals.loop c.order count c.memory 0 { t with oldItems := t.set }
    (e.toVMTracker, e.items.length)
  else (t, 0)

/-- The tracker after a run of calls. -/
def run (isValid : Bool) (calls : List RegionCall) : VMTracker :=
  calls.foldl (fun t c => (t.enumRegions c).1) (opened isValid)

/-- The regions that a call walks over, none without a handle. -/
def regions (isValid : Bool) (c : RegionCall) : List MemoryRegionItem :=
  if isValid then c.walk else []

/-- The loop visits the regions of the walk in turn. -/
theorem Locals.loop_eq (order : IterationOrder) (count : ℕ) (memory : ProcessMemory)
    (address : UInt64) (e : Locals) :
    loop order count memory address e = (memory.walkFrom address).foldl (visit order count) e := by
  induction memory generalizing address e with
  | gone => rfl
  | mapped virtualQueryEx next ih =>
    rw [loop, ProcessMemory.walkFrom]
    cases virtualQueryEx address with
    | none => rfl
    | some mi => exact ih address (address + mi.regionSize) (e.visit order count mi)

/-- The part of the state that the comparisons work on. -/
def Locals.sweep (e : Locals) : Sweep RegionKey MemoryRegionItem :=
  ⟨e.set, e.oldItems, e.newItems⟩

/-- What a walk over the regions `seen` has done when the walk before returned some
region, from the set `m`. -/
structure Locals.Compared (isValid : Bool) (m : UnorderedMap RegionKey MemoryRegionItem)
    (seen : List MemoryRegionItem) (e : Locals) : Prop where
  /-- The handle stays. -/
  isValid_eq : e.isValid = isValid
  /-- The regions have been compared with the set. -/
  sweep_eq : e.sweep = seen.foldl (Sweep.visit (·.key)) (Sweep.start m)
  /-- The regions are listed. -/
  items_eq : e.items = seen
  /-- A key of the set has been put on the deleted list once for each region before the
  first one with the key. -/
  count_deleted : ∀ k, (e.deletedItems.map (·.key)).count k =
    if k ∈ m then (seen.map (·.key)).idxOf k else 0

/-- A comparison visits the sweep. -/
theorem Locals.compare_sweep (e : Locals) (mi : MemoryRegionItem) :
    (e.compare mi).sweep = e.sweep.visit (·.key) mi := by
  unfold Locals.compare Sweep.visit Locals.sweep
  split <;> rfl

/-- A comparison leaves the handle and the lists of all and of deleted regions alone. -/
theorem Locals.compare_frame (e : Locals) (mi : MemoryRegionItem) :
    (e.compare mi).isValid = e.isValid ∧ (e.compare mi).items = e.items ∧
      (e.compare mi).deletedItems = e.deletedItems := by
  unfold Locals.compare
  split <;> exact ⟨rfl, rfl, rfl⟩

/-- **One region of an incremental walk** is compared with what the tracker has seen, and the
invariant goes on to hold with it. -/
theorem Locals.Compared.visit {isValid : Bool} {m : UnorderedMap RegionKey MemoryRegionItem}
    {seen : List MemoryRegionItem} {e : Locals} (he : e.Compared isValid m seen)
    (hm : m.Own (·.key)) (order : IterationOrder) {count : ℕ} (hcount : count ≠ 0)
    (mi : MemoryRegionItem) : (e.visit order count mi).Compared isValid m (seen ++ [mi]) := by
  obtain ⟨hvalid, hitems, hdeleted⟩ := e.compare_frame mi
  have hsweep : (e.compare mi).sweep =
      (seen ++ [mi]).foldl (Sweep.visit (·.key)) (Sweep.start m) := by
    rw [Locals.compare_sweep, he.sweep_eq, List.foldl_append, List.foldl_cons, List.foldl_nil]
  have hfound := Sweep.Found.visitAll hm (seen ++ [mi])
  rw [← hsweep] at hfound
  have hvisit : (e.visit order count mi).isValid = isValid ∧
      (e.visit order count mi).sweep = (e.compare mi).sweep ∧
      (e.visit order count mi).items = seen ++ [mi] ∧
      (e.visit order count mi).deletedItems =
        e.deletedItems ++ (e.compare mi).sweep.unseen.values order := by
    rw [Locals.visit, if_neg hcount, ← hdeleted, ← he.items_eq, ← hitems, ← he.isValid_eq, ← hvalid]
    exact ⟨rfl, rfl, rfl, rfl⟩
  obtain ⟨hvalid', hsweep', hitems', hdeleted'⟩ := hvisit
  refine ⟨hvalid', hsweep'.trans hsweep, hitems', fun k => ?_⟩
  -- The candidates left are the keys of the set that the walk has not met up to here.
  obtain ⟨hnodup, hmem⟩ := (hfound.unseen_own hm).map_values order
  have hlisted := List.Nodup.count (a := k) hnodup
  simp only [hmem, hfound.mem_unseen] at hlisted
  rw [hdeleted', List.map_append, List.count_append, he.count_deleted, hlisted, List.map_append]
  by_cases hk : k ∈ m
  · by_cases hseen : k ∈ seen.map (·.key)
    · rw [List.idxOf_append_of_mem hseen]
      simp [hk, hseen]
    · rw [List.idxOf_append_of_notMem hseen, List.idxOf_eq_length_iff.mpr hseen]
      by_cases hmi : mi.key = k
      · subst hmi
        simp [hk, hseen]
      · simp [hk, hseen, Ne.symm hmi]
  · simp [hk]

/-- **An incremental walk** compares all its regions with what the tracker has seen. -/
theorem Locals.Compared.visitAll {t : VMTracker} (ht : t.set.Own (·.key)) (order : IterationOrder)
    {count : ℕ} (hcount : count ≠ 0) (walk : List MemoryRegionItem) :
    Compared t.isValid t.set walk
      (walk.foldl (Locals.visit order count)
        { t with items := [], newItems := [], deletedItems := [], oldItems := t.set }) := by
  induction walk using List.reverseRecOn with
  | nil => exact ⟨rfl, rfl, rfl, by simp⟩
  | append_singleton walk mi ih =>
    rw [List.foldl_append]
    exact ih.visit ht order hcount mi

/-- A walk after one that returned nothing enters its regions into the set and reports
nothing. -/
theorem Locals.visitAll_first (order : IterationOrder) (e : Locals)
    (walk : List MemoryRegionItem) :
    walk.foldl (visit order 0) e =
      { e with
        items := e.items ++ walk
        set := walk.foldl (fun m mi => m.insertNew mi.key mi) e.set } := by
  induction walk generalizing e with
  | nil => simp
  | cons mi walk ih => simp [ih, visit]

/-- What the tracker keeps in view of the regions `seen` in all walks so far and those of
the `latest` walk. -/
structure Tracks (t : VMTracker) (isValid : Bool) (seen latest : List MemoryRegionItem) :
    Prop where
  /-- The handle stays. -/
  isValid_eq : t.isValid = isValid
  /-- The listed regions are those of the latest walk. -/
  items_eq : t.items = latest
  /-- Regions are stored under their own keys. -/
  own : t.set.Own (·.key)
  /-- The set has the key of every region seen so far. -/
  mem_set : ∀ k, k ∈ t.set ↔ k ∈ seen.map (·.key)
  /-- Without a handle nothing happens. -/
  eq_opened : isValid = false → t = opened false

/-- A new tracker has seen nothing. -/
theorem opened_tracks (isValid : Bool) : (opened isValid).Tracks isValid [] [] :=
  ⟨rfl, rfl, fun k v hlookup => (by simp [opened] at hlookup), by simp [opened],
    fun h => by rw [h]⟩

/-- What a call with a handle does after a walk that returned nothing. -/
theorem enumRegions_first {t : VMTracker} (hvalid : t.isValid = true) (hitems : t.items = [])
    (c : RegionCall) :
    (t.enumRegions c).1 =
      { t with
        items := c.walk
        newItems := []
        deletedItems := []
        set := c.walk.foldl (fun m mi => m.insertNew mi.key mi) t.set } := by
  simp [enumRegions, hvalid, hitems, Locals.loop_eq, Locals.visitAll_first, RegionCall.walk]

/-- What a call with a handle does after a walk that returned some region. -/
theorem enumRegions_compared {t : VMTracker} (hvalid : t.isValid = true) (hitems : t.items ≠ [])
    (hown : t.set.Own (·.key)) (c : RegionCall) :
    ∃ e : Locals, (t.enumRegions c).1 = e.toVMTracker ∧ e.Compared true t.set c.walk := by
  have hcount : t.items.length ≠ 0 := mt List.length_eq_zero_iff.mp hitems
  have hcompared := Locals.Compared.visitAll hown c.order hcount c.walk
  rw [hvalid] at hcompared
  refine ⟨_, ?_, hcompared⟩
  simp [enumRegions, hvalid, Locals.loop_eq, RegionCall.walk]

/-- **One call** keeps track of the regions. -/
theorem Tracks.enumRegions {t : VMTracker} {isValid : Bool} {seen latest : List MemoryRegionItem}
    (ht : t.Tracks isValid seen latest) (c : RegionCall) :
    (t.enumRegions c).1.Tracks isValid (seen ++ regions isValid c) (regions isValid c) := by
  cases isValid with
  | false =>
    have hidle : (t.enumRegions c).1 = t := by
      rw [VMTracker.enumRegions, ht.isValid_eq]
      rfl
    rw [hidle]
    refine ⟨ht.isValid_eq, ?_, ht.own, fun k => ?_, ht.eq_opened⟩
    · rw [ht.eq_opened rfl]
      rfl
    · rw [ht.mem_set, regions, if_neg Bool.false_ne_true, List.append_nil]
  | true =>
    by_cases hitems : t.items = []
    · obtain ⟨hown, hmem⟩ := ht.own.foldl_insertNew c.walk
      rw [enumRegions_first ht.isValid_eq hitems]
      refine ⟨ht.isValid_eq, rfl, hown, fun k => (hmem k).trans ?_, nofun⟩
      rw [ht.mem_set, List.map_append, List.mem_append]
      rfl
    · obtain ⟨e, hcall, hcompared⟩ := enumRegions_compared ht.isValid_eq hitems ht.own c
      have hfound := Sweep.Found.visitAll ht.own c.walk
      rw [← hcompared.sweep_eq] at hfound
      rw [hcall]
      refine ⟨hcompared.isValid_eq, hcompared.items_eq, hfound.present_own,
        fun k => (hfound.mem_present k).trans ?_, nofun⟩
      rw [ht.mem_set, List.map_append, List.mem_append]
      rfl

/-- A run of one more call is the run before it and then the call. -/
theorem run_concat (isValid : Bool) (calls : List RegionCall) (c : RegionCall) :
    run isValid (calls ++ [c]) = ((run isValid calls).enumRegions c).1 := by
  simp [run]

/-- The regions of the latest walk of a run, none before the first call. -/
def latest (isValid : Bool) (calls : List RegionCall) : List MemoryRegionItem :=
  (calls.getLast?.map (regions isValid)).getD []

/-- The regions of a last call are the latest ones. -/
@[simp] theorem latest_concat (isValid : Bool) (calls : List RegionCall) (c : RegionCall) :
    latest isValid (calls ++ [c]) = regions isValid c := by
  simp [latest]

/-- **A run keeps track** of all regions that its walks have come across, and lists those of the
last one. -/
theorem run_tracks (isValid : Bool) (calls : List RegionCall) :
    (run isValid calls).Tracks isValid (calls.flatMap (regions isValid))
      (latest isValid calls) := by
  induction calls using List.reverseRecOn with
  | nil => exact opened_tracks isValid
  | append_singleton calls c ih =>
    rw [run_concat, latest_concat, List.flatMap_append, List.flatMap_singleton]
    exact ih.enumRegions c

end VMTracker

end WinSys
