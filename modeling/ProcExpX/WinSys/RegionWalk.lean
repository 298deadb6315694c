import ProcExpX.Library.Loop
import ProcExpX.Library.Tiling
import ProcExpX.WinSys.RegionsTracker

/-!
# The walk over the regions

`EnumRegions` asks for the region at an address, goes on by the size of the region, and
stops when the system has no answer. The loop has no bound of its own. Since the address
stays at the beginning of a page, each region starts where the one before it ended, and
the walk ends behind the last address of the process.
-/

namespace WinSys

open Library

/-- The first address behind a region. -/
def MemoryRegionItem.endAddress (mi : MemoryRegionItem) : ℕ :=
  mi.baseAddress.toNat + mi.regionSize.toNat

/-- What `VirtualQueryEx` returns for an address below the limit of an address space. -/
structure MemoryRegionItem.Answers (mi : MemoryRegionItem) (pageSize : ℕ)
    (limit address : UInt64) : Prop where
  /-- The region starts at the address, rounded down to a page. -/
  baseAddress_eq : mi.baseAddress.toNat = address.toNat / pageSize * pageSize
  /-- It consists of whole pages. -/
  pages : pageSize ∣ mi.regionSize.toNat
  /-- It has at least one. -/
  regionSize_pos : 0 < mi.regionSize.toNat
  /-- The limit and a region further is still an address. -/
  noWrap : limit.toNat + mi.regionSize.toNat < UInt64.size

/-- The address space of a process during a walk. What it contains may be different at
each query. -/
structure AddressSpace where
  /-- The first address behind it. -/
  limit : UInt64
  /-- The size of a page. -/
  pageSize : ℕ
  /-- `VirtualQueryEx`, from the number of the query and the address. -/
  virtualQueryEx : ℕ → UInt64 → Option MemoryRegionItem
  /-- There is a region at every address below the limit. -/
  below : ∀ n address, address < limit →
    ∃ mi, virtualQueryEx n address = some mi ∧ mi.Answers pageSize limit address
  /-- There is none at or above the limit. -/
  above : ∀ n address, limit ≤ address → virtualQueryEx n address = none

/-- The regions tile the addresses below a limit. -/
structure TilesBelow (limit : UInt64) (items : List MemoryRegionItem) : Prop where
  /-- The first region starts at address 0. -/
  first : ∀ mi ∈ items.head?, mi.baseAddress = 0
  /-- Each region starts where the one before it ends. -/
  next : items.IsChain fun mi mi' => mi.endAddress = mi'.baseAddress.toNat
  /-- The regions are in ascending order. -/
  ascending : items.Pairwise fun mi mi' => mi.baseAddress < mi'.baseAddress
  /-- The last region ends at the limit or beyond. Only below the limit 0 there is none. -/
  last : limit.toNat ≤ (items.getLast?.map (·.endAddress)).getD 0
  /-- Each address below the limit lies in one region. -/
  once : ∀ address < limit, items.countP (fun mi =>
    mi.baseAddress.toNat ≤ address.toNat ∧ address.toNat < mi.endAddress) = 1

/-- A tiling from address 0 to the limit or beyond. -/
theorem TilesBelow.of_tiles {limit : UInt64} {items : List MemoryRegionItem} {stop : ℕ}
    (h : Tiles (·.baseAddress.toNat) (·.endAddress) 0 items stop) (hstop : limit.toNat ≤ stop) :
    TilesBelow limit items where
  first mi hmi := UInt64.toNat_inj.mp (h.head hmi)
  next := h.isChain
  ascending := h.ascending
  last := by rwa [h.last]
  once address hlt := by
    have hbefore : address.toNat < stop := lt_of_lt_of_le (UInt64.lt_iff_toNat_lt.mp hlt) hstop
    rw [h.countP_eq, if_pos ⟨Nat.zero_le _, hbefore⟩]

namespace VMTracker

/-- The state of the loop of `EnumRegions`. -/
structure Walk where
  /-- The tracker and `oldItems`. -/
  locals : Locals
  /-- `address`. -/
  address : UInt64
  /-- The number of queries made. -/
  queries : ℕ

/-- One round of the loop of `EnumRegions`. -/
def Walk.round (order : IterationOrder) (count : ℕ)
    (virtualQueryEx : ℕ → UInt64 → Option MemoryRegionItem) (w : Walk) : Round Walk :=
  match virtualQueryEx w.queries w.address with
  | none => .leave w
  | some mi =>
    .again
      { locals := w.locals.visit order count mi
        address := w.address + mi.regionSize
        queries := w.queries + 1 }

/-- `EnumRegions` if its loop is left within `fuel` rounds. -/
def enumRegionsWithin (t : VMTracker) (fuel : ℕ) (order : IterationOrder)
    (virtualQueryEx : ℕ → UInt64 → Option MemoryRegionItem) : Option (VMTracker × ℕ) :=
  if t.isValid then
    let count := t.items.length
    let t := { t with items := [], newItems := [], deletedItems := [] }
    let start : Walk := ⟨{ t with oldItems := t.set }, 0, 0⟩
    (loop (Walk.round order count virtualQueryEx) fuel start).map fun w =>
      (w.locals.toVMTracker, w.locals.items.length)
  else some (t, 0)

section Refinement

variable {order : IterationOrder} {virtualQueryEx : ℕ → UInt64 → Option MemoryRegionItem}

/-- The memory as the queries from number `n` on find it, up to `fuel` of them. -/
def queried (virtualQueryEx : ℕ → UInt64 → Option MemoryRegionItem) : ℕ → ℕ → ProcessMemory
  | 0, _ => .gone
  | fuel + 1, n => .mapped (virtualQueryEx n) fun _ => queried virtualQueryEx fuel (n + 1)

/-- A loop that is left has walked over the memory that its queries found. -/
theorem Walk.locals_of_loop {count fuel : ℕ} {w w' : Walk}
    (h : loop (round order count virtualQueryEx) fuel w = some w') :
    w'.locals =
      Locals.loop order count (queried virtualQueryEx fuel w.queries) w.address w.locals := by
  induction fuel generalizing w with
  | zero => cases h
  | succ fuel ih =>
    rw [Library.loop, round] at h
    rw [queried, Locals.loop]
    cases hanswer : virtualQueryEx w.queries w.address with
    | none =>
      rw [hanswer] at h
      exact congrArg locals (Option.some.inj h).symm
    | some mi =>
      rw [hanswer] at h
      exact ih h

/-- **Refinement.** A call whose loop is left is a call on the memory that its queries
found. -/
theorem enumRegions_of_within {t : VMTracker} {fuel : ℕ} {r : VMTracker × ℕ}
    (h : t.enumRegionsWithin fuel order virtualQueryEx = some r) :
    t.enumRegions ⟨queried virtualQueryEx fuel 0, order⟩ = r := by
  unfold enumRegionsWithin at h
  unfold enumRegions
  split at h
  · rename_i hvalid
    rw [if_pos hvalid]
    obtain ⟨w, hloop, rfl⟩ := Option.map_eq_some_iff.mp h
    rw [Walk.locals_of_loop hloop]
  · rename_i hinvalid
    rw [if_neg hinvalid]
    exact Option.some.inj h

end Refinement

section Tiling

variable {space : AddressSpace} {w : Walk}

/-- A visit lists the region. -/
theorem Locals.visit_items (order : IterationOrder) (count : ℕ) (e : Locals)
    (mi : MemoryRegionItem) : (e.visit order count mi).items = e.items ++ [mi] := by
  unfold visit
  split
  · rfl
  · exact congrArg (· ++ [mi]) (e.compare_frame mi).2.1

/-- **The invariant of the walk.** The address is the beginning of a page, and the regions
listed tile the addresses below it. -/
structure Walk.TilesSoFar (space : AddressSpace) (w : Walk) : Prop where
  /-- The address is the beginning of a page. -/
  aligned : space.pageSize ∣ w.address.toNat
  /-- The regions lead from 0 to the address. -/
  tiles : Tiles (·.baseAddress.toNat) (·.endAddress) 0 w.locals.items w.address.toNat

/-- **One region** leads to the next page that has not been visited. -/
theorem Walk.TilesSoFar.visit (order : IterationOrder) (count : ℕ) (h : w.TilesSoFar space)
    {mi : MemoryRegionItem} (hlt : w.address < space.limit)
    (hmi : mi.Answers space.pageSize space.limit w.address) :
    (w.address + mi.regionSize).toNat = w.address.toNat + mi.regionSize.toNat ∧
      TilesSoFar space
        { locals := w.locals.visit order count mi
          address := w.address + mi.regionSize
          queries := w.queries + 1 } := by
  have hlimit := UInt64.lt_iff_toNat_lt.mp hlt
  have hbase : mi.baseAddress.toNat = w.address.toNat := by
    rw [hmi.baseAddress_eq, Nat.div_mul_cancel h.aligned]
  have hnext : (w.address + mi.regionSize).toNat = w.address.toNat + mi.regionSize.toNat := by
    have hfits : w.address.toNat + mi.regionSize.toNat < UInt64.size :=
      lt_of_le_of_lt (Nat.add_le_add_right (Nat.le_of_lt hlimit) _) hmi.noWrap
    rw [UInt64.toNat_add]
    exact Nat.mod_eq_of_lt hfits
  refine ⟨hnext, hnext ▸ Nat.dvd_add h.aligned hmi.pages, ?_⟩
  rw [Locals.visit_items, Tiles.concat_iff, hbase]
  refine ⟨h.tiles, ?_, ?_⟩
  · rw [MemoryRegionItem.endAddress, hbase]
    exact Nat.lt_add_of_pos_right hmi.regionSize_pos
  · rw [MemoryRegionItem.endAddress, hbase, hnext]

/-- **One round** goes on below the limit, at a higher address, and leaves the loop at the
limit. -/
theorem Walk.TilesSoFar.round (order : IterationOrder) (count : ℕ) (h : w.TilesSoFar space) :
    (∃ w', w.round order count space.virtualQueryEx = .again w' ∧ w'.TilesSoFar space ∧
        space.limit.toNat - w'.address.toNat < space.limit.toNat - w.address.toNat) ∨
      ∃ w', w.round order count space.virtualQueryEx = .leave w' ∧ w'.TilesSoFar space ∧
        space.limit ≤ w'.address := by
  unfold Walk.round
  by_cases hlt : w.address < space.limit
  · obtain ⟨mi, hquery, hmi⟩ := space.below w.queries w.address hlt
    obtain ⟨hnext, htiles⟩ := h.visit order count hlt hmi
    rw [hquery]
    refine Or.inl ⟨_, rfl, htiles, ?_⟩
    have hlimit := UInt64.lt_iff_toNat_lt.mp hlt
    have hpos := hmi.regionSize_pos
    dsimp only
    omega
  · have hge := UInt64.not_lt.mp hlt
    rw [space.above w.queries w.address hge]
    exact Or.inr ⟨w, rfl, h, hge⟩

/-- **The walk ends and tiles the address space.** Whatever the tracker holds and however
the address space changes during the walk, `EnumRegions` returns, the regions it lists
tile the addresses below the limit, and it returns their number. -/
theorem enumRegions_tiles (space : AddressSpace) (order : IterationOrder) {t : VMTracker}
    (hvalid : t.isValid = true) :
    ∃ t', (∀ fuel, space.limit.toNat < fuel →
        t.enumRegionsWithin fuel order space.virtualQueryEx = some (t', t'.items.length)) ∧
      TilesBelow space.limit t'.items := by
  let start : Walk :=
    ⟨{ t with items := [], newItems := [], deletedItems := [], oldItems := t.set }, 0, 0⟩
  have hstart : start.TilesSoFar space := ⟨Nat.dvd_zero _, rfl⟩
  obtain ⟨w, hloop, htiles, hlimit⟩ := loop_leaves
    (fun w : Walk => space.limit.toNat - w.address.toNat)
    (fun w hw => hw.round order t.items.length) hstart
  refine ⟨w.locals.toVMTracker, fun fuel hfuel => ?_,
    TilesBelow.of_tiles htiles.tiles (UInt64.le_iff_toNat_le.mp hlimit)⟩
  unfold enumRegionsWithin
  rw [if_pos hvalid]
  dsimp only
  rw [hloop fuel hfuel]
  rfl

end Tiling

end VMTracker

/-- Four pages that the queries find in regions of one page and of two in turn. -/
def AddressSpace.alternating : AddressSpace where
  limit := 16384
  pageSize := 4096
  virtualQueryEx n address :=
    if address < 16384 then
      some { (default : MemoryRegionItem) with
        baseAddress := address / 4096 * 4096
        regionSize := if n % 2 = 0 then 4096 else 8192 }
    else none
  below n address hlt := by
    refine ⟨_, if_pos hlt, ?_⟩
    have hlimit : address.toNat < 16384 := UInt64.lt_iff_toNat_lt.mp hlt
    refine ⟨?_, ?_, ?_, ?_⟩
    · rw [UInt64.toNat_mul, UInt64.toNat_div]
      refine Nat.mod_eq_of_lt ?_
      have hdiv : address.toNat / 4096 * 4096 ≤ address.toNat := Nat.div_mul_le_self _ _
      exact lt_of_le_of_lt hdiv (lt_of_lt_of_le hlimit (by decide))
    all_goals
      dsimp only
      split <;> decide
  above n address hle := if_neg (UInt64.not_lt.mpr hle)

namespace VMTracker

/-- The walk over these pages lists three regions. -/
theorem enumRegions_tiles_alternating :
    ∃ t', (opened true).enumRegionsWithin 16385 .stored
        AddressSpace.alternating.virtualQueryEx = some (t', 3) ∧ TilesBelow 16384 t'.items := by
  obtain ⟨t', hcalls, htiles⟩ :=
    enumRegions_tiles .alternating .stored (t := opened true) rfl
  have hcall := hcalls 16385 (by decide)
  have hcount : ((opened true).enumRegionsWithin 16385 .stored
      AddressSpace.alternating.virtualQueryEx).map Prod.snd = some 3 := by decide
  rw [hcall] at hcount
  have hlength : t'.items.length = 3 := Option.some.inj hcount
  exact ⟨t', hlength ▸ hcall, htiles⟩

end VMTracker

end WinSys
