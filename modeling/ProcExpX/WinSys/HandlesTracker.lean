import Mathlib.Algebra.Group.Nat.Defs
import ProcExpX.Library.AtEach
import ProcExpX.Library.Sweep
import ProcExpX.WinSys.Keys

/-!
# The handles tracker

`ProcessHandlesTracker::Impl`. The first successful call takes the snapshot as a
baseline, later ones report the difference to the handles tracked. Whether a call is
the first one is read off from the tracked set being empty, so that the handles of a
process that had none are taken as a baseline again.
-/

namespace WinSys

open Library

/-- `HandleEntryInfo`. Two entries are equal when their handle values are. -/
structure HandleEntryInfo where
  /-- The handle. -/
  handleValue : Handle
  /-- The type of the object behind it. -/
  objectTypeIndex : UInt32

/-- `PROCESS_HANDLE_SNAPSHOT_INFORMATION`, with the members of its entries that the
tracker reads. The size of the buffer is an `int`, which bounds their number. -/
structure HandleSnapshot where
  /-- The entries. -/
  handles : List HandleEntryInfo
  /-- Their number fits in 32 bits. -/
  length_lt : handles.length < 2 ^ 32

/-- How the system answers the queries of one call. A buffer that is too small makes
the tracker ask again with a larger one. -/
inductive HandleQuery
  /-- `STATUS_SUCCESS`, with the buffer written. -/
  | success (snapshot : HandleSnapshot)
  /-- `STATUS_BUFFER_TOO_SMALL`, and the answer to the next query. -/
  | bufferTooSmall (retry : HandleQuery)
  /-- Any other status. -/
  | failure

/-- The snapshot that the query loop ends with, if it succeeds. -/
def HandleQuery.snapshot : HandleQuery → Option HandleSnapshot
  | .success snapshot => some snapshot
  | .bufferTooSmall retry => retry.snapshot
  | .failure => none

/-- `ProcessHandlesTracker::Impl`. -/
structure HandlesTracker where
  /-- Whether `_hProcess` is a handle. -/
  isValid : Bool
  /-- `_closedHandles`. -/
  closedHandles : List HandleEntryInfo
  /-- `_newHandles`. -/
  newHandles : List HandleEntryInfo
  /-- `_handles`, the tracked set. -/
  handles : UnorderedMap Handle HandleEntryInfo

/-- A call of `EnumHandles` with what it meets outside the tracker. -/
structure HandleCall where
  /-- Whether the history is to be cleared. -/
  clearHistory : Bool
  /-- Whether `WaitForSingleObject` finds the process exited. -/
  exited : Bool
  /-- The answers to the queries. -/
  query : HandleQuery
  /-- The order in which the closed handles are copied. -/
  order : IterationOrder

namespace HandlesTracker

/-- A tracker of a process that could be opened or not. -/
def opened (isValid : Bool) : HandlesTracker :=
  { isValid := isValid, closedHandles := [], newHandles := [], handles := ∅ }

/-- The path for an empty tracked set: the entries become the baseline. -/
def takeBaseline (t : HandlesTracker) (snapshot : HandleSnapshot) : HandlesTracker :=
  { t with handles := snapshot.handles.foldl (fun m e => m.insertNew e.handleValue e) t.handles }

/-- The path for a tracked set with entries: the difference is reported. -/
def compare (t : HandlesTracker) (snapshot : HandleSnapshot) (order : IterationOrder) :
    HandlesTracker :=
  let s := snapshot.handles.foldl (Sweep.visit (·.handleValue)) (Sweep.start t.handles)
  let closed := s.unseen.values order
  { t with
    newHandles := t.newHandles ++ s.added
    closedHandles := t.closedHandles ++ closed
    handles := closed.foldl (fun m e => AList.erase e.handleValue m) s.present }

/-- `EnumHandles`, with the count it returns. -/
def enumHandles (t : HandlesTracker) (c : HandleCall) : HandlesTracker × UInt32 :=
  if t.isValid then
    if c.exited then
      ({ t with closedHandles := t.handles.values c.order, newHandles := [], handles := ∅ }, 0)
    else
      match c.query.snapshot with
      | none => (t, 0)
      | some snapshot =>
        let t := if c.clearHistory then { t with handles := ∅ } else t
        let t := { t with newHandles := [], closedHandles := [] }
        let t :=
          if t.handles.entries.isEmpty then t.takeBaseline snapshot else t.compare snapshot c.order
        (t, UInt32.ofNat t.handles.entries.length)
  else (t, 0)

/-- The tracker after a run of calls. -/
def run (isValid : Bool) (calls : List HandleCall) : HandlesTracker :=
  calls.foldl (fun t c => (t.enumHandles c).1) (opened isValid)

end HandlesTracker

/-- The handle values in the snapshot of a call, none if it does not succeed. -/
def HandleCall.values (c : HandleCall) : List Handle :=
  match c.query.snapshot with
  | some snapshot => snapshot.handles.map (·.handleValue)
  | none => []

/-- A successful call that keeps the history, for a process that has not exited. -/
structure HandleCall.Tracks (c : HandleCall) : Prop where
  /-- The history is kept. -/
  keeps : c.clearHistory = false
  /-- The process is alive. -/
  alive : c.exited = false
  /-- The system answers in the end. -/
  succeeds : c.query.snapshot.isSome

/-- A call with the given previous and current handle values reports their exact
difference and the number of current ones. -/
structure HandlesTracker.ReportsDifference (t : HandlesTracker) (count : UInt32)
    (previous current : List Handle) : Prop where
  /-- The new handles are those that are current but not previous. -/
  mem_new : ∀ h, h ∈ t.newHandles.map (·.handleValue) ↔ h ∈ current ∧ h ∉ previous
  /-- No handle is new twice. -/
  new_nodup : (t.newHandles.map (·.handleValue)).Nodup
  /-- The closed handles are those that are previous but not current. -/
  mem_closed : ∀ h, h ∈ t.closedHandles.map (·.handleValue) ↔ h ∈ previous ∧ h ∉ current
  /-- No handle is closed twice. -/
  closed_nodup : (t.closedHandles.map (·.handleValue)).Nodup
  /-- The count is the number of current handles. -/
  count_eq : count.toNat = current.dedup.length

/-- The tracker tracks exactly the given handle values. -/
structure HandlesTracker.Holds (t : HandlesTracker) (values : List Handle) : Prop where
  /-- Entries are stored under their own handle value. -/
  own : t.handles.Own (·.handleValue)
  /-- The tracked values. -/
  mem_iff : ∀ h, h ∈ t.handles ↔ h ∈ values

namespace HandlesTracker

/-- A new tracker tracks nothing. -/
theorem opened_holds (isValid : Bool) : (opened isValid).Holds [] :=
  ⟨fun k v hlookup => (by simp [opened] at hlookup), by simp [opened]⟩

/-- Nothing is tracked precisely when the set is empty. -/
theorem Holds.isEmpty_iff {t : HandlesTracker} {values : List Handle} (ht : t.Holds values) :
    t.handles.entries.isEmpty = true ↔ values = [] := by
  rw [List.isEmpty_iff, ← List.length_eq_zero_iff, UnorderedMap.length_entries ht.mem_iff,
    List.length_eq_zero_iff, List.dedup_eq_nil]

/-- The baseline of an empty set has the handles of the snapshot. -/
theorem Holds.takeBaseline {t : HandlesTracker} (ht : t.Holds []) (snapshot : HandleSnapshot) :
    (t.takeBaseline snapshot).Holds (snapshot.handles.map (·.handleValue)) := by
  obtain ⟨hown, hmem⟩ := ht.own.foldl_insertNew snapshot.handles
  exact ⟨hown, fun h => (hmem h).trans (by simp [ht.mem_iff])⟩

/-- A comparison leaves the handles of the snapshot tracked and reports the exact
difference, each handle once. -/
theorem Holds.compare {t : HandlesTracker} {values : List Handle} (ht : t.Holds values)
    (hnew : t.newHandles = []) (hclosed : t.closedHandles = []) (snapshot : HandleSnapshot)
    (order : IterationOrder) :
    (t.compare snapshot order).Holds (snapshot.handles.map (·.handleValue)) ∧
      ∀ count : UInt32, count.toNat = (snapshot.handles.map (·.handleValue)).dedup.length →
        (t.compare snapshot order).ReportsDifference count values
          (snapshot.handles.map (·.handleValue)) := by
  have hs := Sweep.Found.visitAll ht.own snapshot.handles
  obtain ⟨hnodup, hvalues⟩ := (hs.unseen_own ht.own).map_values order
  obtain ⟨hown, hmem⟩ := hs.present_own.foldl_erase
    ((snapshot.handles.foldl (Sweep.visit (·.handleValue)) (Sweep.start t.handles)).unseen.values
      order)
  constructor
  · refine ⟨hown, fun h => (hmem h).trans ?_⟩
    rw [hvalues, hs.mem_unseen, hs.mem_present]
    tauto
  · intro count hcount
    refine ⟨fun h => ?_, ?_, fun h => ?_, ?_, hcount⟩
    · simp only [HandlesTracker.compare, hnew, List.nil_append, hs.mem_added, ht.mem_iff]
    · simpa only [HandlesTracker.compare, hnew, List.nil_append] using hs.added_nodup
    · simp only [HandlesTracker.compare, hclosed, List.nil_append, hvalues, hs.mem_unseen,
        ht.mem_iff]
    · simpa only [HandlesTracker.compare, hclosed, List.nil_append] using hnodup

/-- A call for a process that is found to have exited. -/
theorem enumHandles_exited {t : HandlesTracker} {c : HandleCall} (hvalid : t.isValid = true)
    (hexited : c.exited = true) :
    t.enumHandles c = ({ t with
      closedHandles := t.handles.values c.order, newHandles := [], handles := ∅ }, 0) := by
  simp [enumHandles, hvalid, hexited]

/-- A call whose query fails. -/
theorem enumHandles_failed (t : HandlesTracker) {c : HandleCall} (halive : c.exited = false)
    (hfails : c.query.snapshot = none) : t.enumHandles c = (t, 0) := by
  simp [enumHandles, halive, hfails]

/-- The tracker with both reports cleared, as a successful call starts with it. -/
def cleared (t : HandlesTracker) : HandlesTracker :=
  { t with newHandles := [], closedHandles := [] }

/-- Clearing the reports leaves the tracked handles alone. -/
theorem Holds.cleared {t : HandlesTracker} {values : List Handle} (ht : t.Holds values) :
    t.cleared.Holds values :=
  ⟨ht.own, ht.mem_iff⟩

/-- A successful call that keeps the history. -/
theorem enumHandles_tracks {t : HandlesTracker} {c : HandleCall} {snapshot : HandleSnapshot}
    (hvalid : t.isValid = true) (hkeeps : c.clearHistory = false) (halive : c.exited = false)
    (hsnapshot : c.query.snapshot = some snapshot) :
    ∃ t', t.enumHandles c = (t', UInt32.ofNat t'.handles.entries.length) ∧
      t' = if t.handles.entries.isEmpty then t.cleared.takeBaseline snapshot
        else t.cleared.compare snapshot c.order := by
  refine ⟨_, ?_, rfl⟩
  simp [enumHandles, hvalid, hkeeps, halive, hsnapshot, HandlesTracker.cleared]

/-- **One call.** A successful call that keeps the history leaves the handles of its
snapshot tracked, and reports the exact difference precisely when something was
tracked before or nothing is there now. -/
theorem Holds.enumHandles {t : HandlesTracker} {previous : List Handle} (ht : t.Holds previous)
    (hvalid : t.isValid = true) {c : HandleCall} (hc : c.Tracks) :
    (t.enumHandles c).1.isValid = true ∧ (t.enumHandles c).1.Holds c.values ∧
      ((t.enumHandles c).1.ReportsDifference (t.enumHandles c).2 previous c.values ↔
        (previous = [] → c.values = [])) := by
  obtain ⟨snapshot, hsnapshot⟩ := Option.isSome_iff_exists.mp hc.succeeds
  have hcurrent : c.values = snapshot.handles.map (·.handleValue) := by
    rw [HandleCall.values, hsnapshot]
  have hcount : ∀ t' : HandlesTracker, t'.Holds c.values →
      (UInt32.ofNat t'.handles.entries.length).toNat = c.values.dedup.length := by
    intro t' ht'
    have hle : c.values.dedup.length ≤ snapshot.handles.length := by
      have hdedup := (List.dedup_sublist c.values).length_le
      rwa [hcurrent, List.length_map, ← hcurrent] at hdedup
    rw [UnorderedMap.length_entries ht'.mem_iff, UInt32.toNat_ofNat_of_lt']
    exact lt_of_le_of_lt hle snapshot.length_lt
  obtain ⟨t', hstep, ht'⟩ := enumHandles_tracks hvalid hc.keeps hc.alive hsnapshot
  rw [hstep]
  by_cases hempty : previous = []
  · subst hempty
    rw [if_pos (ht.isEmpty_iff.mpr rfl)] at ht'
    subst ht'
    have hholds := ht.cleared.takeBaseline snapshot
    rw [← hcurrent] at hholds
    refine ⟨hvalid, hholds, ?_⟩
    constructor
    · intro hr _
      refine List.eq_nil_iff_forall_not_mem.mpr fun h hh => ?_
      have hmem := (hr.mem_new h).mpr ⟨hh, List.not_mem_nil⟩
      cases hmem
    · intro hnil
      refine ⟨?_, List.nodup_nil, ?_, List.nodup_nil, hcount _ hholds⟩
      · simp [HandlesTracker.takeBaseline, HandlesTracker.cleared, hnil rfl]
      · simp [HandlesTracker.takeBaseline, HandlesTracker.cleared]
  · rw [if_neg (mt ht.isEmpty_iff.mp hempty)] at ht'
    subst ht'
    obtain ⟨hholds, hreports⟩ := ht.cleared.compare rfl rfl snapshot c.order
    rw [← hcurrent] at hholds hreports
    exact ⟨hvalid, hholds, fun _ hnil => absurd hnil hempty, fun _ => hreports _ (hcount _ hholds)⟩

/-- One more call of a run. -/
theorem run_concat (isValid : Bool) (calls : List HandleCall) (c : HandleCall) :
    run isValid (calls ++ [c]) = ((run isValid calls).enumHandles c).1 := by
  simp [run]

/-- After a run of successful calls that keep the history the handles of the last
snapshot are tracked. -/
theorem run_holds {calls : List HandleCall} (hcalls : ∀ c ∈ calls, c.Tracks) :
    (run true calls).isValid = true ∧
      (run true calls).Holds ((calls.getLast?.map HandleCall.values).getD []) := by
  induction calls using List.reverseRecOn with
  | nil => exact ⟨rfl, opened_holds true⟩
  | append_singleton calls c ih =>
    obtain ⟨hvalid, hholds⟩ := ih fun c' hc' => hcalls c' (by simp [hc'])
    obtain ⟨hvalid', hholds', _⟩ := hholds.enumHandles hvalid (hcalls c (by simp))
    rw [run_concat]
    exact ⟨hvalid', by simpa using hholds'⟩

/-- **When handle reports are exact.** In every run of successful calls that keep the
history, every call but the first reports the exact difference to the one before
precisely when no snapshot without handles is followed by one with handles. -/
theorem run_reportsDifference_iff (calls : List HandleCall) (hcalls : ∀ c ∈ calls, c.Tracks) :
    AtEach (fun before c => ∀ c₁ ∈ before.getLast?,
      ((run true before).enumHandles c).1.ReportsDifference ((run true before).enumHandles c).2
        c₁.values c.values) calls ↔
      AtEach (fun before c => ∀ c₁ ∈ before.getLast?, c₁.values = [] → c.values = []) calls := by
  refine AtEach.congr (AtEach.of_forall_mem hcalls) fun before c ⟨hbefore, hc⟩ => ?_
  refine forall₂_congr fun c₁ hc₁ => ?_
  obtain ⟨hvalid, hholds⟩ := run_holds hbefore
  rw [Option.mem_def.mp hc₁, Option.map_some, Option.getD_some] at hholds
  exact (hholds.enumHandles hvalid hc).2.2

end HandlesTracker

/-- A successful call that keeps the history, with the given handles in its snapshot. -/
def HandleCall.answered (snapshot : HandleSnapshot) : HandleCall :=
  { clearHistory := false, exited := false, query := .success snapshot, order := .stored }

namespace HandlesTracker

/-- Of the handles 4 and 8, the first is closed while 12 is opened. -/
theorem run_reportsDifference_iff_two_calls :
    let c₁ := HandleCall.answered ⟨[⟨4, 1⟩, ⟨8, 1⟩], by decide⟩
    let c₂ := HandleCall.answered ⟨[⟨8, 1⟩, ⟨12, 2⟩], by decide⟩
    ((run true [c₁]).enumHandles c₂).1.ReportsDifference ((run true [c₁]).enumHandles c₂).2
      [4, 8] [8, 12] := by
  intro c₁ c₂
  have hcalls : ∀ c ∈ [c₁, c₂], c.Tracks := by
    intro c hc
    simp only [List.mem_cons, List.not_mem_nil, or_false] at hc
    rcases hc with rfl | rfl <;> exact ⟨rfl, rfl, rfl⟩
  have hnever : AtEach (fun before c => ∀ d ∈ before.getLast?, d.values = [] → c.values = [])
      [c₁, c₂] := by
    refine AtEach.pair_iff.mpr ⟨fun d hd => (by cases hd), fun d hd hnil => ?_⟩
    obtain rfl := Option.some.inj hd
    cases hnil
  exact (AtEach.pair_iff.mp ((run_reportsDifference_iff [c₁, c₂] hcalls).mpr hnever)).2 c₁ rfl

/-- A handle opened by a process that had none is not reported new. -/
theorem new_handle_missed :
    let c₁ := HandleCall.answered ⟨[], by decide⟩
    let c₂ := HandleCall.answered ⟨[⟨4, 1⟩], by decide⟩
    (∀ c ∈ [c₁, c₂], c.Tracks) ∧ (run true ([c₁] ++ [c₂])).newHandles = [] ∧
      ¬ ((run true ([] ++ [c₁])).enumHandles c₂).1.ReportsDifference
        ((run true ([] ++ [c₁])).enumHandles c₂).2 c₁.values c₂.values := by
  intro c₁ c₂
  refine ⟨fun c hc => ?_, rfl, fun h => ?_⟩
  · simp only [List.mem_cons, List.not_mem_nil, or_false] at hc
    rcases hc with rfl | rfl <;> exact ⟨rfl, rfl, rfl⟩
  · have hmem := (h.mem_new 4).mpr (by decide)
    cases hmem

end HandlesTracker

end WinSys
