import ProcExpX.Library.Ledger
import ProcExpX.WinSys.HandlesTracker

/-!
# Handles are conserved

A handle value enters the tracked set with a baseline or with a list of new handles, and
leaves it with a list of closed handles. The two are in balance over every run that keeps
the history, whatever calls fail and whenever the process is found to have exited.
-/

namespace WinSys

open Library

namespace HandlesTracker

/-- How often a call enters a handle value into the tracked set: as a part of the baseline
if nothing was tracked, otherwise as often as it is listed as new. -/
def entered (h : Handle) (t : HandlesTracker) (c : HandleCall) : ℕ :=
  if t.isValid ∧ c.exited = false ∧ c.query.snapshot.isSome then
    if t.handles.entries.isEmpty then if h ∈ (t.enumHandles c).1.handles then 1 else 0
    else ((t.enumHandles c).1.newHandles.map (·.handleValue)).count h
  else 0

/-- How often a call that succeeds or finds the process exited lists a handle value as
closed. -/
def closed (h : Handle) (t : HandlesTracker) (c : HandleCall) : ℕ :=
  if t.isValid ∧ (c.exited ∨ c.query.snapshot.isSome) then
    ((t.enumHandles c).1.closedHandles.map (·.handleValue)).count h
  else 0

/-- How often a handle value is tracked. -/
def tracked (h : Handle) (t : HandlesTracker) : ℕ := if h ∈ t.handles then 1 else 0

/-- How often a handle value entered the tracked set in a run. -/
def enteredTimes (isValid : Bool) (calls : List HandleCall) (h : Handle) : ℕ :=
  total (fun t c => (t.enumHandles c).1) (entered h) (opened isValid) calls

/-- How often a handle value was listed as closed in a run. -/
def closedTimes (isValid : Bool) (calls : List HandleCall) (h : Handle) : ℕ :=
  total (fun t c => (t.enumHandles c).1) (closed h) (opened isValid) calls

/-- Between calls the handles are stored under their own values, and nothing is tracked
without a handle of the process. -/
structure Sound (t : HandlesTracker) : Prop where
  /-- Entries are stored under their own handle value. -/
  own : t.handles.Own (·.handleValue)
  /-- A tracker that could not open the process has reported nothing. -/
  eq_opened : t.isValid = false → t = opened false

/-- A new tracker is sound. -/
theorem opened_sound (isValid : Bool) : (opened isValid).Sound :=
  ⟨fun k v hlookup => (by simp [opened] at hlookup), fun h => by rw [← h]; rfl⟩

/-- What is tracked, as handle values. -/
theorem Sound.holds {t : HandlesTracker} (ht : t.Sound) : t.Holds t.handles.keys :=
  ⟨ht.own, fun _ => AList.mem_keys.symm⟩

/-- Handles that are tracked as the listed values are counted as these are. -/
theorem Holds.tracked_eq {t : HandlesTracker} {values : List Handle} (ht : t.Holds values)
    (h : Handle) : tracked h t = if h ∈ values then 1 else 0 :=
  if_congr (ht.mem_iff h) rfl rfl

/-- A report of the difference lists a handle value once if it is in one of the two lists
only. -/
theorem ReportsDifference.count_eq_iff {t : HandlesTracker} {count : UInt32}
    {previous current : List Handle} (hr : t.ReportsDifference count previous current)
    (h : Handle) :
    (t.newHandles.map (·.handleValue)).count h =
        (if h ∈ current ∧ h ∉ previous then 1 else 0) ∧
      (t.closedHandles.map (·.handleValue)).count h =
        if h ∈ previous ∧ h ∉ current then 1 else 0 := by
  rw [List.Nodup.count hr.new_nodup, List.Nodup.count hr.closed_nodup]
  exact ⟨if_congr (hr.mem_new h) rfl rfl, if_congr (hr.mem_closed h) rfl rfl⟩

/-- A successful call moves no handle value in or out without listing it. -/
private theorem Sound.balance_tracks {t : HandlesTracker} (ht : t.Sound) {c : HandleCall}
    (hvalid : t.isValid = true) (hc : c.Tracks) (h : Handle) :
    (t.enumHandles c).1.Sound ∧
      tracked h t + entered h t c = closed h t c + tracked h (t.enumHandles c).1 := by
  obtain ⟨hvalid', hholds, hreports⟩ := ht.holds.enumHandles hvalid hc
  refine ⟨⟨hholds.own, fun hinvalid => absurd (hvalid'.symm.trans hinvalid) (by decide)⟩, ?_⟩
  have hentered : entered h t c =
      if t.handles.entries.isEmpty then tracked h (t.enumHandles c).1
      else ((t.enumHandles c).1.newHandles.map (·.handleValue)).count h :=
    if_pos ⟨hvalid, hc.alive, hc.succeeds⟩
  have hclosed : closed h t c =
      ((t.enumHandles c).1.closedHandles.map (·.handleValue)).count h :=
    if_pos ⟨hvalid, Or.inr hc.succeeds⟩
  rw [hentered, hclosed]
  by_cases hempty : t.handles.entries.isEmpty = true
  · -- The baseline: nothing was tracked and nothing is listed as closed.
    obtain ⟨snapshot, hsnapshot⟩ := Option.isSome_iff_exists.mp hc.succeeds
    obtain ⟨t', hstep, ht'⟩ := enumHandles_tracks hvalid hc.keeps hc.alive hsnapshot
    rw [if_pos hempty] at ht'
    have hnone : (t.enumHandles c).1.closedHandles = [] := by
      rw [hstep, ht']
      rfl
    have hkeys : t.handles.keys = [] := ht.holds.isEmpty_iff.mp hempty
    rw [if_pos hempty, hnone, ht.holds.tracked_eq, hkeys]
    simp
  · have hkeys := mt ht.holds.isEmpty_iff.mpr hempty
    obtain ⟨hnew, hold⟩ := (hreports.mpr fun hnil => absurd hnil hkeys).count_eq_iff h
    rw [if_neg hempty, hnew, hold, ht.holds.tracked_eq, hholds.tracked_eq]
    by_cases hprevious : h ∈ t.handles.keys <;> by_cases hcurrent : h ∈ c.values <;>
      simp [hprevious, hcurrent]

/-- **Conservation in one call.** A call that keeps the history moves no handle value in
or out of the tracked set without listing it. -/
theorem Sound.balance {t : HandlesTracker} (ht : t.Sound) {c : HandleCall}
    (hkeeps : c.clearHistory = false) (h : Handle) :
    (t.enumHandles c).1.Sound ∧
      tracked h t + entered h t c = closed h t c + tracked h (t.enumHandles c).1 := by
  cases hvalid : t.isValid with
  | false =>
    have hidle : (t.enumHandles c).1 = t := by
      rw [enumHandles, hvalid]
      rfl
    rw [hidle, entered, closed, hvalid]
    exact ⟨ht, by simp⟩
  | true =>
    cases hexited : c.exited with
    | true =>
      obtain ⟨hnodup, hmem⟩ := ht.own.map_values c.order
      have hlisted := List.Nodup.count (a := h) hnodup
      rw [entered, closed, enumHandles_exited hvalid hexited]
      refine ⟨⟨(opened_sound true).own, fun hinvalid => ?_⟩, ?_⟩
      · exact absurd (hvalid.symm.trans hinvalid) (by decide)
      · simp [hvalid, hexited, tracked, hlisted, hmem]
    | false =>
      cases hsnapshot : c.query.snapshot with
      | none =>
        rw [entered, closed, enumHandles_failed t hexited hsnapshot]
        refine ⟨ht, ?_⟩
        simp [hexited, hsnapshot]
      | some snapshot =>
        exact ht.balance_tracks hvalid ⟨hkeeps, hexited, by rw [hsnapshot]; rfl⟩ h

/-- A call that finds the process exited leaves nothing tracked and lists nothing as new,
and nothing as closed if nothing was tracked. -/
theorem Sound.enumHandles_exited {t : HandlesTracker} (ht : t.Sound) {c : HandleCall}
    (hexited : c.exited = true) :
    (t.enumHandles c).1.handles = ∅ ∧ (t.enumHandles c).1.newHandles = [] ∧
      (t.handles = ∅ → (t.enumHandles c).1.closedHandles = []) := by
  cases hvalid : t.isValid with
  | false =>
    have hidle : (t.enumHandles c).1 = opened false := by
      rw [enumHandles, hvalid]
      exact ht.eq_opened hvalid
    rw [hidle]
    exact ⟨rfl, rfl, fun _ => rfl⟩
  | true =>
    rw [HandlesTracker.enumHandles_exited hvalid hexited]
    refine ⟨rfl, rfl, fun hempty => ?_⟩
    refine List.eq_nil_iff_forall_not_mem.mpr fun e he => ?_
    obtain ⟨h, hlookup⟩ := UnorderedMap.mem_values.mp he
    simp [hempty] at hlookup

/-- **Conservation in a run.** -/
theorem run_balance (isValid : Bool) {calls : List HandleCall}
    (hkeep : ∀ c ∈ calls, c.clearHistory = false) (h : Handle) :
    (run isValid calls).Sound ∧ enteredTimes isValid calls h =
      closedTimes isValid calls h + tracked h (run isValid calls) := by
  have hstep : ∀ (t : HandlesTracker) (c : HandleCall), t.Sound → c.clearHistory = false →
      (t.enumHandles c).1.Sound ∧
        tracked h t + entered h t c = closed h t c + tracked h (t.enumHandles c).1 :=
    fun t c ht hc => ht.balance hc h
  obtain ⟨hsound, hbalance⟩ := total_balance hstep (opened_sound isValid) hkeep
  refine ⟨hsound, ?_⟩
  have hnone : tracked h (opened isValid) = 0 := if_neg (by simp [opened])
  rwa [hnone, Nat.zero_add] at hbalance

/-- After calls that all find the process exited nothing is tracked, and from the second
one on nothing is listed. -/
private theorem run_exited (isValid : Bool) {before : List HandleCall} {c : HandleCall}
    {later : List HandleCall} (hkeep : ∀ d ∈ before ++ c :: later, d.clearHistory = false)
    (hexited : ∀ d ∈ c :: later, d.exited = true) :
    (run isValid (before ++ c :: later)).handles = ∅ ∧
      (later ≠ [] → (run isValid (before ++ c :: later)).newHandles = [] ∧
        (run isValid (before ++ c :: later)).closedHandles = []) := by
  induction later using List.reverseRecOn with
  | nil =>
    have hkeep' : ∀ d ∈ before, d.clearHistory = false :=
      fun d hd => hkeep d (List.mem_append_left [c] hd)
    obtain ⟨hsound, _⟩ := run_balance isValid hkeep' 0
    rw [run_concat]
    exact ⟨(hsound.enumHandles_exited (hexited c (by simp))).1, fun h => absurd rfl h⟩
  | append_singleton later d ih =>
    have hkeep' : ∀ e ∈ before ++ c :: later, e.clearHistory = false := by
      intro e he
      rw [← List.cons_append, ← List.append_assoc] at hkeep
      exact hkeep e (List.mem_append_left _ he)
    obtain ⟨hempty, _⟩ := ih hkeep' fun e he => hexited e (List.mem_append_left [d] he)
    obtain ⟨hsound, _⟩ := run_balance isValid hkeep' 0
    obtain ⟨hnext, hnew, hclosed⟩ := hsound.enumHandles_exited (hexited d (by simp))
    rw [← List.cons_append, ← List.append_assoc, run_concat]
    exact ⟨hnext, fun _ => ⟨hnew, hclosed hempty⟩⟩

/-- **Handles are conserved.** In every run of calls that keep the history, a failing query
returns 0 and changes nothing. A handle value has entered the tracked set once more than it
has been listed as closed if it is tracked, and equally often otherwise. Once the process is
found to have exited, every handle has been listed as closed as often as it entered, and
further such calls list nothing. -/
theorem run_conserves (isValid : Bool) (calls : List HandleCall)
    (hkeep : ∀ c ∈ calls, c.clearHistory = false) :
    AtEach (fun before c => c.exited = false → c.query.snapshot = none →
      (run isValid before).enumHandles c = (run isValid before, 0)) calls ∧
    (∀ h, (enteredTimes isValid calls h : ℤ) - closedTimes isValid calls h =
      if h ∈ (run isValid calls).handles then 1 else 0) ∧
    (∀ before c later after, calls = before ++ c :: later ++ after →
      (∀ d ∈ c :: later, d.exited = true) →
        (∀ h, closedTimes isValid (before ++ c :: later) h =
          enteredTimes isValid (before ++ c :: later) h) ∧
        (later ≠ [] → (run isValid (before ++ c :: later)).newHandles = [] ∧
          (run isValid (before ++ c :: later)).closedHandles = [])) := by
  refine ⟨fun before c _ _ => enumHandles_failed _, fun h => ?_, ?_⟩
  · obtain ⟨_, hbalance⟩ := run_balance isValid hkeep h
    rw [hbalance, tracked, Int.natCast_add]
    split <;> omega
  · intro before c later after heq hexited
    have hkeep' : ∀ d ∈ before ++ c :: later, d.clearHistory = false :=
      fun d hd => hkeep d (heq ▸ List.mem_append_left after hd)
    obtain ⟨hempty, hlists⟩ := run_exited isValid hkeep' hexited
    refine ⟨fun h => ?_, hlists⟩
    obtain ⟨_, hbalance⟩ := run_balance isValid hkeep' h
    rw [hbalance, tracked, hempty, if_neg (AList.notMem_empty h), Nat.add_zero]

/-- Handle 4 enters with the baseline, a query fails, and handle 4 is closed when the
process exits. -/
theorem run_conserves_exit :
    let c₁ := HandleCall.answered ⟨[⟨4, 1⟩], by decide⟩
    let c₂ : HandleCall := { c₁ with query := .bufferTooSmall .failure }
    let c₃ : HandleCall := { c₁ with exited := true }
    enteredTimes true [c₁, c₂, c₃] 4 = 1 ∧
      closedTimes true [c₁, c₂, c₃] 4 = enteredTimes true [c₁, c₂, c₃] 4 := by
  intro c₁ c₂ c₃
  have hkeep : ∀ c ∈ [c₁, c₂, c₃], c.clearHistory = false := by
    intro c hc
    simp only [List.mem_cons, List.not_mem_nil, or_false] at hc
    rcases hc with rfl | rfl | rfl <;> rfl
  obtain ⟨_, _, hexit⟩ := run_conserves true [c₁, c₂, c₃] hkeep
  exact ⟨by decide, (hexit [c₁, c₂] c₃ [] [] rfl (by simp [c₃])).1 4⟩

end HandlesTracker

end WinSys
