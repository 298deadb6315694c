import ProcExpX.Library.AtEach
import ProcExpX.WinSys.HandlesTracker

/-!
# The types of the tracked handles

Entries are compared by their handle values, and each carries the type of the object
behind the handle. An entry that stays tracked keeps the type it was entered with, so
the types follow the snapshots as long as no handle value changes its type.
-/

namespace WinSys

open Library

/-- The entries in the snapshot of a call, none if it does not succeed. -/
def HandleCall.entries (c : HandleCall) : List HandleEntryInfo :=
  match c.query.snapshot with
  | some snapshot => snapshot.handles
  | none => []

/-- The entries in the last snapshot of a run, none before the first call. -/
def lastEntries (calls : List HandleCall) : List HandleEntryInfo :=
  (calls.getLast?.map HandleCall.entries).getD []

/-- As pairs of a handle value and a type, the tracked entries are the current ones, and
the closed entries are previous ones. -/
structure HandlesTracker.FollowsTypes (t : HandlesTracker)
    (previous current : List HandleEntryInfo) : Prop where
  /-- What is tracked. -/
  tracked : ∀ e, (∃ h, t.handles.lookup h = some e) ↔ e ∈ current
  /-- What is reported closed. -/
  closed : ∀ e ∈ t.closedHandles, e ∈ previous

/-- A snapshot gives each handle value one type, the one that it had in the previous
snapshot. -/
structure TypesKept (previous current : List HandleEntryInfo) : Prop where
  /-- One type for each value. -/
  single : ∀ e ∈ current, ∀ e' ∈ current, e.handleValue = e'.handleValue →
    e.objectTypeIndex = e'.objectTypeIndex
  /-- The type of a value that is already in the previous snapshot. -/
  kept : ∀ e ∈ previous, ∀ e' ∈ current, e.handleValue = e'.handleValue →
    e.objectTypeIndex = e'.objectTypeIndex

/-- An entry is its handle value with a type. -/
theorem HandleEntryInfo.eq_of {e e' : HandleEntryInfo} (hvalue : e.handleValue = e'.handleValue)
    (htype : e.objectTypeIndex = e'.objectTypeIndex) : e = e' := by
  cases e
  cases e'
  cases hvalue
  cases htype
  rfl

/-- The values of a call are those of its entries. -/
theorem HandleCall.mem_values {c : HandleCall} {h : Handle} :
    h ∈ c.values ↔ ∃ e ∈ c.entries, e.handleValue = h := by
  unfold HandleCall.values HandleCall.entries
  cases c.query.snapshot with
  | none => simp
  | some snapshot => exact List.mem_map

/-- A value that no entry has is not found. -/
theorem find?_of_not_listed {entries : List HandleEntryInfo} {h : Handle}
    (hnot : h ∉ entries.map (·.handleValue)) :
    entries.find? (fun e => e.handleValue = h) = none := by
  rw [List.find?_eq_none]
  intro e he heq
  exact hnot (List.mem_map.mpr ⟨e, he, of_decide_eq_true heq⟩)

/-- An entry is the first one with its value if no other entry has that value. -/
theorem find?_of_single {entries : List HandleEntryInfo} {e : HandleEntryInfo}
    (he : e ∈ entries)
    (hsingle : ∀ d ∈ entries, d.handleValue = e.handleValue → d = e) :
    entries.find? (fun d => d.handleValue = e.handleValue) = some e := by
  cases hfirst : entries.find? fun d => d.handleValue = e.handleValue with
  | some d =>
    have hvalue := List.find?_some hfirst
    rw [decide_eq_true_eq] at hvalue
    rw [hsingle d (List.mem_of_find?_eq_some hfirst) hvalue]
  | none => exact absurd (decide_eq_true rfl) (List.find?_eq_none.mp hfirst e he)

namespace HandlesTracker

/-- The entries after the baseline is taken of an empty set. -/
theorem lookup_takeBaseline {t : HandlesTracker} (hempty : ∀ h, t.handles.lookup h = none)
    (snapshot : HandleSnapshot) (h : Handle) :
    (t.takeBaseline snapshot).handles.lookup h =
      snapshot.handles.find? fun e => e.handleValue = h := by
  unfold takeBaseline
  dsimp only
  rw [UnorderedMap.lookup_foldl_insertNew, hempty, Option.none_or]

/-- The entries after a comparison: those of the snapshot, as they were tracked before
where they were. -/
theorem lookup_compare {t : HandlesTracker} (hown : t.handles.Own (·.handleValue))
    (snapshot : HandleSnapshot) (order : IterationOrder) (h : Handle) :
    (t.compare snapshot order).handles.lookup h =
      if h ∈ snapshot.handles.map (·.handleValue) then
        (t.handles.lookup h).or (snapshot.handles.find? fun e => e.handleValue = h)
      else none := by
  have hs := Sweep.Found.visitAll hown snapshot.handles
  obtain ⟨_, hclosed⟩ := (hs.unseen_own hown).map_values order
  unfold compare
  dsimp only
  rw [UnorderedMap.lookup_foldl_erase, Sweep.visitAll_lookup_present]
  simp only [hclosed, hs.mem_unseen]
  by_cases hlisted : h ∈ snapshot.handles.map (·.handleValue)
  · rw [if_neg (fun hgone => hgone.2 hlisted), if_pos hlisted]
  · rw [if_neg hlisted]
    split
    · rfl
    · rename_i hkept
      have hnot : h ∉ t.handles := fun hmem => hkept ⟨hmem, hlisted⟩
      rw [AList.lookup_eq_none.mpr hnot, Option.none_or, find?_of_not_listed hlisted]

/-- The entries that a comparison reports closed were tracked before. -/
theorem lookup_of_mem_closed {t : HandlesTracker} (hown : t.handles.Own (·.handleValue))
    (hnone : t.closedHandles = []) {snapshot : HandleSnapshot} {order : IterationOrder}
    {e : HandleEntryInfo} (he : e ∈ (t.compare snapshot order).closedHandles) :
    t.handles.lookup e.handleValue = some e := by
  have hs := Sweep.Found.visitAll hown snapshot.handles
  unfold compare at he
  dsimp only at he
  rw [hnone, List.nil_append, UnorderedMap.mem_values] at he
  obtain ⟨h, hlookup⟩ := he
  have hvalue : e.handleValue = h := hs.unseen_own hown h e hlookup
  rw [hs.unseen_lookup] at hlookup
  split at hlookup
  · cases hlookup
  · rw [hvalue, hlookup]

/-- What a successful call that keeps the history finds under a handle value: nothing if
the value is not in the snapshot, else the entry tracked before, else the first one in
the snapshot. What it reports closed was tracked before. -/
theorem enumHandles_entries {t : HandlesTracker} (hown : t.handles.Own (·.handleValue))
    (hvalid : t.isValid = true) {c : HandleCall} (hc : c.Tracks) :
    (∀ h, (t.enumHandles c).1.handles.lookup h = if h ∈ c.values then
      (t.handles.lookup h).or (c.entries.find? fun e => e.handleValue = h) else none) ∧
    ∀ e ∈ (t.enumHandles c).1.closedHandles, t.handles.lookup e.handleValue = some e := by
  obtain ⟨snapshot, hsnapshot⟩ := Option.isSome_iff_exists.mp hc.succeeds
  have hentries : c.entries = snapshot.handles := by rw [HandleCall.entries, hsnapshot]
  have hvalues : c.values = snapshot.handles.map (·.handleValue) := by
    rw [HandleCall.values, hsnapshot]
  obtain ⟨t', hstep, ht'⟩ := enumHandles_tracks hvalid hc.keeps hc.alive hsnapshot
  rw [hstep, hentries, hvalues]
  split at ht'
  · subst ht'
    have hempty : ∀ h, t.handles.lookup h = none := by
      intro h
      have hholds : t.Holds t.handles.keys := ⟨hown, fun _ => AList.mem_keys⟩
      rw [AList.lookup_eq_none, AList.mem_keys, hholds.isEmpty_iff.mp ‹_›]
      exact List.not_mem_nil
    refine ⟨fun h => ?_, fun e he => absurd he List.not_mem_nil⟩
    rw [hempty, Option.none_or]
    refine (lookup_takeBaseline (t := t.cleared) hempty snapshot h).trans ?_
    split
    · rfl
    · exact find?_of_not_listed ‹_›
  · subst ht'
    exact ⟨lookup_compare (t := t.cleared) hown snapshot c.order,
      fun e => lookup_of_mem_closed (t := t.cleared) hown rfl⟩

/-- The tracked entries, each under its own handle value, are the given ones. -/
structure TracksEntries (t : HandlesTracker) (entries : List HandleEntryInfo) : Prop where
  /-- The process could be opened. -/
  isValid : t.isValid = true
  /-- Entries are stored under their own handle value. -/
  own : t.handles.Own (·.handleValue)
  /-- The entries. -/
  lookup_iff : ∀ e, t.handles.lookup e.handleValue = some e ↔ e ∈ entries

/-- What is stored under any value is stored under its own. -/
theorem exists_lookup_iff {t : HandlesTracker} (hown : t.handles.Own (·.handleValue))
    (e : HandleEntryInfo) :
    (∃ h, t.handles.lookup h = some e) ↔ t.handles.lookup e.handleValue = some e := by
  constructor
  · rintro ⟨h, hlookup⟩
    have hvalue : e.handleValue = h := hown h e hlookup
    rw [hvalue, hlookup]
  · exact fun hlookup => ⟨_, hlookup⟩

/-- **One call.** When the previous entries are tracked, the call follows the types
precisely when its snapshot keeps them. -/
theorem TracksEntries.enumHandles {t : HandlesTracker} {previous : List HandleEntryInfo}
    (ht : t.TracksEntries previous) {c : HandleCall} (hc : c.Tracks) :
    (t.enumHandles c).1.FollowsTypes previous c.entries ↔ TypesKept previous c.entries := by
  obtain ⟨hlookup, hclosed⟩ := enumHandles_entries ht.own ht.isValid hc
  have hholds : t.Holds t.handles.keys := ⟨ht.own, fun _ => AList.mem_keys⟩
  have hown := (hholds.enumHandles ht.isValid hc).2.1.own
  constructor
  · intro hfollows
    have hfound : ∀ e ∈ c.entries,
        (t.enumHandles c).1.handles.lookup e.handleValue = some e := fun e he =>
      (exists_lookup_iff hown e).mp ((hfollows.tracked e).mpr he)
    constructor
    · intro e he e' he' hvalue
      have heq := hfound e he
      rw [hvalue, hfound e' he', Option.some.injEq] at heq
      rw [heq]
    · intro e he e' he' hvalue
      have heq := hfound e' he'
      rw [hlookup, if_pos (HandleCall.mem_values.mpr ⟨e', he', rfl⟩), ← hvalue,
        (ht.lookup_iff e).mpr he, Option.some_or, Option.some.injEq] at heq
      rw [heq]
  · intro hkept
    refine ⟨fun e => ?_, fun e he => (ht.lookup_iff e).mp (hclosed e he)⟩
    rw [exists_lookup_iff hown, hlookup]
    constructor
    · intro hfound
      split at hfound
      · obtain ⟨e', he', hvalue⟩ := HandleCall.mem_values.mp ‹_›
        rcases Option.or_eq_some_iff.mp hfound with hold | ⟨_, hfirst⟩
        · have htype := hkept.kept e ((ht.lookup_iff e).mp hold) e' he' hvalue.symm
          rwa [HandleEntryInfo.eq_of hvalue.symm htype]
        · exact List.mem_of_find?_eq_some hfirst
      · cases hfound
    · intro he
      rw [if_pos (HandleCall.mem_values.mpr ⟨e, he, rfl⟩)]
      cases hold : t.handles.lookup e.handleValue with
      | some d =>
        have hvalue : d.handleValue = e.handleValue := ht.own _ d hold
        have hd : d ∈ previous := (ht.lookup_iff d).mp (hvalue ▸ hold)
        rw [Option.some_or, HandleEntryInfo.eq_of hvalue (hkept.kept d hd e he hvalue)]
      | none =>
        rw [Option.none_or]
        apply find?_of_single he
        exact fun d hd hvalue => HandleEntryInfo.eq_of hvalue (hkept.single d hd e he hvalue)

/-- A call that follows the types leaves the entries of its snapshot tracked. -/
theorem TracksEntries.of_followsTypes {t : HandlesTracker} {previous : List HandleEntryInfo}
    (ht : t.TracksEntries previous) {c : HandleCall} (hc : c.Tracks)
    (hfollows : (t.enumHandles c).1.FollowsTypes previous c.entries) :
    (t.enumHandles c).1.TracksEntries c.entries := by
  have hholds : t.Holds t.handles.keys := ⟨ht.own, fun _ => AList.mem_keys⟩
  obtain ⟨hvalid, hnext, _⟩ := hholds.enumHandles ht.isValid hc
  exact ⟨hvalid, hnext.own, fun e => (exists_lookup_iff hnext.own e).symm.trans
    (hfollows.tracked e)⟩

/-- A run that follows the types leaves the entries of its last snapshot tracked. -/
theorem run_tracksEntries {calls : List HandleCall} (hcalls : ∀ c ∈ calls, c.Tracks)
    (hfollows : AtEach (fun before c =>
      (run true (before ++ [c])).FollowsTypes (lastEntries before) c.entries) calls) :
    (run true calls).TracksEntries (lastEntries calls) := by
  induction calls using List.reverseRecOn with
  | nil =>
    refine ⟨rfl, (opened_holds true).own, fun e => ?_⟩
    exact iff_of_false (fun h => by simp [run, opened] at h) List.not_mem_nil
  | append_singleton calls c ih =>
    obtain ⟨hbefore, hlast⟩ := AtEach.concat_iff.mp hfollows
    obtain ⟨hcs, hc⟩ := List.forall_mem_append.mp hcalls
    have hentries : lastEntries (calls ++ [c]) = c.entries := by simp [lastEntries]
    rw [run_concat] at hlast
    rw [run_concat, hentries]
    exact (ih hcs hbefore).of_followsTypes (hc c (List.mem_singleton_self c)) hlast

/-- **When the tracked types are right.** In every run of successful calls that keep the
history, the tracked handles have the types of the current snapshot and the closed ones
those of the previous snapshot after every call precisely when each snapshot gives each
handle value one type, the one that it had in the snapshot before. -/
theorem run_followsTypes_iff (calls : List HandleCall) (hcalls : ∀ c ∈ calls, c.Tracks) :
    AtEach (fun before c =>
      (run true (before ++ [c])).FollowsTypes (lastEntries before) c.entries) calls ↔
      AtEach (fun before c => TypesKept (lastEntries before) c.entries) calls := by
  induction calls using List.reverseRecOn with
  | nil => exact iff_of_true AtEach.nil AtEach.nil
  | append_singleton calls c ih =>
    obtain ⟨hcs, hc⟩ := List.forall_mem_append.mp hcalls
    rw [AtEach.concat_iff, AtEach.concat_iff, ← ih hcs]
    refine and_congr_right fun hfollows => ?_
    rw [run_concat]
    exact (run_tracksEntries hcs hfollows).enumHandles (hc c (List.mem_singleton_self c))

/-- Handle 8 stays what it is while handle 4 is closed and handle 12 is opened. -/
theorem run_followsTypes_iff_two_calls :
    let c₁ := HandleCall.answered ⟨[⟨4, 1⟩, ⟨8, 2⟩], by decide⟩
    let c₂ := HandleCall.answered ⟨[⟨8, 2⟩, ⟨12, 1⟩], by decide⟩
    (run true [c₁, c₂]).FollowsTypes [⟨4, 1⟩, ⟨8, 2⟩] [⟨8, 2⟩, ⟨12, 1⟩] := by
  intro c₁ c₂
  have hcalls : ∀ c ∈ [c₁, c₂], c.Tracks := by
    intro c hc
    simp only [List.mem_cons, List.not_mem_nil, or_false] at hc
    rcases hc with rfl | rfl <;> exact ⟨rfl, rfl, rfl⟩
  have hkept : AtEach (fun before c => TypesKept (lastEntries before) c.entries) [c₁, c₂] := by
    rw [AtEach.pair_iff]
    exact ⟨⟨by decide, by decide⟩, ⟨by decide, by decide⟩⟩
  exact (run_followsTypes_iff [c₁, c₂] hcalls).mpr hkept [c₁] c₂ [] rfl

/-- Handle 4 is closed and opened again for an object of another type. The tracked entry
keeps the former type, and is later reported closed with it. -/
theorem reused_handle_keeps_type :
    let c₁ := HandleCall.answered ⟨[⟨4, 1⟩], by decide⟩
    let c₂ := HandleCall.answered ⟨[⟨4, 2⟩], by decide⟩
    let c₃ := HandleCall.answered ⟨[⟨8, 2⟩], by decide⟩
    (∀ c ∈ [c₁, c₂, c₃], c.Tracks) ∧
      ¬ (run true ([c₁] ++ [c₂])).FollowsTypes (lastEntries [c₁]) c₂.entries ∧
      ¬ (run true ([c₁, c₂] ++ [c₃])).FollowsTypes (lastEntries [c₁, c₂]) c₃.entries := by
  intro c₁ c₂ c₃
  refine ⟨fun c hc => ?_, fun h => ?_, fun h => ?_⟩
  · simp only [List.mem_cons, List.not_mem_nil, or_false] at hc
    rcases hc with rfl | rfl | rfl <;> exact ⟨rfl, rfl, rfl⟩
  · have hstale := (h.tracked ⟨4, 1⟩).mp ⟨4, rfl⟩
    exact absurd (congrArg (·.objectTypeIndex) (List.mem_singleton.mp hstale)) (by decide)
  · have hlisted : (run true [c₁, c₂, c₃]).closedHandles = [⟨4, 1⟩] := rfl
    have hstale := h.closed ⟨4, 1⟩ (hlisted ▸ List.mem_singleton_self _)
    exact absurd (congrArg (·.objectTypeIndex) (List.mem_singleton.mp hstale)) (by decide)

end HandlesTracker

end WinSys
