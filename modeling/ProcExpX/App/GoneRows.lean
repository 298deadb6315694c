import ProcExpX.App.Pace
import ProcExpX.App.RecordPointers
import ProcExpX.Library.Career

/-!
# How long the rows of terminated processes stay

A terminated process is marked for two seconds, and the purge loop after that takes its row
out. It compares a 32-bit tick count with a time of 64 bits, so that this works for seven weeks
after the system has been started, and then never again.
-/

namespace ProcExpX

open Library WinSys

/-- The mark of a new process lasts for two seconds from the reading that `New` makes. -/
theorem ProcessInfoEx.expiryTime_new (px : ProcessInfoEx) (clock : Clock) :
    (px.new 2000 clock).1.expiryTime = clock.readings clock.taken + 2000 := by
  have hms : (2000 : UInt32).toUInt64 = 2000 := by decide
  rw [← hms]
  rfl

/-- The mark of a terminated process lasts for two seconds from the reading that `Term` makes. -/
theorem ProcessInfoEx.expiryTime_term (px : ProcessInfoEx) (clock : Clock) :
    (px.term 2000 clock).1.expiryTime = clock.readings clock.taken + 2000 := by
  have hms : (2000 : UInt32).toUInt64 = 2000 := by decide
  rw [← hms]
  rfl

/-- The record under a key is marked terminated until a time. -/
def ProcessesView.MarkedUntil (v : ProcessesView) (k : ProcessOrThreadKey) (t : UInt64) : Prop :=
  ∃ px, v.processesEx.lookup k = some px ∧ px.isTerminated = true ∧ px.expiryTime = t

namespace Session

/-- The clock goes on, and a mark is one that was there or lasts for two seconds from a reading
made meanwhile. -/
structure Stamps (s s' : Session) : Prop where
  /-- The clock. -/
  later : s.clock.Later s'.clock
  /-- The marks. -/
  mark : ∀ k t, s'.view.MarkedUntil k t → s.view.MarkedUntil k t ∨
    ∃ n, s.clock.taken ≤ n ∧ n < s'.clock.taken ∧ t = s.clock.readings n + 2000

/-- What is marked terminated after a round of the purge loop was marked so before, until the same
time. -/
theorem marked_of_purgeRow (host : Host) (filter : WString) (l : Purge) {k : ProcessOrThreadKey}
    {t : UInt64} (h : (purgeRow host filter l).session.view.MarkedUntil k t) :
    l.session.view.MarkedUntil k t := by
  obtain ⟨px, hlookup, hterminated, ht⟩ := h
  cases hpi : l.session.view.processes[l.i]? with
  | none =>
    rw [purgeRow, hpi] at hlookup
    exact ⟨px, hlookup, hterminated, ht⟩
  | some pi =>
    rcases l.purgeRow_answer host filter hpi with ⟨_, he⟩ | ⟨hanswer, hk⟩
    · rw [he.lookup_eq] at hlookup
      split at hlookup
      · cases hlookup
      · exact ⟨px, hlookup, hterminated, ht⟩
    · by_cases hkey : k = l.session.view.key pi
      · subst hkey
        obtain ⟨px₁, _, hmark, hwritten⟩ := hk.lookup_eq
        obtain ⟨px₂, hpx₂, hexpiry⟩ := l.purgeRow_expiryTime host filter hpi hanswer
        obtain rfl : px = px₂ := Option.some.inj (hlookup.symm.trans hpx₂)
        rw [hwritten, if_pos rfl, Option.some.injEq] at hlookup
        rw [← hlookup, hmark] at hterminated
        exact ⟨_, marked_of_infoEx host _ hterminated, hterminated, hexpiry.symm.trans ht⟩
      · rw [l.purgeRow_lookup_of_ne host filter hpi hkey] at hlookup
        exact ⟨px, hlookup, hterminated, ht⟩

/-- What is marked terminated after the purge loop was marked so before, until the same time. -/
theorem marked_of_purge (host : Host) {s : Session} {k : ProcessOrThreadKey} {t : UInt64}
    (h : (s.purge host).session.view.MarkedUntil k t) : s.view.MarkedUntil k t :=
  purge_keeps (R := fun s s' => s'.view.MarkedUntil k t → s.view.MarkedUntil k t) (fun _ h => h)
    (fun _ _ _ h h' hlast => h (h' hlast)) (fun filter l => marked_of_purgeRow host filter l) s h

/-- What is marked terminated after a step that keeps the rows was marked so before, since the
records it makes are unmarked. -/
theorem marked_of_quiet {s s' : Session} (h : s.Quiet s') {k : ProcessOrThreadKey} {t : UInt64}
    (hmark : s'.view.MarkedUntil k t) : s.view.MarkedUntil k t := by
  obtain ⟨px, hlookup, hterminated, ht⟩ := hmark
  rcases h.view.records k with hsame | ⟨_, px', hpx', _, _, hunmarked⟩
  · exact ⟨px, hsame ▸ hlookup, hterminated, ht⟩
  · obtain rfl : px = px' := Option.some.inj (hlookup.symm.trans hpx')
    exact absurd (hterminated.symm.trans hunmarked) (by decide)

namespace Stamps

variable {host : Host} {s s' s'' : Session}

/-- Doing nothing makes no mark. -/
theorem refl (s : Session) : s.Stamps s := ⟨.refl _, fun _ _ h => Or.inl h⟩

/-- Two steps in turn that make marks of two seconds only make up one. -/
theorem trans (h : s.Stamps s') (h' : s'.Stamps s'') : s.Stamps s'' := by
  refine ⟨h.later.trans h'.later, fun k t hmark => ?_⟩
  have hfirst := h.later.taken_le
  have hsecond := h'.later.taken_le
  rcases h'.mark k t hmark with hbefore | ⟨n, hn, hlast, ht⟩
  · rcases h.mark k t hbefore with hold | ⟨n, hn, hlast, ht⟩
    · exact Or.inl hold
    · exact Or.inr ⟨n, hn, by omega, ht⟩
  · rw [h.later.readings_eq] at ht
    exact Or.inr ⟨n, by omega, hlast, ht⟩

/-- A loop makes marks of two seconds only if each of its rounds does. -/
theorem foldl {β : Type*} {f : Session → β → Session} (hf : ∀ (s : Session) b, s.Stamps (f s b))
    (bs : List β) (s : Session) : s.Stamps (bs.foldl f s) := by
  induction bs generalizing s with
  | nil => exact refl s
  | cons b bs ih => exact (hf s b).trans (ih (f s b))

/-- A step that keeps the rows makes no mark, whatever it reads of the clock. -/
theorem quiet (h : s.Quiet s') (hlater : s.clock.Later s'.clock) : s.Stamps s' :=
  ⟨hlater, fun _ _ hmark => Or.inl (marked_of_quiet h hmark)⟩

/-- A step that writes one record, to expire two seconds after the reading it makes, makes a mark
of two seconds at most. -/
theorem stamp {k₀ : ProcessOrThreadKey} {px₀ : ProcessInfoEx} (hclock : s'.clock = s.clock.next)
    (hexpiry : px₀.expiryTime = s.clock.readings s.clock.taken + 2000)
    (hlookup : ∀ k, s'.view.processesEx.lookup k =
      if k = k₀ then some px₀ else s.view.processesEx.lookup k) : s.Stamps s' := by
  refine ⟨hclock ▸ .next _, fun k t => ?_⟩
  rintro ⟨px, hpx, hmark, ht⟩
  rw [hlookup] at hpx
  by_cases hk : k = k₀
  · rw [if_pos hk, Option.some.injEq] at hpx
    subst hpx
    refine Or.inr ⟨s.clock.taken, le_rfl, ?_, ht.symm.trans hexpiry⟩
    rw [hclock]
    exact Nat.lt_succ_self _
  · rw [if_neg hk] at hpx
    exact Or.inl ⟨px, hpx, hmark, ht⟩

/-- The first loop body of `DoUpdate` makes marks of two seconds only. -/
theorem addNew (host : Host) (s : Session) (pi : Ref ProcessInfo) :
    s.Stamps (s.addNew host pi) := by
  let v := { s.view with processes := s.view.processes ++ [pi] }
  refine stamp ?_ ?_ (v.lookup_set_getProcessInfoEx host pi
    ((v.getProcessInfoEx host pi).1.new 2000 s.clock).1)
  · rfl
  · exact ProcessInfoEx.expiryTime_new _ s.clock

/-- The second loop body of `DoUpdate` marks a record terminated for two seconds. -/
theorem markTerminated (host : Host) (s : Session) (pi : Ref ProcessInfo) :
    s.Stamps (s.markTerminated host pi) := by
  refine stamp ?_ ?_ (s.view.lookup_set_getProcessInfoEx host pi
    ((s.view.getProcessInfoEx host pi).1.term 2000 s.clock).1)
  · rfl
  · exact ProcessInfoEx.expiryTime_term _ s.clock

/-- Taking over the rows of the manager makes marks of two seconds only. -/
theorem takeRows (host : Host) (s : Session) (empty : Bool) :
    s.Stamps (s.takeRows host empty) := by
  cases empty with
  | true => exact ⟨.refl _, fun _ _ h => Or.inl h⟩
  | false => exact (foldl (addNew host) _ s).trans (foldl (markTerminated host) _ _)

/-- **An update** makes marks of two seconds only. -/
theorem refresh (host : Host) (s : Session) (r : Refresh) : s.Stamps (s.refresh host r) := by
  have hcalled : s.Stamps (s.enumProcesses host r.world) := ⟨.refl _, fun _ _ h => Or.inl h⟩
  obtain ⟨clock, hlater, -, hnext⟩ := (stamped_refresh host s r).stamp
  have htaken := takeRows host (s.enumProcesses host r.world) s.view.processes.isEmpty
  have hclock : (((s.enumProcesses host r.world).takeRows host
      s.view.processes.isEmpty).sortAgain host r).clock =
        ((s.enumProcesses host r.world).takeRows host s.view.processes.isEmpty).clock := by
    unfold sortAgain
    split <;> rfl
  have hrest := quiet (Quiet.refresh host s r) (hclock ▸ .next _)
  exact (hcalled.trans htaken).trans hrest

/-- `BuildToolBar` makes no mark and does not read the clock. -/
theorem buildToolBar (s : Session) (t : ToolBar) : s.Stamps (s.buildToolBar t) := by
  refine quiet (.buildToolBar s t) ?_
  have hclock : (s.buildToolBar t).clock = ((s.editFilter t).killButton t).clock := by
    unfold Session.buildToolBar intervalMenu
    split <;> rfl
  rw [hclock, (SameTable.killButton s t).clock_eq]
  exact .refl _

/-- Whether an update is due or not, marks of two seconds only are made. -/
theorem refreshIfDue (host : Host) (s : Session) (r : Refresh) :
    s.Stamps (s.refreshIfDue host r) := by
  have hread : s.Stamps { s with clock := s.clock.getTickCount64.2 } :=
    ⟨.next _, fun _ _ h => Or.inl h⟩
  unfold Session.refreshIfDue
  dsimp only
  split
  · split
    · exact hread.trans (refresh host _ r)
    · exact hread
  · exact refl s

/-- `BuildTable` makes marks of two seconds only, up to the purge loop. -/
theorem updateTable (host : Host) (s : Session) (f : Frame) :
    s.Stamps (s.updateTable host f) := by
  have hspace : s.Stamps (if f.space then s.onView ProcessesView.togglePause else s) := by
    refine quiet (.ite fun _ => .togglePause s) ?_
    split <;> exact .refl _
  exact hspace.trans (refreshIfDue host _ f.refresh)

/-- **The purge loop** makes no mark, however often it reads the clock. -/
theorem purge (host : Host) (s : Session) : s.Stamps (s.purge host).session :=
  ⟨purge_later host s, fun _ _ hmark => Or.inl (marked_of_purge host hmark)⟩

/-- The end of a frame makes no mark and does not read the clock. -/
theorem drawTable (host : Host) (f : Frame) (l : Purge) :
    l.session.Stamps (drawTable host f l) := by
  refine quiet (.drawTable host f l) ?_
  have hclock : (l.session.sortIfDirty host f.specs).clock = l.session.clock := by
    unfold sortIfDirty
    split
    · split <;> rfl
    · rfl
  rw [(SameTable.drawTable host f l).clock_eq, hclock]
  exact .refl _

/-- The first part of a frame makes marks of two seconds only, up to the purge loop. -/
theorem beforePurge (host : Host) (s : Session) (f : Frame) : s.Stamps (s.beforePurge host f) :=
  (buildToolBar s f.toolBar).trans (updateTable host _ f)

/-- **One frame** makes marks of two seconds only. -/
theorem buildWindow (host : Host) (s : Session) (f : Frame) :
    s.Stamps (s.buildWindow host f) := by
  unfold Session.buildWindow buildTable
  split
  · exact ((beforePurge host s f).trans (purge host _)).trans (drawTable host f _)
  · exact buildToolBar s f.toolBar

/-- **Some frames** at the end of a run make marks of two seconds only. -/
theorem run (host : Host) (readings : ℕ → UInt64) (before after : List Frame) :
    (Session.run host readings before).Stamps (Session.run host readings (before ++ after)) := by
  unfold Session.run
  rw [List.foldl_append]
  exact foldl (buildWindow host) after _

end Stamps

/-- The clock of a run has the readings that the run was started with. -/
theorem run_readings (host : Host) (readings : ℕ → UInt64) (frames : List Frame) :
    (run host readings frames).clock.readings = readings :=
  (Stamps.run host readings [] frames).later.readings_eq

/-- In every run a mark lasts for two seconds from a reading of the clock. -/
theorem run_mark (host : Host) (readings : ℕ → UInt64) (frames : List Frame)
    {k : ProcessOrThreadKey} {t : UInt64} (h : (run host readings frames).view.MarkedUntil k t) :
    ∃ n < (run host readings frames).clock.taken, t = readings n + 2000 := by
  rcases (Stamps.run host readings [] frames).mark k t h with ⟨px, hlookup, _⟩ | ⟨n, _, hn, ht⟩
  · cases hlookup
  · exact ⟨n, hn, ht⟩

section SevenWeeks

variable {host : Host} {s s' : Session}

/-- No mark ends before the tick count has passed 32 bits. -/
def MarksLate (s : Session) : Prop := ∀ k t, s.view.MarkedUntil k t → UInt32.size ≤ t.toNat

/-- A tick count of 32 bits is never after the end of such a mark. -/
theorem MarksLate.not_highlightOver (h : s.MarksLate) (pi : Ref ProcessInfo) :
    ¬ s.HighlightOver host pi := by
  rintro ⟨hmark, hexpired⟩
  have hlate := h _ _ ⟨_, marked_of_infoEx host s.view hmark, hmark, rfl⟩
  have htick : s.clock.getTickCount.1.toNat < UInt32.size := UInt32.toNat_lt _
  have hlt := UInt64.lt_iff_toNat_lt.mp hexpired
  rw [UInt32.toNat_toUInt64] at hlt
  omega

/-- The purge loop takes no row out then. -/
theorem MarksLate.purge (h : s.MarksLate) :
    (s.purge host).session.view.processes = s.view.processes := by
  refine (purge_induct host s
    (P := fun l => l.session.MarksLate ∧ l.session.view.processes = s.view.processes)
    ⟨h, rfl⟩ fun n _ pi hpi hl => ?_).2
  obtain ⟨hlate, hrows⟩ := hl
  refine ⟨fun k t hmark => hlate k t (marked_of_purgeRow host _ _ hmark), ?_⟩
  rcases Purge.purgeRow_expiry host (s.view.filter host) _ hpi with ⟨hover, _⟩ | ⟨_, hk⟩
  · exact absurd hover (hlate.not_highlightOver pi)
  · rw [hk.processes_eq, hrows]

/-- The rows are all process objects that there have been. -/
structure RowsAll (s : Session) : Prop where
  /-- There is one row for an object. -/
  nodup : s.view.processes.Nodup
  /-- Every object that has been handed out has a row. -/
  mem_iff : ∀ pi, pi ∈ s.view.processes ↔ s.view.pm.processHeap.Live pi

/-- A step that keeps the rows leaves all objects with a row each. -/
theorem RowsAll.quiet (h : s.RowsAll) (hq : s.Quiet s') : s'.RowsAll where
  nodup := hq.view.perm.nodup_iff.mpr h.nodup
  mem_iff pi := by
    rw [hq.view.perm.mem_iff, hq.view.pm_eq]
    exact h.mem_iff pi

/-- **An update** appends a row for each new object. -/
theorem RowsAll.takeRows (h : s.RowsAll) (hdisplays : s.Displays host) (world : EnumWorld)
    (honce : ∀ c ∈ s.history.calls ++ [enumCall world], c.rawKeys.Nodup) :
    ((s.enumProcesses host world).takeRows host s.view.processes.isEmpty).RowsAll := by
  have hlist := relisted_enumProcesses world hdisplays.pm_eq hdisplays.unfiltered honce
  have hm := Impl.run_tracks host.env host.rawProcesses host.rawThreads s.history.calls
  rw [← hdisplays.pm_eq, heldKeys_eq_lastRawKeys hdisplays.unfiltered] at hm
  have hks := lastRawKeys_nodup fun c hc => honce c (List.mem_append_left _ hc)
  obtain ⟨recs, thr, hrebuilt⟩ := Impl.step_rebuilt host.env hm.keyed (enumCall world)
  have hlive := ((hrebuilt.processSide hm.keyed).turnover hm.processes hks).live_iff
  cases hempty : s.view.processes.isEmpty with
  | true =>
    refine ⟨hlist.all_nodup, fun pi => ?_⟩
    have hdead : ¬ s.view.pm.processHeap.Live pi := by
      rw [← h.mem_iff, List.isEmpty_iff.mp hempty]
      exact List.not_mem_nil
    have hnew := (hlist.mem_new pi).trans (and_iff_left hdead)
    exact hnew.symm.trans ((hlive pi).trans (or_iff_right hdead)).symm
  | false =>
    have hrows := doUpdate_processes host (s.enumProcesses host world)
    have hpm := doUpdate_pm host (s.enumProcesses host world)
    constructor
    · show ((s.enumProcesses host world).doUpdate host).view.processes.Nodup
      rw [hrows]
      refine h.nodup.append ?_ fun pi hrow hadded => ?_
      · rw [hlist.new_eq]
        exact hlist.all_nodup.filter _
      · exact ((hlist.mem_new pi).mp hadded).2 ((h.mem_iff pi).mp hrow)
    · intro pi
      show pi ∈ ((s.enumProcesses host world).doUpdate host).view.processes ↔
        ((s.enumProcesses host world).doUpdate host).view.pm.processHeap.Live pi
      rw [hrows, hpm, List.mem_append]
      exact (or_congr_left (h.mem_iff pi)).trans (hlive pi).symm

/-- **Before the purge loop** all objects have a row each, whether an update was due or not. -/
theorem RowsAll.updateTable (h : s.RowsAll) (hdisplays : s.Displays host) (f : Frame)
    (honce : ∀ c ∈ (s.updateTable host f).history.calls, c.rawKeys.Nodup) :
    (s.updateTable host f).RowsAll := by
  rcases updateTable_cases host s f with hquiet | ⟨s₁, hquiet, heq⟩
  · exact h.quiet hquiet
  · rw [heq, refresh_calls] at honce
    rw [heq]
    exact ((h.quiet hquiet).takeRows (hdisplays.quiet hquiet) f.refresh.world honce).quiet
      (.refresh host s₁ f.refresh)

/-- **After seven weeks no row goes.** In every run after the tick count has passed 32 bits,
whatever ends, fails or comes back, the rows are all process objects that there have ever been,
each once. -/
theorem run_rowsAll (host : Host) (readings : ℕ → UInt64)
    (hlate : ∀ n, UInt32.size ≤ (readings n + 2000).toNat) (frames : List Frame)
    (honce : ∀ c ∈ (run host readings frames).history.calls, c.rawKeys.Nodup) :
    (run host readings frames).RowsAll := by
  induction frames using List.reverseRecOn with
  | nil =>
    refine ⟨List.nodup_nil, fun pi => ?_⟩
    exact iff_of_false List.not_mem_nil (Nat.not_lt_zero _)
  | append_singleton frames f ih =>
    rw [run_concat] at honce ⊢
    obtain ⟨more, hmore⟩ := buildWindow_calls host (run host readings frames) f
    have hbefore : ∀ c ∈ (run host readings frames).history.calls, c.rawKeys.Nodup :=
      fun c hc => honce c (hmore ▸ List.mem_append_left _ hc)
    have hrows := ih hbefore
    cases hopen : f.tableOpen with
    | false => exact hrows.quiet (quiet_buildWindow_closed host _ hopen)
    | true =>
      have hquiet := quiet_buildWindow host (run host readings frames) hopen
      have hbar := Quiet.buildToolBar (run host readings frames) f.toolBar
      rw [hquiet.calls_eq, afterPurge, purge_calls] at honce
      have htable : ((run host readings frames).beforePurge host f).RowsAll :=
        (hrows.quiet hbar).updateTable ((run_displays host readings frames hbefore).quiet hbar) f
          honce
      have hmarks : ((run host readings frames).beforePurge host f).MarksLate := by
        intro k t hmark
        rcases (Stamps.beforePurge host _ f).mark k t hmark with hold | ⟨n, _, _, rfl⟩
        · obtain ⟨n, _, rfl⟩ := run_mark host readings frames hold
          exact hlate n
        · rw [run_readings]
          exact hlate n
      have hpm : ((run host readings frames).afterPurge host f).view.pm =
          ((run host readings frames).beforePurge host f).view.pm :=
        congrArg Table.pm (purge_table host _).2
      refine RowsAll.quiet ⟨?_, fun pi => ?_⟩ hquiet
      · rw [afterPurge, hmarks.purge]
        exact htable.nodup
      · rw [hpm, afterPurge, hmarks.purge]
        exact htable.mem_iff pi

end SevenWeeks

/-- A process that ended ten seconds ago still has a row. -/
theorem run_rowsAll_ten_seconds :
    let both := Frame.idle (Call.answered .enumProcesses 100 (.bare 1 8) [.bare 1 12]).toEnumWorld
    let one := Frame.idle (Call.answered .enumProcesses 200 (.bare 1 8) []).toEnumWorld
    let readings := fun n => UInt64.ofNat (UInt32.size + 5000 * min n 20)
    let s := run .plain readings [both, one, one]
    (s.view.pm.processes = [⟨0⟩] ∧ s.view.processes = [⟨0⟩, ⟨1⟩]) ∧ s.RowsAll := by
  intro both one readings s
  have hlate : ∀ n, UInt32.size ≤ (readings n + 2000).toNat := by
    intro n
    have hlt : UInt32.size + 5000 * min n 20 + 2000 < 2 ^ 64 := by
      simp only [UInt32.size]
      omega
    have hsum : readings n + 2000 = UInt64.ofNat (UInt32.size + 5000 * min n 20 + 2000) := by
      rw [UInt64.ofNat_add]
      rfl
    rw [hsum, UInt64.toNat_ofNat_of_lt' hlt]
    omega
  exact ⟨by decide +kernel,
    run_rowsAll .plain readings hlate _ (by decide +kernel)⟩

end Session

end ProcExpX
