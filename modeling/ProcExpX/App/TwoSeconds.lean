import ProcExpX.App.GoneRows

/-!
# Two seconds

As long as the tick count has 32 bits and keys identify processes, the row of a process stays
for two seconds after an update has found that the process has gone, and goes with the next
purge loop.
-/

namespace ProcExpX

open Library WinSys

/-- There is one record under a key. -/
theorem ProcessesView.MarkedUntil.unique {v : ProcessesView} {k : ProcessOrThreadKey}
    {t t' : UInt64} (h : v.MarkedUntil k t) (h' : v.MarkedUntil k t') : t = t' := by
  obtain ⟨px, hpx, _, ht⟩ := h
  obtain ⟨px', hpx', _, ht'⟩ := h'
  obtain rfl : px = px' := Option.some.inj (hpx.symm.trans hpx')
  exact ht.symm.trans ht'

namespace Session

variable {host : Host} {s s' : Session}

/-- Steps that keep the rows keep marks. -/
theorem Quiet.marked (h : s.Quiet s') {k : ProcessOrThreadKey} {t : UInt64}
    (hmark : s.view.MarkedUntil k t) : s'.view.MarkedUntil k t := by
  obtain ⟨px, hlookup, hrest⟩ := hmark
  exact ⟨px, h.view.lookup_some hlookup, hrest⟩

namespace InStep

/-- The marks of the processes that have gone, and of no others. -/
theorem marked_iff (h : s.InStep host) {row : Ref ProcessInfo} (hrow : row ∈ s.view.processes) :
    (∃ t, s.view.MarkedUntil (s.view.key row) t) ↔ row ∉ s.view.pm.processes := by
  constructor
  · rintro ⟨t, px, hlookup, hmark, _⟩ hlisted
    rw [h.alive row hlisted px hlookup] at hmark
    cases hmark
  · intro hgone
    obtain ⟨px, hlookup, hmark⟩ := h.gone row hrow hgone
    exact ⟨_, px, hlookup, hmark, rfl⟩

/-- The keys of the rows stay. -/
theorem key_updateTable (h : s.InStep host) (f : Frame)
    (hkeys : KeysIdentify (s.updateTable host f).history.calls) {row : Ref ProcessInfo}
    (hrow : row ∈ s.view.processes) : (s.updateTable host f).view.key row = s.view.key row := by
  rcases updateTable_cases host s f with hquiet | ⟨s₁, hquiet, heq⟩
  · rw [hquiet.view.key_eq]
  · rw [heq, refresh_calls] at hkeys
    have henum := (h.quiet hquiet).enumerated f.refresh.world hkeys
    rw [heq, (Quiet.refresh host s₁ f.refresh).view.key_eq,
      ProcessesView.key_congr (takeRows_pm ..),
      henum.key_eq row (hquiet.view.perm.mem_iff.mpr hrow), hquiet.view.key_eq]

/-- An update leaves the marks of processes alone that had gone before. -/
theorem marked_updateTable (h : s.InStep host) (f : Frame)
    (hkeys : KeysIdentify (s.updateTable host f).history.calls) {row : Ref ProcessInfo}
    (hrow : row ∈ s.view.processes) (hgone : row ∉ s.view.pm.processes) {t : UInt64}
    (hmark : s.view.MarkedUntil (s.view.key row) t) :
    (s.updateTable host f).view.MarkedUntil (s.view.key row) t := by
  rcases updateTable_cases host s f with hquiet | ⟨s₁, hquiet, heq⟩
  · exact hquiet.marked hmark
  · rw [heq, refresh_calls] at hkeys
    have hbefore := h.quiet hquiet
    have henum := hbefore.enumerated f.refresh.world hkeys
    have hrow₁ := hquiet.view.perm.mem_iff.mpr hrow
    have hmark₁ := hquiet.marked hmark
    rw [← hquiet.view.key_eq] at hmark₁ ⊢
    rw [← hquiet.view.pm_eq] at hgone
    have hspared : (s₁.enumProcesses host f.refresh.world).view.key row ∉
        (s₁.enumProcesses host f.refresh.world).view.pm.terminatedProcesses.map
          (s₁.enumProcesses host f.refresh.world).view.key := by
      intro hmem
      obtain ⟨pi, hpi, hkey⟩ := List.mem_map.mp hmem
      have hlisted := ((henum.mem_terminated pi).mp hpi).1
      have hsame : pi = row := List.inj_on_of_nodup_map henum.follows_new.keys_nodup
        (List.mem_append_left _ (hbefore.listed hlisted)) (List.mem_append_left _ hrow₁) hkey
      exact hgone (hsame ▸ hlisted)
    have hmerged := merged_doUpdate host (s₁.enumProcesses host f.refresh.world)
      (hbefore.beside.congr_key henum.key_eq) henum.follows_new.keys_nodup
      fun pi hpi => hbefore.listed ((henum.mem_terminated pi).mp hpi).1
    have hlookup := hmerged.same _ (hbefore.apart henum hrow₁) hspared
    rw [henum.key_eq row hrow₁] at hlookup
    rw [heq]
    refine (Quiet.refresh host s₁ f.refresh).marked ?_
    rw [List.isEmpty_eq_false_iff.mpr (List.ne_nil_of_mem hrow₁)]
    obtain ⟨px, hpx, hrest⟩ := hmark₁
    exact ⟨px, hlookup.trans hpx, hrest⟩

end InStep

/-- When `Update` answers yes the clock has been read. -/
theorem updateRow_clock (host : Host) (s : Session) (pi : Ref ProcessInfo)
    (hgone : (s.updateRow host pi).2 = true) : (s.updateRow host pi).1.clock = s.clock.next := by
  have hmark := (updateRow_snd_iff host s pi).mp hgone
  unfold updateRow
  rw [ProcessesView.getProcessInfoEx_eq]
  show (ProcessInfoEx.update _ s.clock).2.2 = _
  unfold ProcessInfoEx.update
  rw [if_neg (by simp [hmark.1])]
  dsimp only
  split <;> rfl

/-- **The invariant of the purge loop.** The rows visited so far have marks that do not end
before the reading of their round, and the rows taken out had marks that did. -/
structure Purge.Timed (host : Host) (s : Session) (l : Purge) : Prop where
  /-- The view is in step. -/
  inStep : l.session.InStep host
  /-- The manager is the same. -/
  pm_eq : l.session.view.pm = s.view.pm
  /-- The clock goes on. -/
  later : s.clock.Later l.session.clock
  /-- No mark is made. -/
  mark : ∀ k t, l.session.view.MarkedUntil k t → s.view.MarkedUntil k t
  /-- The rows visited so far. -/
  visited : ∀ j < l.i, ∀ row, l.session.view.processes[j]? = some row →
    ∀ t, l.session.view.MarkedUntil (s.view.key row) t → ∃ m, s.clock.taken ≤ m ∧
      (s.clock.readings m).toUInt32.toNat ≤ t.toNat
  /-- The rows taken out. -/
  removed : ∀ row ∈ s.view.processes, row ∉ l.session.view.processes →
    ∃ t m, s.view.MarkedUntil (s.view.key row) t ∧ s.clock.taken ≤ m ∧
      m < l.session.clock.taken ∧ t.toNat < (s.clock.readings m).toUInt32.toNat

namespace Purge.Timed

variable {l : Purge} {pi : Ref ProcessInfo} (h : l.Timed host s)
include h

/-- What is over at a round is over by the reading of the round. -/
theorem expired_iff (t : UInt64) : l.session.clock.getTickCount.1.toUInt64 > t ↔
    t.toNat < (s.clock.readings l.session.clock.taken).toUInt32.toNat := by
  rw [Clock.getTickCount, h.later.readings_eq, gt_iff_lt, UInt64.lt_iff_toNat_lt,
    UInt32.toNat_toUInt64]

/-- **Taking a row out** keeps the invariant, since the highlight of the row is over. -/
theorem erases (filter : WString) (hpi : l.row = some pi)
    (hover : l.session.HighlightOver host pi) (he : l.Erases host (purgeRow host filter l) pi) :
    (purgeRow host filter l).Timed host s := by
  have hgone := (updateRow_snd_iff host l.session pi).mpr hover
  have hclock : (purgeRow host filter l).session.clock = l.session.clock.next := by
    rw [purgeRow_eq host filter l hpi, if_pos hgone]
    exact updateRow_clock host l.session pi hgone
  refine ⟨he.inStep h.inStep hpi, he.pm_eq.trans h.pm_eq, ?_, fun k t hmark =>
    h.mark k t (marked_of_purgeRow host filter l hmark), fun j hj row hrow t hmark => ?_,
    fun row hrow hout => ?_⟩
  · rw [hclock]
    exact h.later.trans (.next _)
  · rw [he.i_eq] at hj
    rw [he.processes_eq, List.getElem?_eraseIdx_of_lt hj] at hrow
    exact h.visited j hj row hrow t (marked_of_purgeRow host filter l hmark)
  · have htaken := h.later.taken_le
    rw [hclock]
    by_cases hthere : row ∈ l.session.view.processes
    · have hsame : row = pi := by
        by_contra hne
        exact hout ((he.mem_iff h.inStep hpi row).mpr ⟨hthere, hne⟩)
      have hmark := marked_of_infoEx host l.session.view hover.1
      have hkey := ProcessesView.key_congr h.pm_eq
      rw [hkey] at hmark
      refine ⟨_, l.session.clock.taken, h.mark _ _ ⟨_, hsame ▸ hmark, hover.1, rfl⟩, htaken,
        Nat.lt_succ_self _, (h.expired_iff _).mp hover.2⟩
    · obtain ⟨t, m, hmark, hm, hlast, hlt⟩ := h.removed row hrow hthere
      exact ⟨t, m, hmark, hm, hlast.trans (Nat.lt_succ_self _), hlt⟩

/-- **Keeping a row** keeps the invariant, since the highlight of the row is not over. -/
theorem keeps (filter : WString) (hpi : l.row = some pi)
    (hover : ¬ l.session.HighlightOver host pi)
    (hk : l.Keeps host (purgeRow host filter l) pi) : (purgeRow host filter l).Timed host s := by
  have hlater : l.session.clock.Later (purgeRow host filter l).session.clock := by
    have hupdate : l.session.clock.Later (l.session.updateRow host pi).1.clock := .update _ _
    rw [purgeRow_eq host filter l hpi]
    split
    · exact hupdate
    · split <;> exact hupdate
  refine ⟨hk.inStep h.inStep hpi, hk.pm_eq.trans h.pm_eq, h.later.trans hlater, fun k t hmark =>
    h.mark k t (marked_of_purgeRow host filter l hmark), fun j hj row hrow t hmark => ?_,
    fun row hrow hout => ?_⟩
  · rw [hk.i_eq] at hj
    rw [hk.processes_eq] at hrow
    have hbefore := marked_of_purgeRow host filter l hmark
    rcases Nat.lt_succ_iff_lt_or_eq.mp hj with hlt | rfl
    · exact h.visited j hlt row hrow t hbefore
    · obtain rfl : row = pi := Option.some.inj (hrow.symm.trans hpi)
      obtain ⟨px, hlookup, hterminated, ht⟩ := hbefore
      rw [← ProcessesView.key_congr h.pm_eq] at hlookup
      have hinfo : l.session.view.infoEx host row = px := by
        rw [ProcessesView.infoEx, hlookup, Option.getD_some]
      refine ⟨l.session.clock.taken, h.later.taken_le, Nat.le_of_not_lt fun hlt => hover ?_⟩
      refine ⟨hinfo ▸ hterminated, ?_⟩
      rw [ProcessInfoEx.Expired, hinfo, ht]
      exact (h.expired_iff t).mpr hlt
  · rw [hk.processes_eq] at hout
    obtain ⟨t, m, hmark, hm, hlast, hlt⟩ := h.removed row hrow hout
    exact ⟨t, m, hmark, hm, hlast.trans_le hlater.taken_le, hlt⟩

end Purge.Timed

/-- **The purge loop** goes by the marks. -/
theorem InStep.timed_purge (h : s.InStep host) :
    (s.purge host).Timed host s ∧
      (s.purge host).session.view.processes.length = (s.purge host).i := by
  refine ⟨purge_induct host s ⟨h, rfl, .refl _, fun _ _ hmark => hmark,
    fun j hj => absurd hj (Nat.not_lt_zero j), fun row hrow hout => absurd hrow hout⟩ ?_, ?_⟩
  · intro n _ pi hpi htimed
    rcases Purge.purgeRow_expiry host (s.view.filter host) _ hpi with ⟨hover, he⟩ | ⟨hover, hk⟩
    · exact htimed.erases _ hpi hover he
    · exact htimed.keeps _ hpi hover hk
  · exact (purge_rounds host s (P := fun _ => True) trivial (fun _ _ _ _ _ _ _ _ => trivial)
      fun _ _ _ _ _ _ _ _ => trivial).2

section Run

variable (host : Host) (readings : ℕ → UInt64)

/-- The update of a frame of a run finds that a process has gone, and a reading of the clock is
made between the start of the frame and the end of the update. -/
def FindsGone (frames : List Frame) (pi : Ref ProcessInfo) (n : ℕ) : Prop :=
  ∃ before f after, frames = before ++ f :: after ∧ f.tableOpen = true ∧
    pi ∈ (run host readings before).view.pm.processes ∧
    pi ∉ ((run host readings before).beforePurge host f).view.pm.processes ∧
    (run host readings before).clock.taken ≤ n ∧
    n < ((run host readings before).beforePurge host f).clock.taken

/-- What has been found stays found. -/
theorem FindsGone.concat {host : Host} {readings : ℕ → UInt64} {frames : List Frame}
    {pi : Ref ProcessInfo} {n : ℕ} (h : FindsGone host readings frames pi n) (f : Frame) :
    FindsGone host readings (frames ++ [f]) pi n := by
  obtain ⟨before, g, after, rfl, hrest⟩ := h
  exact ⟨before, g, after ++ [f], by simp, hrest⟩

/-- The row of a process that has gone is marked for two seconds from a reading that was made
when it was found. -/
def MarksFound (frames : List Frame) (s : Session) : Prop :=
  ∀ row ∈ s.view.processes, row ∉ s.view.pm.processes →
    ∃ n, FindsGone host readings frames row n ∧
      s.view.MarkedUntil (s.view.key row) (readings n + 2000)

variable {host readings}

/-- **The update of a frame** marks the processes that it finds gone. -/
theorem MarksFound.beforePurge {frames : List Frame} {f : Frame} (hopen : f.tableOpen = true)
    (hstep : (run host readings frames).InStep host)
    (hkeys : KeysIdentify ((run host readings frames).beforePurge host f).history.calls)
    (h : MarksFound host readings frames (run host readings frames)) :
    MarksFound host readings (frames ++ [f]) ((run host readings frames).beforePurge host f) := by
  have hbar := Quiet.buildToolBar (run host readings frames) f.toolBar
  have htable : ((run host readings frames).beforePurge host f).InStep host :=
    (hstep.quiet hbar).updateTable f hkeys
  intro row hrow hgone
  have hold : row ∈ (run host readings frames).view.processes := by
    refine hbar.view.perm.mem_iff.mp ?_
    rcases updateTable_cases host ((run host readings frames).buildToolBar f.toolBar) f with
      hquiet | ⟨s₁, hquiet, heq⟩
    · exact hquiet.view.perm.mem_iff.mp hrow
    · have hrefresh := Quiet.refresh host s₁ f.refresh
      rw [Session.beforePurge, heq, hrefresh.view.perm.mem_iff] at hrow
      rw [Session.beforePurge, heq, hrefresh.view.pm_eq, takeRows_pm] at hgone
      rw [Session.beforePurge, heq, refresh_calls] at hkeys
      have henum := ((hstep.quiet hbar).quiet hquiet).enumerated f.refresh.world hkeys
      rcases mem_takeRows host _ hrow with hbefore | hlisted | hnew
      · exact hquiet.view.perm.mem_iff.mp hbefore
      · exact absurd hlisted hgone
      · exact absurd ((henum.mem_new row).mp hnew).1 hgone
  have hkey : ((run host readings frames).beforePurge host f).view.key row =
      (run host readings frames).view.key row := by
    rw [← hbar.view.key_eq]
    exact (hstep.quiet hbar).key_updateTable f hkeys (hbar.view.perm.mem_iff.mpr hold)
  by_cases hlisted : row ∈ (run host readings frames).view.pm.processes
  · obtain ⟨t, hmark⟩ := (htable.marked_iff hrow).mpr hgone
    rcases (Stamps.beforePurge host (run host readings frames) f).mark _ t hmark with
      hbefore | ⟨n, hn, hlast, rfl⟩
    · rw [hkey] at hbefore
      exact absurd hlisted ((hstep.marked_iff hold).mp ⟨t, hbefore⟩)
    · rw [run_readings] at hmark
      exact ⟨n, ⟨frames, f, [], rfl, hopen, hlisted, hgone, hn, hlast⟩, hmark⟩
  · obtain ⟨n, hfound, hmark⟩ := h row hold hlisted
    refine ⟨n, hfound.concat f, ?_⟩
    rw [hkey]
    have hmarked := hbar.marked hmark
    rw [← hbar.view.key_eq] at hmarked ⊢
    refine (hstep.quiet hbar).marked_updateTable f hkeys (hbar.view.perm.mem_iff.mpr hold) ?_
      hmarked
    rw [hbar.view.pm_eq]
    exact hlisted

/-- **The purge loop** leaves the marks of the rows that stay. -/
theorem MarksFound.purge {frames : List Frame} (hstep : s.InStep host)
    (h : MarksFound host readings frames s) :
    MarksFound host readings frames (s.purge host).session := by
  obtain ⟨htimed, _⟩ := hstep.timed_purge
  intro row hrow hgone
  have hkey := ProcessesView.key_congr htimed.pm_eq
  obtain ⟨t, hmark⟩ := (htimed.inStep.marked_iff hrow).mpr hgone
  rw [htimed.pm_eq] at hgone
  have hbefore := htimed.mark _ t hmark
  have hold := (hstep.purge.2.1).sublist.mem hrow
  obtain ⟨n, hfound, hfirst⟩ := h row hold hgone
  rw [hkey] at hbefore
  obtain rfl := hbefore.unique hfirst
  exact ⟨n, hfound, hmark⟩

/-- A step that leaves rows and records alone keeps the invariant. -/
theorem MarksFound.quiet {frames : List Frame} (h : MarksFound host readings frames s)
    (hq : s.Quiet s') : MarksFound host readings frames s' := by
  intro row hrow hgone
  rw [hq.view.pm_eq] at hgone
  obtain ⟨n, hfound, hmark⟩ := h row (hq.view.perm.mem_iff.mp hrow) hgone
  rw [hq.view.key_eq]
  exact ⟨n, hfound, hq.marked hmark⟩

variable (host readings)

/-- **Every reachable view** has marked what it found gone. -/
theorem run_marksFound (frames : List Frame)
    (hkeys : KeysIdentify (run host readings frames).history.calls) :
    MarksFound host readings frames (run host readings frames) := by
  induction frames using List.reverseRecOn with
  | nil => exact fun row hrow => absurd hrow List.not_mem_nil
  | append_singleton frames f ih =>
    cases hopen : f.tableOpen with
    | true =>
      rw [run_concat_calls host readings frames hopen] at hkeys
      obtain ⟨more, hmore⟩ := beforePurge_calls host (run host readings frames) f
      have hbefore := (hmore ▸ hkeys).of_append
      have hstep := run_inStep host readings frames hbefore
      have hbar := hstep.quiet (Quiet.buildToolBar (run host readings frames) f.toolBar)
      rw [run_concat]
      exact ((ih hbefore).beforePurge hopen hstep hkeys).purge (hbar.updateTable f hkeys)
        |>.quiet (quiet_buildWindow host _ hopen)
    | false =>
      have hquiet := quiet_buildWindow_closed host (run host readings frames) hopen
      rw [run_concat, hquiet.calls_eq] at hkeys
      rw [run_concat]
      intro row hrow hgone
      obtain ⟨n, hfound, hmark⟩ := (ih hkeys).quiet hquiet row hrow hgone
      exact ⟨n, hfound.concat f, hmark⟩

/-- The row of a process that has gone is shown for two seconds, and no longer. -/
structure TwoSeconds (frames : List Frame) (f : Frame) : Prop where
  /-- A row that the purge loop leaves has been found gone within the last two seconds. -/
  shown : ∀ row ∈ ((run host readings frames).afterPurge host f).view.processes,
    row ∉ ((run host readings frames).afterPurge host f).view.pm.processes →
      ∃ n, FindsGone host readings (frames ++ [f]) row n ∧
        (readings ((run host readings frames).beforePurge host f).clock.taken).toNat ≤
          (readings n).toNat + 2000
  /-- A row that the purge loop takes out was found gone earlier than that. -/
  removed : ∀ row ∈ ((run host readings frames).beforePurge host f).view.processes,
    row ∉ ((run host readings frames).afterPurge host f).view.processes →
      ∃ n m, FindsGone host readings (frames ++ [f]) row n ∧
        ((run host readings frames).beforePurge host f).clock.taken ≤ m ∧
          m < ((run host readings frames).afterPurge host f).clock.taken ∧
            (readings n).toNat + 2000 < (readings m).toNat

/-- **Two seconds.** In every run in which keys identify processes, as long as the tick count
has 32 bits and does not run backwards, each purge loop takes out the rows of the processes that
an update found gone more than two seconds before, and leaves those found gone later. -/
theorem run_twoSeconds (hmono : Monotone fun n => (readings n).toNat)
    (hearly : ∀ n, (readings n).toNat < UInt32.size) (frames : List Frame) {f : Frame}
    (hopen : f.tableOpen = true)
    (hkeys : KeysIdentify (run host readings (frames ++ [f])).history.calls) :
    TwoSeconds host readings frames f := by
  rw [run_concat_calls host readings frames hopen] at hkeys
  obtain ⟨more, hmore⟩ := beforePurge_calls host (run host readings frames) f
  have hbefore := (hmore ▸ hkeys).of_append
  have hstep := run_inStep host readings frames hbefore
  have htable : ((run host readings frames).beforePurge host f).InStep host :=
    (hstep.quiet (Quiet.buildToolBar (run host readings frames) f.toolBar)).updateTable f hkeys
  have hfound := (run_marksFound host readings frames hbefore).beforePurge hopen hstep hkeys
  obtain ⟨htimed, hlength⟩ := htable.timed_purge
  have hclock : ((run host readings frames).beforePurge host f).clock.readings = readings :=
    (Stamps.beforePurge host _ f).later.readings_eq.trans (run_readings host readings frames)
  have hlow : ∀ m, (readings m).toUInt32.toNat = (readings m).toNat := by
    intro m
    rw [UInt64.toNat_toUInt32]
    exact Nat.mod_eq_of_lt (hearly m)
  have hend : ∀ n, (readings n + 2000).toNat = (readings n).toNat + 2000 := by
    intro n
    have hlt := hearly n
    rw [UInt64.toNat_add]
    exact Nat.mod_eq_of_lt (by
      have hsize : UInt32.size + 2000 < UInt64.size := by decide
      exact (Nat.add_lt_add_right hlt 2000).trans hsize)
  constructor
  · intro row hrow hgone
    obtain ⟨n, hfind, hmark⟩ := hfound.purge htable row hrow hgone
    obtain ⟨j, hj⟩ := List.getElem?_of_mem hrow
    obtain ⟨hlt, _⟩ := List.getElem?_eq_some_iff.mp hj
    rw [ProcessesView.key_congr htimed.pm_eq] at hmark
    obtain ⟨m, hm, hle⟩ := htimed.visited j (hlength ▸ hlt) row hj _ hmark
    rw [hclock, hlow, hend] at hle
    exact ⟨n, hfind, (hmono hm).trans hle⟩
  · intro row hrow hout
    obtain ⟨t, m, hmark, hm, hlast, hlt⟩ := htimed.removed row hrow hout
    obtain ⟨n, hfind, hfirst⟩ := hfound row hrow ((htable.marked_iff hrow).mp ⟨t, hmark⟩)
    obtain rfl := hmark.unique hfirst
    rw [hclock, hlow, hend] at hlt
    exact ⟨n, m, hfind, hm, hlast, hlt⟩

end Run

/-- The row of a process that ended stays in the frame that finds it gone, and the purge loop of
the next frame comes three seconds later. -/
theorem run_twoSeconds_three_seconds :
    let both := Frame.idle (Call.answered .enumProcesses 100 (.bare 1 8) [.bare 1 12]).toEnumWorld
    let one := Frame.idle (Call.answered .enumProcesses 200 (.bare 1 8) []).toEnumWorld
    let readings := fun n => UInt64.ofNat (1000 + 1000 * min n 10)
    let s := run .plain readings [both, one]
    (s.view.processes = [⟨0⟩, ⟨1⟩] ∧
      (s.afterPurge .plain { one with space := true }).view.processes = [⟨0⟩]) ∧
      TwoSeconds .plain readings [both, one] { one with space := true } := by
  intro both one readings s
  have hreading : ∀ n, (readings n).toNat = 1000 + 1000 * min n 10 := by
    intro n
    have hle : 1000 + 1000 * min n 10 ≤ 11000 := by omega
    exact UInt64.toNat_ofNat_of_lt' (lt_of_le_of_lt hle (by decide))
  have hmono : Monotone fun n => (readings n).toNat := by
    intro m n hmn
    dsimp only
    rw [hreading, hreading]
    omega
  have hearly : ∀ n, (readings n).toNat < UInt32.size := by
    intro n
    rw [hreading, UInt32.size]
    omega
  have hcalls : (run .plain readings ([both, one] ++
      [{ one with space := true }])).history.calls.map Call.rawKeys =
        [[⟨1, 8⟩, ⟨1, 12⟩], [⟨1, 8⟩]] := by decide +kernel
  exact ⟨by decide +kernel, run_twoSeconds .plain readings hmono hearly [both, one] rfl
    (.of_two hcalls (by decide) (by decide))⟩

end Session

end ProcExpX
