import ProcExpX.App.TwoSeconds

/-!
# Settled rows

Two seconds after an update all highlights of terminated processes are over. From the first
frame after that to the next update the table shows the last snapshot and nothing else,
whatever has happened before and whatever the user does meanwhile.
-/

namespace ProcExpX.Session

open Library WinSys

variable {host : Host} {s s' : Session}

/-- The rows show the last snapshot and nothing else. -/
structure Settled (s : Session) : Prop where
  /-- They are the processes of the manager. -/
  rows_perm : s.view.processes.Perm s.view.pm.processes
  /-- Their keys are those of the last snapshot. -/
  keys_perm : (s.view.processes.map s.view.key).Perm (lastRawKeys s.history.calls)
  /-- None of them is marked terminated. -/
  unmarked : ∀ row ∈ s.view.processes, ∀ t, ¬ s.view.MarkedUntil (s.view.key row) t

/-- A view in step is settled when all its rows are listed. -/
theorem InStep.settled (h : s.InStep host)
    (hlisted : ∀ row ∈ s.view.processes, row ∈ s.view.pm.processes) : s.Settled := by
  have hm := Impl.run_tracks host.env host.rawProcesses host.rawThreads s.history.calls
  rw [← h.pm_eq, heldKeys_eq_lastRawKeys h.unfiltered] at hm
  have hrows : s.view.processes.Perm s.view.pm.processes := by
    refine (List.perm_ext_iff_of_nodup h.follows.nodup hm.processes.all_nodup).mpr fun row => ?_
    exact ⟨hlisted row, h.listed⟩
  have hkeys : s.view.pm.processes.map s.view.key = lastRawKeys s.history.calls :=
    hm.processes.keys_eq
  refine ⟨hrows, hkeys ▸ hrows.map s.view.key, fun row hrow t hmark => ?_⟩
  exact (h.marked_iff hrow).mp ⟨t, hmark⟩ (hlisted row hrow)

/-- Without an enumeration the first part of a frame keeps the rows. -/
theorem quiet_beforePurge (host : Host) {s : Session} {f : Frame}
    (hcalls : (s.beforePurge host f).history.calls = s.history.calls) :
    s.Quiet (s.beforePurge host f) := by
  have hbar := Quiet.buildToolBar s f.toolBar
  rcases updateTable_cases host (s.buildToolBar f.toolBar) f with hquiet | ⟨s₁, hquiet, heq⟩
  · exact hbar.trans hquiet
  · rw [beforePurge, heq, refresh_calls, hquiet.calls_eq, hbar.calls_eq] at hcalls
    exact absurd hcalls (by simp)

/-- The calls of a frame are made before its purge loop. -/
theorem buildWindow_beforePurge_calls (host : Host) (s : Session) {f : Frame}
    (hopen : f.tableOpen = true) :
    (s.buildWindow host f).history.calls = (s.beforePurge host f).history.calls :=
  (quiet_buildWindow host s hopen).calls_eq.trans (purge_calls host _)

/-- A frame without an enumeration adds no row and makes no mark. -/
theorem buildWindow_unasked {f : Frame}
    (hcalls : (s.buildWindow host f).history.calls = s.history.calls) :
    (s.buildWindow host f).view.pm = s.view.pm ∧
      (∀ row ∈ (s.buildWindow host f).view.processes, row ∈ s.view.processes) ∧
      ∀ k t, (s.buildWindow host f).view.MarkedUntil k t → s.view.MarkedUntil k t := by
  cases hopen : f.tableOpen with
  | true =>
    rw [buildWindow_beforePurge_calls host s hopen] at hcalls
    have hbefore := quiet_beforePurge host hcalls
    have hafter := quiet_buildWindow host s hopen
    obtain ⟨hrows, htable⟩ := purge_table host (s.beforePurge host f)
    refine ⟨?_, fun row hrow => ?_, fun k t hmark => ?_⟩
    · have hpurged : (s.afterPurge host f).view.pm = (s.beforePurge host f).view.pm :=
        congrArg Table.pm htable
      rw [hafter.view.pm_eq, hpurged, hbefore.view.pm_eq]
    · exact hbefore.view.perm.mem_iff.mp (hrows.mem (hafter.view.perm.mem_iff.mp hrow))
    · exact marked_of_quiet hbefore (marked_of_purge host (marked_of_quiet hafter hmark))
  | false =>
    have hquiet := quiet_buildWindow_closed host s hopen
    exact ⟨hquiet.view.pm_eq, fun row hrow => hquiet.view.perm.mem_iff.mp hrow,
      fun k t hmark => marked_of_quiet hquiet hmark⟩

/-- The stamp of a frame is that of its update. -/
theorem buildWindow_tick (host : Host) (s : Session) {f : Frame} (hopen : f.tableOpen = true) :
    (s.buildWindow host f).view.tick = (s.beforePurge host f).view.tick := by
  obtain ⟨-, htable⟩ := purge_table host (s.beforePurge host f)
  have hpurged : (s.afterPurge host f).view.tick = (s.beforePurge host f).view.tick :=
    congrArg Table.tick htable
  have hsorted : ((s.afterPurge host f).sortIfDirty host f.specs).view.tick =
      (s.afterPurge host f).view.tick := by
    have htable := sortIfDirty_table host (s.afterPurge host f) f.specs
    cases hdirty : f.specs.filter (·.dirty) <;> rw [hdirty] at htable <;>
    exact congrArg Table.tick htable
  rw [buildWindow, buildTable, if_pos hopen]
  exact (SameTable.drawTable host f _).tick_eq.trans (hsorted.trans hpurged)

/-- The last update was made in the past, and no mark lasts longer than two seconds after it. -/
structure Timely (s : Session) : Prop where
  /-- The stamp is not after any later reading. -/
  tick_le : ∀ m, s.clock.taken ≤ m → s.view.tick.toNat ≤ (s.clock.readings m).toNat
  /-- The marks. -/
  mark_le : ∀ k t, s.view.MarkedUntil k t → t.toNat ≤ s.view.tick.toNat + 2000

/-- A later view with the same stamp and no new mark. -/
theorem Timely.later (h : s.Timely) (hlater : s.clock.Later s'.clock)
    (htick : s'.view.tick = s.view.tick)
    (hmarks : ∀ k t, s'.view.MarkedUntil k t → s.view.MarkedUntil k t) : s'.Timely := by
  constructor
  · intro m hm
    rw [htick, hlater.readings_eq]
    exact h.tick_le m (hlater.taken_le.trans hm)
  · intro k t hmark
    rw [htick]
    exact h.mark_le k t (hmarks k t hmark)

/-- The part of a frame after its update. -/
theorem stamps_afterUpdate (host : Host) (s : Session) {f : Frame} (hopen : f.tableOpen = true) :
    (s.beforePurge host f).Stamps (s.buildWindow host f) := by
  rw [buildWindow, buildTable, if_pos hopen]
  exact (Stamps.purge host _).trans (Stamps.drawTable host f _)

/-- **An update** stamps the time after it has made its marks. -/
theorem Timely.beforePurge (h : s.Timely) {p : Pace} (hkeeps : s.view.Keeps p) {f : Frame}
    (hopen : f.tableOpen = true) (hmono : Monotone fun n => (s.clock.readings n).toNat)
    (hasked : (s.beforePurge host f).history.calls ≠ s.history.calls) :
    (s.beforePurge host f).Timely := by
  have hadvances : s.Advances f p (s.beforePurge host f) := advances_updateTable hkeeps hopen
  have hdue : s.Due f p := by
    by_contra hidle
    have hcalls := hadvances.calls_eq
    rw [if_neg hidle, List.append_nil] at hcalls
    exact hasked hcalls
  have hbar := Quiet.buildToolBar s f.toolBar
  rcases updateTable_cases host (s.buildToolBar f.toolBar) f with hquiet | ⟨s₁, hquiet, heq⟩
  · exact absurd (hquiet.calls_eq.trans hbar.calls_eq) hasked
  have hstamps := Stamps.beforePurge host s f
  have hreadings := hstamps.later.readings_eq
  obtain ⟨clock, -, htick, hclock⟩ := (stamped_refresh host s₁ f.refresh).stamp
  rw [← heq] at htick hclock
  change (s.beforePurge host f).view.tick = _ at htick
  change (s.beforePurge host f).clock = _ at hclock
  have hsame : clock.readings = s.clock.readings := by
    rw [← hreadings, hclock]
    rfl
  have htaken : (s.beforePurge host f).clock.taken = clock.taken + 1 := by
    rw [hclock]
    rfl
  constructor
  · intro m hm
    rw [htick, hreadings, hsame]
    exact hmono (by omega)
  · intro k t hmark
    rcases hstamps.mark k t hmark with hold | ⟨n, -, hn, rfl⟩
    · obtain ⟨n, hn, -, hstamp⟩ := hadvances.stamped hdue
      have hbefore := h.mark_le k t hold
      have hlast := h.tick_le n hn.le
      rw [hstamp]
      omega
    · have hle : (s.clock.readings n).toNat ≤ (s.clock.readings clock.taken).toNat :=
        hmono (by omega)
      have hsum : (s.clock.readings n + 2000).toNat ≤ (s.clock.readings n).toNat + 2000 := by
        rw [UInt64.toNat_add]
        exact Nat.mod_le _ _
      rw [htick, hsame]
      omega

/-- **One frame.** -/
theorem Timely.buildWindow (h : s.Timely) {p : Pace} (hkeeps : s.view.Keeps p) (f : Frame)
    (hmono : Monotone fun n => (s.clock.readings n).toNat) : (s.buildWindow host f).Timely := by
  have hadvances : s.Advances f p (s.buildWindow host f) := advances_buildWindow hkeeps f
  by_cases hcalls : (s.buildWindow host f).history.calls = s.history.calls
  · have hidle : ¬ s.Due f p := by
      intro hdue
      have hasked := hadvances.calls_eq
      rw [if_pos hdue, hcalls] at hasked
      exact absurd hasked (by simp)
    obtain ⟨-, -, hmarks⟩ := buildWindow_unasked hcalls
    exact h.later hadvances.later (hadvances.idle hidle) hmarks
  · cases hopen : f.tableOpen with
    | true =>
      have hasked := hcalls
      rw [buildWindow_beforePurge_calls host s hopen] at hasked
      have hafter := stamps_afterUpdate host s hopen
      have hquiet := quiet_buildWindow host s hopen
      refine (h.beforePurge hkeeps hopen hmono hasked).later hafter.later
        (buildWindow_tick host s hopen) fun k t hmark => ?_
      exact marked_of_purge host (marked_of_quiet hquiet hmark)
    | false => exact absurd (quiet_buildWindow_closed host s hopen).calls_eq hcalls

/-- The purge loop of a frame without an enumeration takes out all rows that are not listed, if
the last update was made more than two seconds before. -/
theorem InStep.listed_afterPurge (hmono : Monotone fun n => (s.clock.readings n).toNat)
    (hearly : ∀ n, (s.clock.readings n).toNat < UInt32.size) (h : s.InStep host) (ht : s.Timely)
    {f : Frame} (hunasked : (s.beforePurge host f).history.calls = s.history.calls)
    (hlate : s.view.tick.toNat + 2000 < (s.clock.readings s.clock.taken).toNat) :
    ∀ row ∈ (s.afterPurge host f).view.processes,
      row ∈ (s.afterPurge host f).view.pm.processes := by
  intro row hrow
  have hquiet := quiet_beforePurge host hunasked
  have hbefore := h.quiet hquiet
  obtain ⟨htimed, hlength⟩ := hbefore.timed_purge
  have hlater := (Stamps.beforePurge host s f).later
  by_contra hgone
  obtain ⟨t, hmark⟩ := (htimed.inStep.marked_iff hrow).mpr hgone
  obtain ⟨j, hj⟩ := List.getElem?_of_mem hrow
  obtain ⟨hlt, _⟩ := List.getElem?_eq_some_iff.mp hj
  have hkey := ProcessesView.key_congr htimed.pm_eq
  rw [hkey] at hmark
  obtain ⟨m, hm, hle⟩ := htimed.visited j (hlength ▸ hlt) row hj t hmark
  have hold := ht.mark_le _ t (marked_of_quiet hquiet (htimed.mark _ t hmark))
  have hreading : (s.clock.readings m).toUInt32.toNat = (s.clock.readings m).toNat := by
    rw [UInt64.toNat_toUInt32]
    exact Nat.mod_eq_of_lt (hearly m)
  have hpast : (s.clock.readings s.clock.taken).toNat ≤ (s.clock.readings m).toNat :=
    hmono (hlater.taken_le.trans hm)
  rw [hlater.readings_eq, hreading] at hle
  omega

section Run

variable (host : Host) (readings : ℕ → UInt64)

/-- **Every reachable view** is timely if the clock does not run backwards. -/
theorem run_timely (hmono : Monotone fun n => (readings n).toNat) (frames : List Frame) :
    (run host readings frames).Timely := by
  induction frames using List.reverseRecOn with
  | nil =>
    refine ⟨fun m _ => Nat.zero_le _, ?_⟩
    rintro k t ⟨px, hlookup, -⟩
    cases hlookup
  | append_singleton frames f ih =>
    rw [run_concat]
    refine ih.buildWindow (run_keeps host readings frames) f ?_
    rw [run_readings]
    exact hmono

/-- The calls of a run are those of its beginning and some more. -/
theorem run_append_calls (before after : List Frame) :
    ∃ more, (run host readings (before ++ after)).history.calls =
      (run host readings before).history.calls ++ more := by
  induction after using List.reverseRecOn with
  | nil => exact ⟨[], by simp⟩
  | append_singleton after f ih =>
    obtain ⟨more, hmore⟩ := ih
    obtain ⟨last, hlast⟩ := buildWindow_calls host (run host readings (before ++ after)) f
    refine ⟨more ++ last, ?_⟩
    rw [← List.append_assoc, run_concat, hlast, hmore, List.append_assoc]

/-- Without an enumeration rows only go, and the manager stays as it is. -/
theorem run_unasked (before after : List Frame)
    (hcalls : (run host readings (before ++ after)).history.calls =
      (run host readings before).history.calls) :
    (run host readings (before ++ after)).view.pm = (run host readings before).view.pm ∧
      ∀ row ∈ (run host readings (before ++ after)).view.processes,
        row ∈ (run host readings before).view.processes := by
  induction after using List.reverseRecOn with
  | nil => simp
  | append_singleton after f ih =>
    obtain ⟨more, hmore⟩ := run_append_calls host readings before after
    obtain ⟨last, hlast⟩ := buildWindow_calls host (run host readings (before ++ after)) f
    rw [← List.append_assoc, run_concat] at hcalls ⊢
    have hnone : more = [] ∧ last = [] := by
      rw [hlast, hmore, List.append_assoc, List.append_right_eq_self] at hcalls
      exact List.append_eq_nil_iff.mp hcalls
    rw [hnone.1, List.append_nil] at hmore
    obtain ⟨hpm, hrows⟩ := ih hmore
    obtain ⟨hpm', hrows', -⟩ := buildWindow_unasked (hcalls.trans hmore.symm)
    exact ⟨hpm'.trans hpm, fun row hrow => hrows row (hrows' row hrow)⟩

/-- **Rows settle.** In every run in which keys identify processes and the clock behaves, once a
table has been built more than two seconds after the last update, the rows are the processes of
the last snapshot, each once, and this stays so until the next update, whatever has happened
before and whatever the user does meanwhile. -/
theorem run_settled (hmono : Monotone fun n => (readings n).toNat)
    (hearly : ∀ n, (readings n).toNat < UInt32.size) (before after : List Frame) {f : Frame}
    (hopen : f.tableOpen = true)
    (hkeys : KeysIdentify (run host readings (before ++ f :: after)).history.calls)
    (hunasked : (run host readings (before ++ f :: after)).history.calls =
      (run host readings before).history.calls)
    (hlate : (run host readings before).view.tick.toNat + 2000 <
      (readings (run host readings before).clock.taken).toNat) :
    (run host readings (before ++ f :: after)).Settled := by
  have hstep := run_inStep host readings _ hkeys
  rw [List.append_cons] at hstep hunasked ⊢
  obtain ⟨more, hmore⟩ := run_append_calls host readings (before ++ [f]) after
  obtain ⟨first, hfirst⟩ := run_append_calls host readings before [f]
  have hnone : first = [] ∧ more = [] := by
    rw [hmore, hfirst, List.append_assoc, List.append_right_eq_self] at hunasked
    exact List.append_eq_nil_iff.mp hunasked
  rw [hnone.1, List.append_nil, run_concat_calls host readings before hopen] at hfirst
  rw [hnone.2, List.append_nil] at hmore
  obtain ⟨hpm, hrows⟩ := run_unasked host readings (before ++ [f]) after hmore
  have hclock := run_readings host readings before
  have hbefore : (run host readings before).InStep host := by
    refine run_inStep host readings before ?_
    rw [List.append_cons, hunasked] at hkeys
    exact hkeys
  have hlisted : ∀ row ∈ ((run host readings before).afterPurge host f).view.processes,
      row ∈ ((run host readings before).afterPurge host f).view.pm.processes := by
    refine hbefore.listed_afterPurge ?_ ?_ (run_timely host readings hmono before) hfirst ?_
    · rwa [hclock]
    · rwa [hclock]
    · rwa [hclock]
  refine hstep.settled fun row hrow => ?_
  have hquiet := quiet_buildWindow host (run host readings before) hopen
  have hthen := hrows row hrow
  rw [run_concat, hquiet.view.perm.mem_iff] at hthen
  rw [hpm, run_concat, hquiet.view.pm_eq]
  exact hlisted row hthen

end Run

/-- A process ends and the view is paused before its row has gone. In the next frame the row goes,
and the table stays settled. -/
theorem run_settled_pause :
    let both := Frame.idle (Call.answered .enumProcesses 100 (.bare 1 8) [.bare 1 12]).toEnumWorld
    let one := Frame.idle (Call.answered .enumProcesses 200 (.bare 1 8) []).toEnumWorld
    let readings := fun n => UInt64.ofNat (if n < 2 then 1000 else if n < 6 then 2000 else 5000)
    (run .plain readings [both, one]).view.processes = [⟨0⟩, ⟨1⟩] ∧
      (run .plain readings ([both, one] ++ { one with space := true } :: [one])).Settled := by
  intro both one readings
  have hreading : ∀ n, (readings n).toNat =
      if n < 2 then 1000 else if n < 6 then 2000 else 5000 := by
    intro n
    refine UInt64.toNat_ofNat_of_lt' ?_
    split
    · decide
    · split <;> decide
  have hmono : Monotone fun n => (readings n).toNat := by
    intro m n hmn
    dsimp only
    rw [hreading, hreading]
    split_ifs <;> omega
  have hearly : ∀ n, (readings n).toNat < UInt32.size := by
    intro n
    rw [hreading, UInt32.size]
    split_ifs <;> omega
  have hcalls : (run .plain readings ([both, one] ++
      { one with space := true } :: [one])).history.calls.map Call.rawKeys =
        [[⟨1, 8⟩, ⟨1, 12⟩], [⟨1, 8⟩]] := by decide +kernel
  have hunasked : (run .plain readings ([both, one] ++
      { one with space := true } :: [one])).history.calls =
        (run .plain readings [both, one]).history.calls := by
    have hlength : (run .plain readings ([both, one] ++
        { one with space := true } :: [one])).history.calls.length =
          (run .plain readings [both, one]).history.calls.length := by decide +kernel
    obtain ⟨more, hmore⟩ := run_append_calls .plain readings [both, one]
      ({ one with space := true } :: [one])
    rw [hmore, List.length_append] at hlength
    have hnone : more = [] := List.eq_nil_of_length_eq_zero (by omega)
    rw [hmore, hnone, List.append_nil]
  exact ⟨by decide +kernel, run_settled .plain readings hmono hearly [both, one] [one] rfl
    (.of_two hcalls (by decide) (by decide)) hunasked (by decide +kernel)⟩

end ProcExpX.Session
