import ProcExpX.App.RowsExact
import ProcExpX.App.TableSteps

/-!
# The pace of the updates

The interval between updates is chosen in a combo box and switched off and on again with
the space bar. The two members that hold it implement a dial with a pause: whatever
`_oldInterval` holds at first, it is never read before it is written. The dial limits how
often the system is asked.
-/

namespace ProcExpX

open Library WinSys

/-- The entries of the combo box, as `BuildToolBar` lists them. -/
def intervals : List (String × Int32) :=
  [("500 msec", 500), ("1 Second", 1000), ("2 Seconds", 2000), ("5 Seconds", 5000), ("Paused", 0)]

/-- The text that the combo box shows: that of the first entry with the interval in use. If
there were none, `current` would never be assigned. -/
def ProcessesView.comboText (v : ProcessesView) : Option String :=
  (intervals.find? fun entry => entry.2 = v.updateInterval).map Prod.fst

/-- A dial with a pause. -/
structure Pace where
  /-- The interval that was chosen last. -/
  interval : Int32
  /-- It is one of those that the combo box offers. -/
  offered : interval ∈ ([500, 1000, 2000, 5000] : List Int32)
  /-- Whether the dial is paused. -/
  paused : Bool

namespace Pace

/-- One second, as the view starts. -/
def initial : Pace where
  interval := 1000
  offered := by decide
  paused := false

/-- Pause the dial, or go on with the same interval. -/
def toggle (p : Pace) : Pace := { p with paused := !p.paused }

/-- An entry of the combo box: to choose an interval ends a pause. -/
def choose (p : Pace) : IntervalItem → Pace
  | .msec500 => ⟨500, by decide, false⟩
  | .second1 => ⟨1000, by decide, false⟩
  | .seconds2 => ⟨2000, by decide, false⟩
  | .seconds5 => ⟨5000, by decide, false⟩
  | .paused => p.toggle

/-- The combo box and then the space bar, which only works while the table is built. -/
def frame (p : Pace) (f : Frame) : Pace :=
  let p := match f.toolBar.interval with
    | some item => p.choose item
    | none => p
  if f.tableOpen && f.space then p.toggle else p

/-- The text for a pace. -/
def text (p : Pace) : Option String :=
  if p.paused then some "Paused"
  else (intervals.find? fun entry => entry.2 = p.interval).map Prod.fst

/-- The dial stands at one of the four intervals that the combo box offers. -/
theorem interval_cases (p : Pace) :
    p.interval = 500 ∨ p.interval = 1000 ∨ p.interval = 2000 ∨ p.interval = 5000 := by
  simpa using p.offered

/-- There is a text for every pace, since the combo box lists every interval it offers. -/
theorem text_isSome (p : Pace) : p.text.isSome = true := by
  unfold text
  cases p.paused with
  | true => rfl
  | false =>
    obtain h | h | h | h := p.interval_cases <;>
    · rw [h]
      rfl

/-- An offered interval is at least half a second. -/
theorem le_interval (p : Pace) : 500 ≤ p.interval.toInt64.toUInt64.toNat := by
  obtain h | h | h | h := p.interval_cases <;>
  · rw [h]
    decide

end Pace

/-- The two intervals of a view implement a dial. -/
structure ProcessesView.Keeps (v : ProcessesView) (p : Pace) : Prop where
  /-- The interval in use, zero for a pause. -/
  interval_eq : v.updateInterval = if p.paused then 0 else p.interval
  /-- The interval to go on with after a pause. -/
  resumes : p.paused = true → v.oldInterval = p.interval

namespace ProcessesView.Keeps

variable {v v' : ProcessesView} {p : Pace}

/-- An interval that is offered is positive. -/
private theorem interval_pos (p : Pace) : p.interval > 0 := by
  obtain h | h | h | h := p.interval_cases <;>
  · rw [h]
    decide

/-- Steps that leave both intervals alone. -/
theorem of_eq (h : v.Keeps p) (hupdate : v'.updateInterval = v.updateInterval)
    (hold : v'.oldInterval = v.oldInterval) : v'.Keeps p :=
  ⟨hupdate.trans h.interval_eq, fun hpaused => hold.trans (h.resumes hpaused)⟩

/-- The dial is paused precisely if the interval in use is zero. -/
theorem paused_iff (h : v.Keeps p) : p.paused = true ↔ v.updateInterval = 0 := by
  rw [h.interval_eq]
  cases p.paused with
  | true => simp
  | false =>
    have hpos := interval_pos p
    simp only [Bool.false_eq_true, if_false, false_iff]
    intro hzero
    rw [hzero] at hpos
    exact absurd hpos (by decide)

/-- Updates are made while the dial is not paused. -/
theorem running_iff (h : v.Keeps p) : v.updateInterval > 0 ↔ p.paused = false := by
  rw [h.interval_eq]
  cases p.paused with
  | true => simp
  | false => simpa using interval_pos p

/-- **`TogglePause`** works the dial. -/
theorem togglePause (h : v.Keeps p) : v.togglePause.Keeps p.toggle := by
  have hiff := h.paused_iff
  unfold ProcessesView.togglePause Pace.toggle
  cases hpaused : p.paused with
  | true =>
    rw [if_pos (hiff.mp hpaused)]
    exact ⟨h.resumes hpaused, fun hfalse => absurd hfalse (by simp)⟩
  | false =>
    rw [if_neg (mt hiff.mpr (by simp [hpaused]))]
    refine ⟨rfl, fun _ => ?_⟩
    show v.updateInterval = p.interval
    rw [h.interval_eq, hpaused, if_neg Bool.false_ne_true]

/-- **The combo box** works the dial. -/
theorem chooseInterval (h : v.Keeps p) (item : IntervalItem) :
    (Session.chooseInterval item v).Keeps (p.choose item) := by
  cases item with
  | paused => exact h.togglePause
  | _ => exact ⟨rfl, fun hfalse => absurd hfalse Bool.false_ne_true⟩

/-- The combo box shows the interval chosen last, or that the view is paused. -/
theorem comboText_eq (h : v.Keeps p) : v.comboText = p.text := by
  unfold comboText Pace.text
  rw [h.interval_eq]
  cases p.paused <;> rfl

end ProcessesView.Keeps

/-- The same clock, no earlier. -/
structure Clock.Later (c c' : Clock) : Prop where
  /-- The readings are the same. -/
  readings_eq : c'.readings = c.readings
  /-- No reading is taken back. -/
  taken_le : c.taken ≤ c'.taken

namespace Clock.Later

variable {c c' c'' : Clock}

/-- A clock is no earlier than itself. -/
theorem refl (c : Clock) : c.Later c := ⟨rfl, le_rfl⟩

/-- A clock that is later than a second one is later than those the second is later than. -/
theorem trans (h : c.Later c') (h' : c'.Later c'') : c.Later c'' :=
  ⟨h'.readings_eq.trans h.readings_eq, h.taken_le.trans h'.taken_le⟩

/-- A reading moves the clock on. -/
theorem next (c : Clock) : c.Later c.next := ⟨rfl, Nat.le_succ _⟩

/-- `Update` reads the clock or leaves it, and never sets it back. -/
theorem update (px : ProcessInfoEx) (c : Clock) : c.Later (px.update c).2.2 := by
  unfold ProcessInfoEx.update
  split
  · exact refl c
  · dsimp only
    split
    · exact next c
    · exact next c

end Clock.Later

namespace Session

variable {host : Host} {s s' : Session} {p : Pace}

/-- Taking over the rows of the manager reads the clock for each mark. -/
theorem takeRows_later (host : Host) (s : Session) (empty : Bool) :
    s.clock.Later (s.takeRows host empty).clock := by
  have hadd : ∀ s' : Session, s.clock.Later s'.clock → ∀ pi ∈ s.view.pm.newProcesses,
      s.clock.Later (s'.addNew host pi).clock := fun s' h _ _ => h.trans (.next _)
  have hmark : ∀ (pis : List (Ref ProcessInfo)) (s' : Session), s.clock.Later s'.clock →
      ∀ pi ∈ pis, s.clock.Later (s'.markTerminated host pi).clock :=
    fun _ s' h _ _ => h.trans (.next _)
  cases empty with
  | true => exact .refl _
  | false =>
    have hfirst := List.foldlRecOn (motive := fun s' : Session => s.clock.Later s'.clock) _ _
      (.refl s.clock) hadd
    exact List.foldlRecOn (motive := fun s' : Session => s.clock.Later s'.clock) _ _ hfirst
      (hmark _)

/-- The purge loop reads the clock for each marked row. -/
theorem purge_later (host : Host) (s : Session) : s.clock.Later (s.purge host).session.clock := by
  refine purge_keeps (R := fun s s' => s.clock.Later s'.clock) (fun s => .refl _)
    (fun _ _ _ => Clock.Later.trans) (fun filter l => ?_) s
  have hupdate : ∀ (s : Session) pi, s.clock.Later (s.updateRow host pi).1.clock :=
    fun s pi => .update _ s.clock
  unfold purgeRow
  split
  · exact .refl _
  · rename_i pi _
    dsimp only
    split
    · exact hupdate _ pi
    · split
      · exact hupdate _ pi
      · exact hupdate _ pi

/-- What an update does to the dial and the clock: it stamps the time of a reading that it
makes last. -/
structure Stamped (s s' : Session) : Prop where
  /-- The dial. -/
  keeps : ∀ p, s.view.Keeps p → s'.view.Keeps p
  /-- The stamp. -/
  stamp : ∃ clock : Clock, s.clock.Later clock ∧ s'.view.tick = clock.readings clock.taken ∧
    s'.clock = clock.next

/-- **An update** stamps the time. -/
theorem stamped_refresh (host : Host) (s : Session) (r : Refresh) :
    s.Stamped (s.refresh host r) := by
  let s₁ := (s.enumProcesses host r.world).takeRows host s.view.processes.isEmpty
  have htaken := takeRows_table host (s.enumProcesses host r.world) s.view.processes.isEmpty
  have hsorted : (s₁.sortAgain host r).view.table.withRows [] = s₁.view.table.withRows [] := by
    unfold sortAgain
    split
    · have hsort := ProcessesView.table_doSort host s₁.view r.answers r.specs.columnIndex
        r.specs.ascending
      have hbare := congrArg (Table.withRows · []) hsort
      exact hbare
    · rfl
  have hclock : (s₁.sortAgain host r).clock = s₁.clock := by
    unfold sortAgain
    split <;> rfl
  have htable := hsorted.trans htaken
  refine ⟨fun p h => h.of_eq (congrArg Table.updateInterval htable)
    (congrArg Table.oldInterval htable), (s₁.sortAgain host r).clock, ?_, rfl, rfl⟩
  rw [hclock]
  exact takeRows_later host (s.enumProcesses host r.world) s.view.processes.isEmpty

/-- The tool bar works the dial, and neither reads the clock nor asks the system. -/
theorem buildToolBar_keeps (h : s.view.Keeps p) (t : ToolBar) :
    (s.buildToolBar t).view.Keeps (match t.interval with
      | some item => p.choose item
      | none => p) ∧ (s.buildToolBar t).view.tick = s.view.tick ∧
      (s.buildToolBar t).clock = s.clock ∧ (s.buildToolBar t).history.calls = s.history.calls := by
  have hbutton := SameTable.killButton s t
  have hkeeps := h.of_eq hbutton.updateInterval_eq hbutton.oldInterval_eq
  have htick : ∀ item (v : ProcessesView), (chooseInterval item v).tick = v.tick := by
    intro item v
    cases item with
    | paused =>
      show v.togglePause.tick = v.tick
      unfold ProcessesView.togglePause
      split <;> rfl
    | _ => rfl
  unfold buildToolBar intervalMenu
  cases t.interval with
  | none => exact ⟨hkeeps, hbutton.tick_eq, hbutton.clock_eq, hbutton.calls_eq⟩
  | some item =>
    exact ⟨hkeeps.chooseInterval item, (htick item _).trans hbutton.tick_eq, hbutton.clock_eq,
      hbutton.calls_eq⟩

/-- When the dial of a frame asks for an update: the table is built, there is no pause, and
the interval has passed since the last update. -/
def Due (s : Session) (f : Frame) (p : Pace) : Prop :=
  f.tableOpen = true ∧ (p.frame f).paused = false ∧
    s.clock.readings s.clock.taken - s.view.tick ≥ (p.frame f).interval.toInt64.toUInt64

/-- Whether an update is due is decidable. -/
instance (s : Session) (f : Frame) (p : Pace) : Decidable (s.Due f p) :=
  inferInstanceAs (Decidable (_ ∧ _ ∧ _))

/-- What a frame does to the dial, the clock and the calls. -/
structure Advances (s : Session) (f : Frame) (p : Pace) (s' : Session) : Prop where
  /-- The dial is worked. -/
  keeps : s'.view.Keeps (p.frame f)
  /-- The clock goes on. -/
  later : s.clock.Later s'.clock
  /-- The system is asked once if an update is due. -/
  calls_eq : s'.history.calls =
    s.history.calls ++ if s.Due f p then [enumCall f.refresh.world] else []
  /-- Without an update the stamp stays. -/
  idle : ¬ s.Due f p → s'.view.tick = s.view.tick
  /-- An update stamps the time of a reading of its own. -/
  stamped : s.Due f p → ∃ n, s.clock.taken < n ∧ n < s'.clock.taken ∧
    s'.view.tick = s.clock.readings n

/-- The rest of a frame after its update leaves the dial and the calls alone. -/
theorem Advances.drawTable {f : Frame} (h : s.Advances f p s') :
    s.Advances f p (drawTable host f (s'.purge host)) := by
  have hdrawn := SameTable.drawTable host f (s'.purge host)
  have hclock : ((s'.purge host).session.sortIfDirty host f.specs).clock =
      (s'.purge host).session.clock ∧
      ((s'.purge host).session.sortIfDirty host f.specs).history.calls =
        (s'.purge host).session.history.calls := by
    unfold sortIfDirty
    split
    · split <;> exact ⟨rfl, rfl⟩
    · exact ⟨rfl, rfl⟩
  have hlater := hclock.1.symm ▸ purge_later host s'
  rw [← hdrawn.clock_eq] at hlater
  have hcalls := hdrawn.calls_eq.trans (hclock.2.trans (purge_calls host s'))
  obtain ⟨-, hpurge⟩ := purge_table host s'
  have hsort := sortIfDirty_table host (s'.purge host).session f.specs
  have htable : ((s'.purge host).session.sortIfDirty host f.specs).view.tick = s'.view.tick ∧
      ((s'.purge host).session.sortIfDirty host f.specs).view.updateInterval =
        s'.view.updateInterval ∧
      ((s'.purge host).session.sortIfDirty host f.specs).view.oldInterval =
        s'.view.oldInterval := by
    cases hdirty : f.specs.filter (·.dirty) <;> rw [hdirty] at hsort <;>
    exact ⟨(congrArg Table.tick hsort).trans (congrArg Table.tick hpurge),
      (congrArg Table.updateInterval hsort).trans (congrArg Table.updateInterval hpurge),
      (congrArg Table.oldInterval hsort).trans (congrArg Table.oldInterval hpurge)⟩
  have htick := hdrawn.tick_eq.trans htable.1
  refine ⟨h.keeps.of_eq (hdrawn.updateInterval_eq.trans htable.2.1)
    (hdrawn.oldInterval_eq.trans htable.2.2), h.later.trans hlater, hcalls.trans h.calls_eq,
    fun hdue => htick.trans (h.idle hdue), fun hdue => ?_⟩
  obtain ⟨n, hn, hlast, hstamp⟩ := h.stamped hdue
  exact ⟨n, hn, lt_of_lt_of_le hlast hlater.taken_le, htick.trans hstamp⟩

/-- **The update** of a frame whose table is built. -/
theorem advances_updateTable (h : s.view.Keeps p) {f : Frame} (hopen : f.tableOpen = true) :
    s.Advances f p ((s.buildToolBar f.toolBar).updateTable host f) := by
  obtain ⟨hkeeps, htick, hclock, hcalls⟩ := buildToolBar_keeps h f.toolBar
  have hspace : (if f.space then (s.buildToolBar f.toolBar).onView ProcessesView.togglePause
        else s.buildToolBar f.toolBar).view.Keeps (p.frame f) ∧
      (if f.space then (s.buildToolBar f.toolBar).onView ProcessesView.togglePause
        else s.buildToolBar f.toolBar).view.tick = s.view.tick ∧
      (if f.space then (s.buildToolBar f.toolBar).onView ProcessesView.togglePause
        else s.buildToolBar f.toolBar).clock = s.clock ∧
      (if f.space then (s.buildToolBar f.toolBar).onView ProcessesView.togglePause
        else s.buildToolBar f.toolBar).history.calls = s.history.calls := by
    unfold Pace.frame
    rw [hopen, Bool.true_and]
    cases f.space with
    | true =>
      refine ⟨hkeeps.togglePause, ?_, hclock, hcalls⟩
      rw [← htick]
      show (s.buildToolBar f.toolBar).view.togglePause.tick = _
      unfold ProcessesView.togglePause
      split <;> rfl
    | false => exact ⟨hkeeps, htick, hclock, hcalls⟩
  unfold updateTable refreshIfDue
  dsimp only
  generalize (if f.space then (s.buildToolBar f.toolBar).onView ProcessesView.togglePause
    else s.buildToolBar f.toolBar) = s₁ at hspace ⊢
  obtain ⟨hkeeps₁, htick₁, hclock₁, hcalls₁⟩ := hspace
  have hrunning := hkeeps₁.running_iff
  have hfirst : s.clock.Later s₁.clock.next := by
    rw [← hclock₁]
    exact .next _
  have hstay : ∀ clock, s.clock.Later clock → ¬ s.Due f p →
      s.Advances f p { s₁ with clock := clock } := by
    intro clock hlater hdue
    refine ⟨hkeeps₁, hlater, ?_, fun _ => htick₁, fun h => absurd h hdue⟩
    rw [if_neg hdue, List.append_nil]
    exact hcalls₁
  by_cases hpos : s₁.view.updateInterval > 0
  · have hinterval : s₁.view.updateInterval = (p.frame f).interval := by
      rw [hkeeps₁.interval_eq, hrunning.mp hpos, if_neg Bool.false_ne_true]
    have hdueIff : s.Due f p ↔ s₁.clock.getTickCount64.1 - s₁.view.tick ≥
        s₁.view.updateInterval.toInt64.toUInt64 := by
      unfold Due Clock.getTickCount64
      rw [hclock₁, htick₁, hinterval, and_iff_right hopen, and_iff_right (hrunning.mp hpos)]
    rw [if_pos hpos]
    by_cases hdue : s.Due f p
    · rw [if_pos (hdueIff.mp hdue)]
      have hrefresh := stamped_refresh host { s₁ with clock := s₁.clock.getTickCount64.2 } f.refresh
      obtain ⟨clock, hlater, hstamp, hnext⟩ := hrefresh.stamp
      have hread : s.clock.Later clock := hfirst.trans hlater
      have hafter : s.clock.taken < clock.taken := by
        have htaken : s₁.clock.taken + 1 ≤ clock.taken := hlater.taken_le
        rw [hclock₁] at htaken
        exact htaken
      refine ⟨hrefresh.keeps _ hkeeps₁, ?_, ?_, fun h => absurd hdue h, fun _ => ?_⟩
      · rw [hnext]
        exact hread.trans (.next clock)
      · rw [refresh_calls, if_pos hdue]
        exact congrArg (· ++ _) hcalls₁
      · refine ⟨clock.taken, hafter, ?_, ?_⟩
        · rw [hnext]
          exact Nat.lt_succ_self _
        · rw [hstamp, hread.readings_eq]
    · rw [if_neg (mt hdueIff.mpr hdue)]
      exact hstay _ hfirst hdue
  · rw [if_neg hpos]
    exact hstay s₁.clock (hclock₁ ▸ .refl _) fun hdue => hpos (hrunning.mpr hdue.2.1)

/-- **One frame** works the dial, and asks the system precisely if an update is due. -/
theorem advances_buildWindow (h : s.view.Keeps p) (f : Frame) :
    s.Advances f p (s.buildWindow host f) := by
  unfold buildWindow buildTable
  cases hopen : f.tableOpen with
  | true =>
    rw [if_pos rfl]
    exact (advances_updateTable h hopen).drawTable
  | false =>
    obtain ⟨hkeeps, htick, hclock, hcalls⟩ := buildToolBar_keeps h f.toolBar
    have hdue : ¬ s.Due f p := fun hdue => Bool.false_ne_true (hopen.symm.trans hdue.1)
    rw [if_neg Bool.false_ne_true]
    refine ⟨?_, hclock ▸ .refl _, ?_, fun _ => htick, fun h => absurd h hdue⟩
    · unfold Pace.frame
      rw [hopen, Bool.false_and, if_neg Bool.false_ne_true]
      exact hkeeps
    · rw [if_neg hdue, List.append_nil, hcalls]

section Run

variable (host : Host) (readings : ℕ → UInt64)

/-- The dial after a run. -/
def pace (frames : List Frame) : Pace := frames.foldl Pace.frame Pace.initial

/-- Every reachable view keeps the dial. -/
theorem run_keeps (frames : List Frame) : (run host readings frames).view.Keeps (pace frames) := by
  induction frames using List.reverseRecOn with
  | nil => exact ⟨rfl, fun hfalse => absurd hfalse Bool.false_ne_true⟩
  | append_singleton frames f ih =>
    rw [run_concat, pace, List.foldl_append]
    exact (advances_buildWindow ih f).keeps

/-- **The dial.** In every run, whatever `_oldInterval` holds at first, the two intervals
implement the dial, the combo box always finds a text and shows the dial by it, and a frame
asks the system once if an update is due by the dial and not at all otherwise. -/
theorem run_pace (frames : List Frame) (f : Frame) :
    (run host readings frames).view.Keeps (pace frames) ∧
      (run host readings frames).view.comboText = (pace frames).text ∧
      (run host readings frames).view.comboText.isSome = true ∧
      (run host readings (frames ++ [f])).history.calls =
        (run host readings frames).history.calls ++
          if (run host readings frames).Due f (pace frames) then [enumCall f.refresh.world]
          else [] := by
  have hkeeps := run_keeps host readings frames
  refine ⟨hkeeps, hkeeps.comboText_eq, ?_, ?_⟩
  · rw [hkeeps.comboText_eq]
    exact (pace frames).text_isSome
  rw [run_concat]
  exact (advances_buildWindow hkeeps f).calls_eq

/-- Since the session `s`, an update every half second at most. -/
structure Paced (readings : ℕ → UInt64) (s s' : Session) : Prop where
  /-- The clock goes on. -/
  later : s.clock.Later s'.clock
  /-- The last stamp comes after a half second for each update but one. -/
  paced : s'.history.calls.length = s.history.calls.length ∨
    s.history.calls.length < s'.history.calls.length ∧
      ∃ n, s.clock.taken ≤ n ∧ n < s'.clock.taken ∧ s'.view.tick = readings n ∧
        (readings s.clock.taken).toNat +
          500 * (s'.history.calls.length - s.history.calls.length - 1) ≤ (readings n).toNat

/-- **One frame** keeps the pace. -/
theorem Paced.step {s s' s'' : Session} {f : Frame} {p : Pace} (h : Paced readings s s')
    (hclock : s'.clock.readings = readings) (hmono : Monotone fun n => (readings n).toNat)
    (hframe : s'.Advances f p s'') : Paced readings s s'' := by
  have hlater := h.later.trans hframe.later
  have htaken := h.later.taken_le
  have hnext := hframe.later.taken_le
  have hcalls := hframe.calls_eq
  refine ⟨hlater, ?_⟩
  by_cases hdue : s'.Due f p
  · obtain ⟨n, hn, hlast, hstamp⟩ := hframe.stamped hdue
    rw [if_pos hdue] at hcalls
    have hlength : s''.history.calls.length = s'.history.calls.length + 1 := by simp [hcalls]
    rw [hclock] at hstamp
    rcases h.paced with hsame | ⟨hmore, m, _, hm, hbefore, hbound⟩
    · refine Or.inr ⟨by omega, n, by omega, hlast, hstamp, ?_⟩
      rw [hlength, hsame, Nat.add_sub_cancel_left, Nat.sub_self, Nat.mul_zero, Nat.add_zero]
      exact hmono (by omega)
    · have hpassed := hdue.2.2
      rw [hclock, hbefore] at hpassed
      have hle : (readings m).toNat ≤ (readings s'.clock.taken).toNat := hmono hm.le
      have hgap : (readings s'.clock.taken - readings m).toNat =
          (readings s'.clock.taken).toNat - (readings m).toNat :=
        UInt64.toNat_sub_of_le _ _ (UInt64.le_iff_toNat_le.mpr hle)
      have hinterval := (p.frame f).le_interval.trans (UInt64.le_iff_toNat_le.mp hpassed)
      have hread : (readings s'.clock.taken).toNat ≤ (readings n).toNat := hmono hn.le
      exact Or.inr ⟨by omega, n, by omega, hlast, hstamp, by omega⟩
  · rw [if_neg hdue, List.append_nil] at hcalls
    rw [hcalls, hframe.idle hdue]
    rcases h.paced with hsame | ⟨hmore, m, hfirst, hm, hbefore, hbound⟩
    · exact Or.inl hsame
    · exact Or.inr ⟨hmore, m, hfirst, by omega, hbefore, hbound⟩

/-- **The rate.** While the clock does not run backwards, the frames between two points of a
run ask the system at most once, and once more for each half second that passes. -/
theorem run_rate (hmono : Monotone fun n => (readings n).toNat) (before after : List Frame) :
    500 * (run host readings (before ++ after)).history.calls.length ≤
      500 * (run host readings before).history.calls.length + 500 +
        ((readings ((run host readings (before ++ after)).clock.taken - 1)).toNat -
          (readings (run host readings before).clock.taken).toNat) := by
  have hclock : ∀ frames, (run host readings frames).clock.readings = readings := by
    intro frames
    induction frames using List.reverseRecOn with
    | nil => rfl
    | append_singleton frames f ih =>
      rw [run_concat]
      exact (advances_buildWindow (run_keeps host readings frames) f).later.readings_eq.trans ih
  have hpaced : Paced readings (run host readings before)
      (run host readings (before ++ after)) := by
    induction after using List.reverseRecOn with
    | nil =>
      rw [List.append_nil]
      exact ⟨.refl _, Or.inl rfl⟩
    | append_singleton after f ih =>
      rw [← List.append_assoc, run_concat]
      exact ih.step readings (hclock _) hmono (advances_buildWindow (run_keeps host readings _) f)
  rcases hpaced.paced with hsame | ⟨hmore, n, hfirst, hlast, _, hbound⟩
  · omega
  · have hread : (readings n).toNat ≤
        (readings ((run host readings (before ++ after)).clock.taken - 1)).toNat :=
      hmono (by omega)
    omega

end Run

/-- Four frames in less than two intervals of half a second ask the system twice. -/
theorem run_rate_four_frames :
    let idle := Frame.idle (Call.answered .enumProcesses 100 (.bare 1 8) []).toEnumWorld
    let faster := { idle with toolBar := { idle.toolBar with interval := some .msec500 } }
    let readings := fun n => UInt64.ofNat (1000 + 200 * min n 8)
    let s := run .plain readings ([faster] ++ [idle, idle, idle])
    s.history.calls.length = 2 ∧ 500 * s.history.calls.length ≤
      500 * (run .plain readings [faster]).history.calls.length + 500 +
        ((readings (s.clock.taken - 1)).toNat -
          (readings (run .plain readings [faster]).clock.taken).toNat) := by
  intro idle faster readings s
  have hreading : ∀ n, (readings n).toNat = 1000 + 200 * min n 8 := by
    intro n
    have hle : 1000 + 200 * min n 8 ≤ 2600 := by omega
    exact UInt64.toNat_ofNat_of_lt' (lt_of_le_of_lt hle (by decide))
  have hmono : Monotone fun n => (readings n).toNat := by
    intro m n hmn
    dsimp only
    rw [hreading, hreading]
    omega
  have hrate := run_rate .plain readings hmono [faster] [idle, idle, idle]
  rw [show run .plain readings ([faster] ++ [idle, idle, idle]) = s from rfl] at hrate
  exact ⟨by decide +kernel, hrate⟩

end Session

end ProcExpX
