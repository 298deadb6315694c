import ProcExpX.App.DialogSteps

/-!
# The process that is killed

The kill dialog names the selected process, and the selection cannot change while
the dialog is open. The kill itself goes by pid, so it reaches the process that owns
the pid when OK is answered. The two are the same unless the pid has been given to
another process in between.
-/

namespace ProcExpX

open Library WinSys

/-- The process that the dialog is open for after some calls of `TryKillProcess`: the
one it showed first since it was last answered. -/
def openFor (attempts : List KillAttempt) : Option ProcessOrThreadKey :=
  attempts.foldl (fun opened a =>
    if a.answer.result = .stillOpen then some (opened.getD a.shown) else none) none

/-- The process that the dialog of a call was opened for, given the calls before. -/
def openedFor (before : List KillAttempt) (a : KillAttempt) : ProcessOrThreadKey :=
  (openFor before).getD a.shown

/-- The dialog stays open for the same process until it is answered. -/
theorem openFor_concat (attempts : List KillAttempt) (a : KillAttempt) :
    openFor (attempts ++ [a]) =
      if a.answer.result = .stillOpen then some (openedFor attempts a) else none := by
  simp [openFor, openedFor]

/-- A call of `TryKillProcess` is true to its dialog: it shows the process that the
dialog was opened for, and when OK is answered `Terminate` is called on the process
that is opened by its pid. -/
def KillAttempt.Faithful (before : List KillAttempt) (a : KillAttempt) : Prop :=
  a.shown = openedFor before a ∧
    a.target = if a.answer.result = .ok then a.answer.os.openById a.shown.id else none

/-- `Terminate` is called on no process but the one that the dialog was opened for. -/
def KillAttempt.KillsOpened (before : List KillAttempt) (a : KillAttempt) : Prop :=
  ∀ process, a.target = some process → process = openedFor before a ∧ process = a.shown

/-- When OK is answered, the pid of the process that the dialog was opened for is not
owned by another process that may be opened. -/
def KillAttempt.PidKept (before : List KillAttempt) (a : KillAttempt) : Prop :=
  a.answer.result = .ok → ∀ process,
    a.answer.os.openById (openedFor before a).id = some process → process = openedFor before a

/-- A call that is true to its dialog kills the right process precisely when the pid
has been kept. -/
theorem KillAttempt.Faithful.killsOpened_iff {before : List KillAttempt} {a : KillAttempt}
    (h : a.Faithful before) : a.KillsOpened before ↔ a.PidKept before := by
  obtain ⟨hshown, htarget⟩ := h
  unfold KillsOpened PidKept
  rw [htarget, ← hshown]
  constructor
  · intro hkill hok process hopen
    exact (hkill process (by rw [if_pos hok, hopen])).1
  · intro hkept process hkill
    by_cases hok : a.answer.result = .ok
    · rw [if_pos hok] at hkill
      exact ⟨hkept hok process hkill, hkept hok process hkill⟩
    · rw [if_neg hok] at hkill
      cases hkill

namespace Session

variable {host : Host} {s s' : Session}

/-- A process object that the view may point to: it is allocated and its pid is the
one in its key. -/
def Sound (s : Session) (pi : Ref ProcessInfo) : Prop :=
  s.view.pm.processHeap.Live pi ∧ (s.view.pm.process pi).id = (s.view.key pi).id

/-- Whether a process object is sound depends on nothing in a session but its manager. -/
theorem sound_congr (hpm : s'.view.pm = s.view.pm) (pi : Ref ProcessInfo) :
    s'.Sound pi ↔ s.Sound pi := by
  rw [Sound, ProcessesView.key_congr hpm, hpm, Sound]

/-- **The invariant of the dialog.** -/
structure DialogKept (s : Session) : Prop where
  /-- The manager tracks what it lists. -/
  tracks : ∃ ks ts, s.view.pm.Tracks ks ts
  /-- The rows are sound. -/
  rows_sound : ∀ pi ∈ s.view.processes, s.Sound pi
  /-- The selected process is sound. -/
  selected_sound : ∀ pi, s.view.selectedProcess = some pi → s.Sound pi
  /-- While the dialog is open it is marked so, and its process is selected. -/
  open_selected : ∀ key, openFor s.history.attempts = some key →
    s.view.modalOpen = true ∧ ∃ pi, s.view.selectedProcess = some pi ∧ s.view.key pi = key
  /-- All calls of `TryKillProcess` were true to their dialogs. -/
  faithful : AtEach (fun before a => a.Faithful before) s.history.attempts

namespace DialogKept

/-- A session starts without a dialog, so the invariant holds of it. -/
theorem initial (host : Host) (readings : ℕ → UInt64) :
    (Session.initial host readings).DialogKept where
  tracks := ⟨_, _, Impl.initial_tracks host.rawProcesses host.rawThreads⟩
  rows_sound := by simp [Session.initial]
  selected_sound := by simp [Session.initial]
  open_selected := by simp [Session.initial, openFor]
  faithful := .nil

/-- Without an enumeration what is left to show concerns the rows and the selection. -/
theorem samePm (h : s.DialogKept) (hpm : s'.view.pm = s.view.pm)
    (hrows : ∀ pi ∈ s'.view.processes, s.Sound pi)
    (hselected : ∀ pi, s'.view.selectedProcess = some pi → s.Sound pi)
    (hopen : ∀ key, openFor s'.history.attempts = some key → s'.view.modalOpen = true ∧
      ∃ pi, s'.view.selectedProcess = some pi ∧ s.view.key pi = key)
    (hfaithful : AtEach (fun before a => a.Faithful before) s'.history.attempts) :
    s'.DialogKept where
  tracks := hpm ▸ h.tracks
  rows_sound pi hpi := (sound_congr hpm pi).mpr (hrows pi hpi)
  selected_sound pi hpi := (sound_congr hpm pi).mpr (hselected pi hpi)
  open_selected := by
    rw [ProcessesView.key_congr hpm]
    exact hopen
  faithful := hfaithful

/-- Steps that leave the dialog alone keep the invariant if new rows are sound. -/
theorem sameDialog (h : s.DialogKept) (hs : s.SameDialog s')
    (hrows : ∀ pi ∈ s'.view.processes, s.Sound pi) : s'.DialogKept := by
  refine h.samePm hs.view.pm_eq hrows ?_ ?_ ?_
  · rw [hs.view.selected_eq]
    exact h.selected_sound
  · rw [hs.attempts_eq, hs.view.modalOpen_eq, hs.view.selected_eq]
    exact h.open_selected
  · rw [hs.attempts_eq]
    exact h.faithful

/-- While the dialog is not marked open it is not open. -/
theorem openFor_none (h : s.DialogKept) (hclosed : s.view.modalOpen = false) :
    openFor s.history.attempts = none := by
  cases hopen : openFor s.history.attempts with
  | none => rfl
  | some key =>
    have hmarked := (h.open_selected key hopen).1
    rw [hclosed] at hmarked
    cases hmarked

end DialogKept

/-- What a call of `TryKillProcess` for the selected process does. -/
structure Attempted (s : Session) (answer : DialogAnswer) (selected : Ref ProcessInfo)
    (s' : Session) : Prop where
  /-- The manager is the same. -/
  pm_eq : s'.view.pm = s.view.pm
  /-- The rows are the same. -/
  processes_eq : s'.view.processes = s.view.processes
  /-- The call is recorded, with the process opened by the pid if OK was answered. -/
  attempts_eq : s'.history.attempts = s.history.attempts ++ [⟨s.view.key selected, answer,
    if answer.result = .ok then answer.os.openById (s.view.pm.process selected).id else none⟩]
  /-- The selection is the same or is given up. -/
  selected_eq : s'.view.selectedProcess = s.view.selectedProcess ∨ s'.view.selectedProcess = none
  /-- As long as there is no answer the dialog is marked open, and the selection stays. -/
  still_open : answer.result = .stillOpen →
    s'.view.modalOpen = true ∧ s'.view.selectedProcess = s.view.selectedProcess

/-- `KillProcess` terminates whichever process is opened. -/
theorem killProcess_fst (os : ProcessTable) (id : UInt32) :
    (killProcess os id).1 = os.openById id := by
  unfold killProcess
  cases os.openById id <;> rfl

/-- `TryKillProcess` closes the dialog or leaves it open, and records the one attempt that it may
make on the selected process. -/
theorem attempted_tryKillProcess (s : Session) (answer : DialogAnswer)
    (selected : Ref ProcessInfo) :
    s.Attempted answer selected (s.tryKillProcess answer selected).1 := by
  unfold tryKillProcess
  dsimp only
  split
  · rename_i hresult
    exact ⟨rfl, rfl, by rw [hresult]; rfl, Or.inl rfl, fun _ => ⟨rfl, rfl⟩⟩
  · rename_i hresult
    have hkill := killProcess_fst answer.os (s.view.pm.process selected).id
    refine ⟨?_, ?_, ?_, ?_, fun hopen => ?_⟩
    · split <;> rfl
    · split <;> rfl
    · rw [if_pos hresult, ← hkill]
      rfl
    · split
      · exact Or.inr rfl
      · exact Or.inl rfl
    · rw [hresult] at hopen
      cases hopen
  · rename_i hopen hok
    exact ⟨rfl, rfl, by rw [if_neg hok]; rfl, Or.inl rfl, fun h => absurd h hopen⟩

namespace DialogKept

/-- **A call of `TryKillProcess`** for the selected process keeps the invariant. -/
theorem attempted (h : s.DialogKept) {answer : DialogAnswer} {selected : Ref ProcessInfo}
    (hselected : s.view.selectedProcess = some selected)
    (hs : s.Attempted answer selected s') : s'.DialogKept := by
  have hopened : ∀ target, openedFor s.history.attempts ⟨s.view.key selected, answer, target⟩ =
      s.view.key selected := by
    intro target
    unfold openedFor
    cases hopen : openFor s.history.attempts with
    | none => rfl
    | some key =>
      obtain ⟨_, pi, hpi, hkey⟩ := h.open_selected key hopen
      obtain rfl : pi = selected := Option.some.inj (hpi.symm.trans hselected)
      exact hkey.symm
  refine h.samePm hs.pm_eq (hs.processes_eq ▸ h.rows_sound) ?_ ?_ ?_
  · intro pi hpi
    rcases hs.selected_eq with heq | hnone
    · exact h.selected_sound pi (heq ▸ hpi)
    · rw [hnone] at hpi
      cases hpi
  · intro key hopen
    rw [hs.attempts_eq, openFor_concat, hopened] at hopen
    by_cases hresult : answer.result = .stillOpen
    · rw [if_pos hresult, Option.some.injEq] at hopen
      obtain ⟨hmarked, hstay⟩ := hs.still_open hresult
      exact ⟨hmarked, selected, hstay.trans hselected, hopen⟩
    · rw [if_neg hresult] at hopen
      cases hopen
  · rw [hs.attempts_eq, AtEach.concat_iff]
    refine ⟨h.faithful, (hopened _).symm, ?_⟩
    rw [(h.selected_sound selected hselected).2]

end DialogKept

/-- A step that may select the row `p` and mark the dialog open. -/
structure Reselects (p : Ref ProcessInfo) (s s' : Session) : Prop where
  /-- The manager is the same. -/
  pm_eq : s'.view.pm = s.view.pm
  /-- The rows are the same. -/
  processes_eq : s'.view.processes = s.view.processes
  /-- `TryKillProcess` was not called. -/
  attempts_eq : s'.history.attempts = s.history.attempts
  /-- The selection is the same or the row. -/
  selected_eq : s'.view.selectedProcess = s.view.selectedProcess ∨
    s'.view.selectedProcess = some p

namespace Reselects

variable {s'' : Session} {p : Ref ProcessInfo}

/-- A session that has not changed has selected nothing else. -/
theorem refl (s : Session) : Reselects p s s := ⟨rfl, rfl, rfl, Or.inl rfl⟩

/-- Two changes one after the other select nothing but the row, if neither does alone. -/
theorem trans (h : Reselects p s s') (h' : Reselects p s' s'') : Reselects p s s'' := by
  refine ⟨h'.pm_eq.trans h.pm_eq, h'.processes_eq.trans h.processes_eq,
    h'.attempts_eq.trans h.attempts_eq, ?_⟩
  rcases h'.selected_eq with heq | heq
  · exact h.selected_eq.imp heq.trans heq.trans
  · exact Or.inr heq

/-- A step that may be left out selects nothing but the row, if it does not where it is made. -/
theorem ite {c : Prop} [Decidable c] (h : c → Reselects p s s') :
    Reselects p s (if c then s' else s) := by
  split
  · rename_i hc
    exact h hc
  · exact refl s

/-- Opening the dialog leaves the selection alone. -/
theorem openDialog (s : Session) : Reselects p s s.openDialog := ⟨rfl, rfl, rfl, Or.inl rfl⟩

/-- Selecting the row itself selects nothing else. -/
theorem select (s : Session) : Reselects p s (s.select p) := ⟨rfl, rfl, rfl, Or.inr rfl⟩

/-- The context menu of the row selects no other row, whatever is chosen in it. -/
theorem contextMenu (host : Host) (s : Session) (c : PopupChoice) :
    Reselects p s (s.contextMenu host p c) := by
  have hkill : ∀ s : Session, Reselects p s (if c.kill then s.openDialog else s) :=
    fun s => ite fun _ => openDialog s
  have hfile : ∀ s : Session,
      Reselects p s (if c.goToFile then s.gotoFileLocation host p else s) := by
    refine fun s => ite fun _ => ?_
    have hrecord := s.view.getProcessInfoEx_eq host p
    exact ⟨congrArg (fun r => r.2.pm) hrecord, congrArg (fun r => r.2.processes) hrecord, rfl,
      Or.inl (congrArg (fun r => r.2.selectedProcess) hrecord)⟩
  have hproperties : ∀ s : Session,
      Reselects p s (if c.properties then s.getOrAddProcessProperties p else s) :=
    fun s => ite fun _ => ⟨rfl, rfl, rfl, Or.inl rfl⟩
  exact (((select s).trans (hkill _)).trans (hfile _)).trans (hproperties _)

end Reselects

namespace DialogKept

/-- While the dialog is closed a sound process can be selected. -/
theorem reselects (h : s.DialogKept) (hclosed : openFor s.history.attempts = none)
    {p : Ref ProcessInfo} (hp : s.Sound p) (hs : Reselects p s s') : s'.DialogKept := by
  refine h.samePm hs.pm_eq (hs.processes_eq ▸ h.rows_sound) ?_ ?_ ?_
  · intro pi hpi
    rcases hs.selected_eq with heq | heq
    · exact h.selected_sound pi (heq ▸ hpi)
    · rw [heq, Option.some.injEq] at hpi
      exact hpi ▸ hp
  · rw [hs.attempts_eq, hclosed]
    intro key hopen
    cases hopen
  · rw [hs.attempts_eq]
    exact h.faithful

/-- Steps that leave the dialog and the rows alone keep the invariant. -/
theorem sameRows (h : s.DialogKept) (hs : s.SameDialog s')
    (hrows : ∀ pi ∈ s'.view.processes, pi ∈ s.view.processes) : s'.DialogKept :=
  h.sameDialog hs fun pi hpi => h.rows_sound pi (hrows pi hpi)

/-- `BuildToolBar` keeps the invariant, whichever of its controls are used. -/
theorem buildToolBar (h : s.DialogKept) (t : ToolBar) : (s.buildToolBar t).DialogKept := by
  have hfilter : (s.editFilter t).DialogKept := h.sameRows ⟨⟨rfl, rfl, rfl⟩, rfl⟩ fun _ hpi => hpi
  have hkill : ((s.editFilter t).killButton t).DialogKept := by
    unfold killButton
    split
    · rename_i selected hselected
      split
      · exact hfilter.attempted hselected (attempted_tryKillProcess _ t.answer selected)
      · exact hfilter
    · exact hfilter
  exact hkill.sameRows (.intervalMenu _ t) fun pi hpi =>
    (Quiet.intervalMenu _ t).view.perm.mem_iff.mp hpi

/-- An enumeration keeps sound what was sound, and lists sound processes. -/
theorem enumProcesses (h : s.DialogKept) (host : Host) (world : EnumWorld) :
    (s.enumProcesses host world).DialogKept ∧
      (∀ pi ∈ (s.enumProcesses host world).view.pm.processes,
        (s.enumProcesses host world).Sound pi) ∧
      ∀ pi ∈ (s.enumProcesses host world).view.pm.newProcesses,
        pi ∈ (s.enumProcesses host world).view.pm.processes := by
  obtain ⟨ks, ts, hm⟩ := h.tracks
  obtain ⟨recs, thr, hreb⟩ := Impl.step_rebuilt host.env hm.keyed (enumCall world)
  have hside := hreb.processSide hm.keyed
  have hafter := hreb.tracks hm
  have hkey : ∀ pi, s.view.pm.processHeap.Live pi →
      (s.enumProcesses host world).view.key pi = s.view.key pi :=
    fun pi hlive => hside.keyAt_of_live hlive
  have hsound : ∀ pi, s.Sound pi → (s.enumProcesses host world).Sound pi :=
    fun pi hpi => ⟨hside.live hpi.1, (hside.carries hpi.1 ⟨rfl, hpi.2⟩).2⟩
  refine ⟨⟨⟨_, _, hafter⟩, fun pi hpi => hsound pi (h.rows_sound pi hpi),
    fun pi hpi => hsound pi (h.selected_sound pi hpi), fun key hopen => ?_, h.faithful⟩, ?_, ?_⟩
  · obtain ⟨hmarked, pi, hpi, rfl⟩ := h.open_selected key hopen
    exact ⟨hmarked, pi, hpi, hkey pi (h.selected_sound pi hpi).1⟩
  · exact fun pi hpi => ⟨hafter.processes.all_live pi hpi, (hafter.processes.all_carry pi hpi).2⟩
  · exact fun pi hpi => Impl.step_new_listed host.env hm.keyed _ hpi

/-- An update of the rows keeps the invariant, whatever the system answers. -/
theorem refresh (h : s.DialogKept) (host : Host) (r : Refresh) : (s.refresh host r).DialogKept := by
  obtain ⟨henum, hlisted, hnew⟩ := h.enumProcesses host r.world
  have hrows : ((s.enumProcesses host r.world).takeRows host
      s.view.processes.isEmpty).DialogKept := by
    refine henum.sameDialog (.takeRows host _ _) fun pi hpi => ?_
    rcases mem_takeRows host _ hpi with hold | hlist | hadd
    · exact henum.rows_sound pi hold
    · exact hlisted pi hlist
    · exact hlisted pi (hnew pi hadd)
  exact hrows.sameRows (.sortAgain host _ r) fun pi hpi =>
    (Quiet.refresh host s r).view.perm.mem_iff.mp hpi

/-- An update that may not be due. -/
theorem refreshIfDue (h : s.DialogKept) (host : Host) (r : Refresh) :
    (s.refreshIfDue host r).DialogKept := by
  have hclock : ∀ clock : Clock, ({ s with clock := clock } : Session).DialogKept :=
    fun clock => h.sameRows ⟨.refl _, rfl⟩ fun _ hpi => hpi
  unfold Session.refreshIfDue
  dsimp only
  split
  · split
    · exact (hclock _).refresh host r
    · exact hclock _
  · exact h

/-- The part of `BuildTable` before the purge loop. -/
theorem updateTable (h : s.DialogKept) (host : Host) (f : Frame) :
    (s.updateTable host f).DialogKept := by
  have hspace : (if f.space then s.onView ProcessesView.togglePause else s).DialogKept :=
    h.sameRows (.ite fun _ => .togglePause s) fun pi hpi =>
      (Quiet.ite fun _ => Quiet.togglePause s).view.perm.mem_iff.mp hpi
  exact hspace.refreshIfDue host f.refresh

section Row

variable {p : Ref ProcessInfo} (h : s.DialogKept) (hp : p ∈ s.view.processes)
include h hp

/-- A click on the row keeps the invariant, since it selects nothing while the dialog is open. -/
theorem clickRow (clicked : Bool) : (s.clickRow clicked p).DialogKept := by
  unfold Session.clickRow
  split
  · rename_i hclick
    have hclosed : s.view.modalOpen = false := by
      rw [Bool.and_eq_true, Bool.not_eq_true'] at hclick
      exact hclick.1
    exact h.reselects (h.openFor_none hclosed) (h.rows_sound p hp) (.select s)
  · exact h

/-- The Delete key and the context menu of a row. -/
theorem rowMenus (host : Host) (shiftDelete : Bool) (popup : Option PopupChoice) :
    (s.rowMenus host shiftDelete p popup).DialogKept := by
  unfold Session.rowMenus
  split
  · exact h
  · rename_i hclosed
    have hnone := h.openFor_none (Bool.not_eq_true _ ▸ hclosed)
    have hdelete : Reselects p s (s.deleteKey shiftDelete) := .ite fun _ => .openDialog s
    cases popup with
    | none => exact h.reselects hnone (h.rows_sound p hp) hdelete
    | some c => exact h.reselects hnone (h.rows_sound p hp) (hdelete.trans (.contextMenu host _ c))

omit hp in
/-- The dialog of the row keeps the invariant, whatever is answered. -/
theorem rowDialog (answer : DialogAnswer) : (s.rowDialog p answer).DialogKept := by
  unfold Session.rowDialog
  split
  · rename_i hshown
    have hkill := h.attempted hshown.2 (attempted_tryKillProcess s answer p)
    dsimp only
    split
    · exact hkill.sameRows ⟨⟨rfl, rfl, rfl⟩, rfl⟩ fun _ hpi => hpi
    · exact hkill
  · exact h

end Row

/-- The body of the row loop keeps the invariant at any position. -/
theorem drawRow (h : s.DialogKept) (host : Host) (shiftDelete : Bool) (indices : List ℕ)
    (visit : RowVisit) : (s.drawRow host shiftDelete indices visit).DialogKept := by
  unfold Session.drawRow
  split
  · exact h
  · rename_i p hfound
    have hp := ProcessesView.mem_of_position hfound
    have hperm := (Quiet.getProcessInfoEx host s hp).view.perm
    have hrecord := h.sameRows (.getProcessInfoEx host s p) fun pi hpi => hperm.mem_iff.mp hpi
    dsimp only
    split
    · exact hrecord
    · have hp' := hperm.mem_iff.mpr hp
      have hdrawn : (Session.noteDrawn _ p).DialogKept :=
        hrecord.sameRows ⟨.refl _, rfl⟩ fun _ hpi => hpi
      have hclick := hdrawn.clickRow hp' visit.clicked
      have hquiet : ∀ s : Session, s.Quiet (s.clickRow visit.clicked p) :=
        fun s => .ite fun _ => .select s p
      have hmenus :=
        hclick.rowMenus ((hquiet _).view.perm.mem_iff.mpr hp') host shiftDelete visit.popup
      exact hmenus.rowDialog visit.answer

/-- The row loop keeps the invariant, however many positions are handed out. -/
theorem drawRows (host : Host) (shiftDelete : Bool) (indices : List ℕ) (visits : List RowVisit)
    (h : s.DialogKept) :
    (visits.foldl (Session.drawRow host shiftDelete indices) s).DialogKept := by
  induction visits generalizing s with
  | nil => exact h
  | cons visit visits ih => exact ih (h.drawRow host shiftDelete indices visit)

/-- **A frame** keeps the invariant. -/
theorem buildWindow (h : s.DialogKept) (host : Host) (f : Frame) :
    (s.buildWindow host f).DialogKept := by
  have hbar := h.buildToolBar f.toolBar
  unfold Session.buildWindow buildTable
  split
  · have hpurge := (hbar.updateTable host f).sameRows (.purge host _)
      fun pi hpi => mem_of_mem_purge host _ hpi
    have hsort := hpurge.sameRows (.sortIfDirty host _ f.specs) fun pi hpi =>
      (Quiet.sortIfDirty host _ f.specs).view.perm.mem_iff.mp hpi
    have hbox := hsort.sameRows (.failureBox _ f.failureResult) fun pi hpi =>
      (Quiet.failureBox _ f.failureResult).view.perm.mem_iff.mp hpi
    exact hbox.drawRows host f.shiftDelete _ f.visits
  · exact hbar

end DialogKept

section Run

variable (host : Host) (readings : ℕ → UInt64)

/-- **Every reachable session** keeps the selection while the dialog is open. -/
theorem run_dialogKept (frames : List Frame) : (run host readings frames).DialogKept := by
  have hframes : ∀ (frames : List Frame) (s : Session), s.DialogKept →
      (frames.foldl (buildWindow host) s).DialogKept := by
    intro frames
    induction frames with
    | nil => exact fun _ h => h
    | cons f frames ih => exact fun s h => ih _ (h.buildWindow host f)
  exact hframes frames _ (.initial host readings)

/-- **The process that is killed.** In every run of frames `Terminate` is called on no
process but the one that the dialog was opened for precisely when, each time OK is
answered, the pid of that process is not owned by another process that may be opened. -/
theorem run_killsOpened_iff (frames : List Frame) :
    AtEach (fun before a => a.KillsOpened before) (run host readings frames).history.attempts ↔
      AtEach (fun before a => a.PidKept before) (run host readings frames).history.attempts :=
  (run_dialogKept host readings frames).faithful.congr fun _ _ h => h.killsOpened_iff

end Run

/-- The pid of a selected process is given to another one while its dialog is open. -/
theorem reused_pid_killed :
    let world := (Call.answered .enumProcesses 100 (.bare 1 8) []).toEnumWorld
    let row (answer : DialogAnswer) : RowVisit := ⟨0, true, none, answer⟩
    let answered (keys : List ProcessOrThreadKey) (result : MessageBoxResult) : DialogAnswer :=
      ⟨result, .of keys, false⟩
    let opened := { Frame.idle world with
      shiftDelete := true, visits := [row (answered [⟨1, 8⟩] .stillOpen)] }
    let confirmed := { Frame.idle world with visits := [row (answered [⟨2, 8⟩] .ok)] }
    ¬ AtEach (fun before a => a.KillsOpened before)
      (run .plain (fun n => 1000 + UInt64.ofNat n) [opened, confirmed]).history.attempts := by
  intro world row answered opened confirmed h
  have hattempts : (run .plain (fun n => 1000 + UInt64.ofNat n)
      [opened, confirmed]).history.attempts.map (fun a => (a.shown, a.target)) =
        [(⟨1, 8⟩, none), (⟨1, 8⟩, some ⟨2, 8⟩)] := by decide +kernel
  obtain ⟨first, rest, hlist, _, hrest⟩ := List.map_eq_cons_iff.mp hattempts
  obtain ⟨last, rest', rfl, hlast, hnil⟩ := List.map_eq_cons_iff.mp hrest
  rw [List.map_eq_nil_iff.mp hnil] at hlist
  obtain ⟨hshown, htarget⟩ := Prod.ext_iff.mp hlast
  have hkill := (h [first] last [] hlist ⟨2, 8⟩ htarget).2
  rw [show last.shown = ⟨1, 8⟩ from hshown] at hkill
  exact absurd hkill (by decide)

end Session

end ProcExpX
