import ProcExpX.App.DialogSteps
import ProcExpX.App.RowsExact

/-!
# The rows as they are drawn

The text of the filter changes only in the tool bar, the mark of a failed kill is set
only where a row shows the kill dialog, and properties are asked for only in the menu
of a row. Between the tool bar and the rows a frame leaves all three alone, and a
visited row is drawn, clicked and offered its menus before it may show the dialog.
-/

namespace ProcExpX

open Library WinSys

namespace ProcessesView

variable (host : Host) (v : ProcessesView)

/-- The text of the filter and the mark of a failed kill. -/
def entries : FilterText × Bool := (v.filterText, v.killFailed)

/-- `GetProcessInfoEx` leaves the text of the filter and the mark of a failed kill alone. -/
@[simp] theorem entries_getProcessInfoEx (pi : Ref ProcessInfo) :
    (v.getProcessInfoEx host pi).2.entries = v.entries := by
  rw [getProcessInfoEx_eq]
  rfl

/-- `DoSort` leaves the text of the filter and the mark of a failed kill alone. -/
@[simp] theorem entries_doSort (answers : SortAnswers) (col : ℕ) (asc : Bool) :
    (v.doSort host answers col asc).entries = v.entries := by
  have hrecord : ∀ (v : ProcessesView) pi, (v.getProcessInfoEx host pi).2.entries = v.entries :=
    fun v pi => v.entries_getProcessInfoEx host pi
  unfold doSort
  dsimp only
  split
  · exact foldl_keeps entries hrecord _ v
  · rfl

/-- `TogglePause` leaves the text of the filter and the mark of a failed kill alone. -/
@[simp] theorem entries_togglePause : v.togglePause.entries = v.entries := by
  unfold togglePause
  split <;> rfl

end ProcessesView

namespace Session

variable (host : Host) (s : Session)

/-- The entries of the view and the processes whose properties were asked for. -/
def notes : (FilterText × Bool) × List (Ref ProcessInfo) := (s.view.entries, s.history.properties)

/-- Notes are the same if their parts are. -/
theorem notes_eq {s s' : Session} (hentries : s'.view.entries = s.view.entries)
    (hproperties : s'.history.properties = s.history.properties) : s'.notes = s.notes :=
  Prod.ext hentries hproperties

section Notes

variable {s} {s' : Session} (h : s'.notes = s.notes)
include h

/-- If the notes are the same, so is the text of the filter. -/
theorem filterText_eq : s'.view.filterText = s.view.filterText := congrArg (·.1.1) h

/-- If the notes are the same, so is the mark of a failed kill. -/
theorem killFailed_eq : s'.view.killFailed = s.view.killFailed := congrArg (·.1.2) h

/-- If the notes are the same, no properties have been asked for in between. -/
theorem properties_eq : s'.history.properties = s.history.properties := congrArg Prod.snd h

end Notes

/-- `TryKillProcess` leaves the notes alone, whatever is answered. -/
theorem notes_tryKillProcess (answer : DialogAnswer) (selected : Ref ProcessInfo) :
    (s.tryKillProcess answer selected).1.notes = s.notes := by
  unfold tryKillProcess
  dsimp only
  split
  · rfl
  · refine notes_eq ?_ rfl
    dsimp only
    split <;> rfl
  · rfl

/-- The Kill button leaves the notes alone, whatever the dialog answers. -/
theorem notes_killButton (t : ToolBar) : (s.killButton t).notes = s.notes := by
  unfold killButton
  split
  · split
    · exact notes_tryKillProcess _ _ _
    · rfl
  · rfl

/-- The interval menu leaves the notes alone, whichever item is chosen. -/
theorem notes_intervalMenu (t : ToolBar) : (s.intervalMenu t).notes = s.notes := by
  unfold intervalMenu
  split
  · rename_i item _
    cases item with
    | paused => exact notes_eq (ProcessesView.entries_togglePause _) rfl
    | _ => rfl
  · rfl

/-- So does taking over the rows of the manager. -/
theorem notes_takeRows (empty : Bool) : (s.takeRows host empty).notes = s.notes := by
  refine notes_eq ?_ (congrArg History.properties (takeRows_history host s empty))
  have hadd : ∀ (s : Session) pi, (s.addNew host pi).view.entries = s.view.entries := by
    intro s pi
    exact ProcessesView.entries_getProcessInfoEx host
      { s.view with processes := s.view.processes ++ [pi] } pi
  have hmark : ∀ (s : Session) pi, (s.markTerminated host pi).view.entries = s.view.entries :=
    fun s pi => s.view.entries_getProcessInfoEx host pi
  cases empty with
  | true => rfl
  | false =>
    exact (foldl_keeps (fun s : Session => s.view.entries) hmark _ _).trans
      (foldl_keeps (fun s : Session => s.view.entries) hadd _ s)

/-- An update of the rows leaves the notes alone. -/
theorem notes_refresh (r : Refresh) : (s.refresh host r).notes = s.notes := by
  have hrows := notes_takeRows host (s.enumProcesses host r.world) s.view.processes.isEmpty
  refine Eq.trans ?_ hrows
  unfold refresh sortAgain
  dsimp only
  split
  · exact notes_eq (ProcessesView.entries_doSort host _ r.answers r.specs.columnIndex
      r.specs.ascending) rfl
  · rfl

/-- So does all that comes before the purge loop of `BuildTable`. -/
theorem notes_updateTable (f : Frame) : (s.updateTable host f).notes = s.notes := by
  have hspace : (if f.space then s.onView ProcessesView.togglePause else s).notes = s.notes := by
    split
    · exact notes_eq s.view.entries_togglePause rfl
    · rfl
  rw [← hspace]
  unfold updateTable refreshIfDue
  dsimp only
  generalize (if f.space then s.onView ProcessesView.togglePause else s) = s₁
  split
  · split
    · exact notes_refresh host _ _
    · rfl
  · rfl

/-- The purge loop leaves the notes alone. -/
theorem notes_purge : (s.purge host).session.notes = s.notes := by
  refine purge_keeps (R := fun s s' => s'.notes = s.notes) (fun _ => rfl)
    (fun _ _ _ h h' => h'.trans h) (fun filter l => ?_) s
  have hupdate : ∀ (s : Session) p, (s.updateRow host p).1.notes = s.notes :=
    fun s p => notes_eq (s.view.entries_getProcessInfoEx host p) rfl
  unfold purgeRow
  split
  · rfl
  · rename_i p _
    dsimp only
    split
    · exact hupdate _ p
    · split
      · exact hupdate _ p
      · exact hupdate _ p

/-- So does the sort when the user has changed the column or direction. -/
theorem notes_sortIfDirty (specs : Option TableSpecs) :
    (s.sortIfDirty host specs).notes = s.notes := by
  unfold sortIfDirty
  split
  · split
    · exact notes_eq (ProcessesView.entries_doSort host _ _ _ _) rfl
    · rfl
  · rfl

/-- The menus of a row may only ask for its properties. -/
theorem notes_rowMenus (shiftDelete : Bool) (p : Ref ProcessInfo) (popup : Option PopupChoice) :
    (s.rowMenus host shiftDelete p popup).view.entries = s.view.entries ∧
      ∀ q ∈ (s.rowMenus host shiftDelete p popup).history.properties,
        q ∈ s.history.properties ∨ q = p := by
  have hdelete : (s.deleteKey shiftDelete).notes = s.notes := by
    unfold deleteKey
    split <;> rfl
  have hmenu : ∀ (s : Session) c, (s.contextMenu host p c).view.entries = s.view.entries ∧
      (s.contextMenu host p c).history.properties =
        if c.properties then s.history.properties ++ [p] else s.history.properties := by
    intro s c
    have hfile := ProcessesView.entries_getProcessInfoEx host
    unfold contextMenu gotoFileLocation
    dsimp only
    cases c.kill <;> cases c.goToFile <;> cases c.properties <;>
      first
      | exact ⟨rfl, rfl⟩
      | exact ⟨hfile _ p, rfl⟩
  unfold rowMenus
  split
  · exact ⟨rfl, fun _ => Or.inl⟩
  · cases popup with
    | none => exact ⟨congrArg Prod.fst hdelete, fun q hq => Or.inl (properties_eq hdelete ▸ hq)⟩
    | some c =>
      refine ⟨(hmenu _ c).1.trans (congrArg Prod.fst hdelete), fun q hq => ?_⟩
      dsimp only at hq
      rw [(hmenu _ c).2, properties_eq hdelete] at hq
      split at hq
      · simpa using hq
      · exact Or.inl hq

/-- The session when the rows of a frame are drawn. -/
def beforeRows (f : Frame) : Session :=
  ((s.afterPurge host f).sortIfDirty host f.specs).failureBox f.failureResult

/-- The positions of the rows that a frame hands to the list clipper. -/
def rowIndices (f : Frame) : List ℕ := ((s.beforePurge host f).purge host).indices

/-- The session when the list clipper has handed out some positions of a frame. -/
def afterRows (f : Frame) (visited : List RowVisit) : Session :=
  visited.foldl (drawRow host f.shiftDelete (s.rowIndices host f)) (s.beforeRows host f)

/-- A frame ends when all positions have been handed out. -/
theorem buildWindow_eq {f : Frame} (hopen : f.tableOpen = true) :
    s.buildWindow host f = s.afterRows host f f.visits := by
  rw [buildWindow, buildTable, if_pos hopen]
  rfl

/-- A frame whose table is closed ends after the tool bar. -/
theorem buildWindow_closed {f : Frame} (hopen : f.tableOpen = false) :
    s.buildWindow host f = s.buildToolBar f.toolBar := by
  rw [buildWindow, buildTable, if_neg (by simp [hopen])]

/-- With one more position, the row loop does what it does before it and then draws the row there.
-/
theorem afterRows_concat (f : Frame) (visited : List RowVisit) (visit : RowVisit) :
    s.afterRows host f (visited ++ [visit]) =
      (s.afterRows host f visited).drawRow host f.shiftDelete (s.rowIndices host f) visit := by
  simp [afterRows]

/-- The row at a position of the list clipper, unless it is hidden, and the session
after it has been drawn and perhaps clicked. -/
def drawnRow (indices : List ℕ) (s : Session) (visit : RowVisit) :
    Option (Session × Ref ProcessInfo) :=
  match indices[visit.position]? >>= fun i => s.view.processes[i]? with
  | none => none
  | some p =>
    let (px, v) := s.view.getProcessInfoEx host p
    if px.filtered then none
    else some ((noteDrawn { s with view := v } p).clickRow visit.clicked p, p)

/-- What drawing the row `p` and a click on it do. -/
structure Drawn (s : Session) (p : Ref ProcessInfo) (s' : Session) : Prop where
  /-- It is a row. -/
  row : p ∈ s.view.processes
  /-- The manager is the same. -/
  pm_eq : s'.view.pm = s.view.pm
  /-- The rows are the same. -/
  processes_eq : s'.view.processes = s.view.processes
  /-- The notes are the same. -/
  notes_eq : s'.notes = s.notes
  /-- The state of the dialog is the same. -/
  modalOpen_eq : s'.view.modalOpen = s.view.modalOpen
  /-- The selection is the same while the dialog is open. -/
  selected_eq : s.view.modalOpen = true → s'.view.selectedProcess = s.view.selectedProcess

/-- **The body of the row loop.** A position without a row to draw changes at most
the records, and a drawn row goes on to its menus and the dialog. -/
theorem drawRow_cases (shiftDelete : Bool) (indices : List ℕ) (visit : RowVisit) :
    (drawnRow host indices s visit = none ∧ s.Quiet (s.drawRow host shiftDelete indices visit) ∧
      s.SameDialog (s.drawRow host shiftDelete indices visit) ∧
      (s.drawRow host shiftDelete indices visit).notes = s.notes) ∨
    ∃ s' p, drawnRow host indices s visit = some (s', p) ∧ s.Drawn p s' ∧
      s.drawRow host shiftDelete indices visit =
        (s'.rowMenus host shiftDelete p visit.popup).rowDialog p visit.answer := by
  unfold drawnRow drawRow
  cases hfound : (indices[visit.position]? >>= fun i => s.view.processes[i]?) with
  | none => exact Or.inl ⟨rfl, .refl s, .refl s, rfl⟩
  | some p =>
    have hp := ProcessesView.mem_of_position hfound
    dsimp only
    cases (s.view.getProcessInfoEx host p).1.filtered with
    | true =>
      exact Or.inl ⟨rfl, .getProcessInfoEx host s hp, .getProcessInfoEx host s p,
        notes_eq (s.view.entries_getProcessInfoEx host p) rfl⟩
    | false =>
      refine Or.inr ⟨_, p, rfl, ?_, rfl⟩
      have hnoted :
          s.Drawn p (noteDrawn { s with view := (s.view.getProcessInfoEx host p).2 } p) := by
        rw [s.view.getProcessInfoEx_eq host p]
        exact ⟨hp, rfl, rfl, rfl, rfl, fun _ => rfl⟩
      unfold clickRow
      split
      · rename_i hclick
        rw [Bool.and_eq_true, Bool.not_eq_true', hnoted.modalOpen_eq] at hclick
        exact ⟨hp, hnoted.pm_eq, hnoted.processes_eq, hnoted.notes_eq, hnoted.modalOpen_eq,
          fun hopen => absurd (hclick.1.symm.trans hopen) Bool.false_ne_true⟩
      · exact hnoted

end Session

end ProcExpX
