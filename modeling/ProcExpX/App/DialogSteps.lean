import ProcExpX.App.PurgeLoop

/-!
# Steps that leave the dialog alone

Taking over the rows of the manager, sorting them and purging them changes neither
the selection nor the state of the kill dialog. These steps are collected here; the
ones that do change it are the subject of the next file.
-/

namespace ProcExpX

open Library WinSys

namespace ProcessesView

/-- Two views that agree on the manager, the selection and the state of the dialog. -/
structure SameSelection (v v' : ProcessesView) : Prop where
  /-- The manager. -/
  pm_eq : v'.pm = v.pm
  /-- The selection. -/
  selected_eq : v'.selectedProcess = v.selectedProcess
  /-- The state of the dialog. -/
  modalOpen_eq : v'.modalOpen = v.modalOpen

namespace SameSelection

variable {v v' v'' : ProcessesView}

/-- Every view has its own selection. -/
theorem refl (v : ProcessesView) : v.SameSelection v := ⟨rfl, rfl, rfl⟩

/-- Views that have the selection of the same view have the same selection. -/
theorem trans (h : v.SameSelection v') (h' : v'.SameSelection v'') : v.SameSelection v'' :=
  ⟨h'.pm_eq.trans h.pm_eq, h'.selected_eq.trans h.selected_eq,
    h'.modalOpen_eq.trans h.modalOpen_eq⟩

/-- `GetProcessInfoEx` leaves the manager, the selection and the dialog of a view alone. -/
theorem getProcessInfoEx (host : Host) (v : ProcessesView) (pi : Ref ProcessInfo) :
    v.SameSelection (v.getProcessInfoEx host pi).2 := by
  rw [getProcessInfoEx_eq]
  exact ⟨rfl, rfl, rfl⟩

/-- `DoSort` leaves the manager, the selection and the dialog of a view alone. -/
theorem doSort (host : Host) (v : ProcessesView) (answers : SortAnswers) (col : ℕ) (asc : Bool) :
    v.SameSelection (v.doSort host answers col asc) := by
  have hensure : ∀ (pis : List (Ref ProcessInfo)) (v : ProcessesView),
      v.SameSelection (v.ensureProcessInfoEx host pis) := by
    intro pis
    induction pis with
    | nil => exact refl
    | cons pi pis ih => exact fun v => (getProcessInfoEx host v pi).trans (ih _)
  unfold ProcessesView.doSort
  dsimp only
  split
  · exact ⟨(hensure _ v).pm_eq, (hensure _ v).selected_eq, (hensure _ v).modalOpen_eq⟩
  · exact ⟨rfl, rfl, rfl⟩

end SameSelection

end ProcessesView

namespace Session

/-- A step that leaves the manager, the selection and the dialog alone. -/
structure SameDialog (s s' : Session) : Prop where
  /-- The view. -/
  view : s.view.SameSelection s'.view
  /-- `TryKillProcess` was not called. -/
  attempts_eq : s'.history.attempts = s.history.attempts

namespace SameDialog

variable {s s' s'' : Session}

/-- Doing nothing leaves the dialog alone. -/
theorem refl (s : Session) : s.SameDialog s := ⟨.refl _, rfl⟩

/-- Two steps in turn that leave the dialog alone make up one. -/
theorem trans (h : s.SameDialog s') (h' : s'.SameDialog s'') : s.SameDialog s'' :=
  ⟨h.view.trans h'.view, h'.attempts_eq.trans h.attempts_eq⟩

/-- A step that is made under a condition leaves the dialog alone if it does so where the
condition holds. -/
theorem ite {c : Prop} [Decidable c] (h : c → s.SameDialog s') :
    s.SameDialog (if c then s' else s) := by
  split
  · rename_i hc
    exact h hc
  · exact refl s

/-- A loop leaves the dialog alone if each of its rounds does. -/
theorem foldl {β : Type} {f : Session → β → Session}
    (hf : ∀ (s : Session) b, s.SameDialog (f s b)) (l : List β)
    (s : Session) : s.SameDialog (l.foldl f s) := by
  induction l generalizing s with
  | nil => exact refl s
  | cons b l ih => exact (hf s b).trans (ih _)

/-- Looking up a record leaves the dialog alone. -/
theorem getProcessInfoEx (host : Host) (s : Session) (pi : Ref ProcessInfo) :
    s.SameDialog { s with view := (s.view.getProcessInfoEx host pi).2 } :=
  ⟨.getProcessInfoEx host _ _, rfl⟩

/-- `TogglePause` leaves the dialog alone. -/
theorem togglePause (s : Session) : s.SameDialog (s.onView ProcessesView.togglePause) := by
  refine ⟨?_, rfl⟩
  change s.view.SameSelection s.view.togglePause
  unfold ProcessesView.togglePause
  split <;> exact ⟨rfl, rfl, rfl⟩

/-- The interval menu leaves the dialog alone, whatever entry is chosen. -/
theorem intervalMenu (s : Session) (t : ToolBar) : s.SameDialog (s.intervalMenu t) := by
  unfold Session.intervalMenu
  split
  · rename_i item _
    cases item with
    | paused => exact togglePause s
    | _ => exact ⟨⟨rfl, rfl, rfl⟩, rfl⟩
  · exact refl s

/-- Taking over the rows of the manager leaves the dialog alone. -/
theorem takeRows (host : Host) (s : Session) (empty : Bool) :
    s.SameDialog (s.takeRows host empty) := by
  have hadd : ∀ (s : Session) pi, s.SameDialog (s.addNew host pi) := by
    intro s pi
    have hrecord := ProcessesView.SameSelection.getProcessInfoEx host
      { s.view with processes := s.view.processes ++ [pi] } pi
    exact ⟨⟨hrecord.pm_eq, hrecord.selected_eq, hrecord.modalOpen_eq⟩, rfl⟩
  have hmark : ∀ (s : Session) pi, s.SameDialog (s.markTerminated host pi) := by
    intro s pi
    have hrecord := ProcessesView.SameSelection.getProcessInfoEx host s.view pi
    exact ⟨⟨hrecord.pm_eq, hrecord.selected_eq, hrecord.modalOpen_eq⟩, rfl⟩
  cases empty with
  | true => exact ⟨⟨rfl, rfl, rfl⟩, rfl⟩
  | false => exact (foldl hadd _ s).trans (foldl hmark _ _)

/-- The sort and the stamp at the end of an update leave the dialog alone. -/
theorem sortAgain (host : Host) (s : Session) (r : Refresh) :
    s.SameDialog (s.sortAgain host r).stampTick := by
  have hsort : s.SameDialog (s.sortAgain host r) := ite fun _ => ⟨.doSort host _ _ _ _, rfl⟩
  exact hsort.trans ⟨⟨rfl, rfl, rfl⟩, rfl⟩

/-- The sort that is made when the user has changed the column or direction leaves the dialog
alone. -/
theorem sortIfDirty (host : Host) (s : Session) (specs : Option TableSpecs) :
    s.SameDialog (s.sortIfDirty host specs) := by
  unfold Session.sortIfDirty
  split
  · rename_i t
    refine ite fun _ => ⟨?_, rfl⟩
    have hset : s.view.SameSelection { s.view with specs := true } := ⟨rfl, rfl, rfl⟩
    exact hset.trans (.doSort host _ t.answers t.columnIndex t.ascending)
  · exact refl s

/-- The box that reports a failed kill is not the kill dialog, which it leaves alone. -/
theorem failureBox (s : Session) (result : MessageBoxResult) :
    s.SameDialog (s.failureBox result) := ite fun _ => ⟨⟨rfl, rfl, rfl⟩, rfl⟩

/-- The purge loop leaves the dialog alone, also where it erases the row of the selected process.
-/
theorem purge (host : Host) (s : Session) : s.SameDialog (s.purge host).session := by
  refine purge_keeps refl (fun _ _ _ => trans) (fun filter l => ?_) s
  have hupdate : ∀ (s : Session) p, s.SameDialog (s.updateRow host p).1 := by
    intro s p
    have hrecord := ProcessesView.SameSelection.getProcessInfoEx host s.view p
    exact ⟨⟨hrecord.pm_eq, hrecord.selected_eq, hrecord.modalOpen_eq⟩, rfl⟩
  unfold purgeRow
  split
  · exact refl _
  · rename_i p _
    dsimp only
    split
    · exact (hupdate _ p).trans ⟨⟨rfl, rfl, rfl⟩, rfl⟩
    · split
      · exact (hupdate _ p).trans ⟨⟨rfl, rfl, rfl⟩, rfl⟩
      · exact hupdate _ p

end SameDialog

/-- An update makes one call of the manager. -/
theorem refresh_pm (host : Host) (s : Session) (r : Refresh) :
    (s.refresh host r).view.pm = s.view.pm.step host.env (enumCall r.world) := by
  have hsame := (SameDialog.takeRows host (s.enumProcesses host r.world)
    s.view.processes.isEmpty).trans (SameDialog.sortAgain host _ r)
  exact hsame.view.pm_eq

/-- A row after the purge loop was one before. -/
theorem mem_of_mem_purge (host : Host) (s : Session) {pi : Ref ProcessInfo}
    (hpi : pi ∈ (s.purge host).session.view.processes) : pi ∈ s.view.processes := by
  refine purge_keeps (R := fun s s' => pi ∈ s'.view.processes → pi ∈ s.view.processes)
    (fun _ h => h) (fun _ _ _ h h' hpi => h (h' hpi)) (fun filter l => ?_) s hpi
  cases hrow : l.session.view.processes[l.i]? with
  | none => rw [purgeRow, hrow]; exact id
  | some p =>
    rcases Purge.purgeRow_cases host filter l hrow with he | hk
    · rw [he.processes_eq]
      exact List.mem_of_mem_eraseIdx
    · rw [hk.processes_eq]
      exact id

end Session

end ProcExpX
