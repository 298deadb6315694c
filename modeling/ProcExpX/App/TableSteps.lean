import ProcExpX.App.DialogSteps

/-!
# Steps that leave the table alone

The filter, the kill dialog, the menus of the rows and the drawing of the rows touch
neither the rows and their order nor what decides when the next update is due. These
steps are collected here.
-/

namespace ProcExpX

open Library WinSys

/-- What the rows are and what decides when they are updated. -/
structure Table where
  /-- The manager. -/
  pm : Impl
  /-- The time of the last update. -/
  tick : UInt64
  /-- The rows. -/
  processes : List (Ref ProcessInfo)
  /-- Whether there is a sort specification. -/
  specs : Bool
  /-- The interval between updates. -/
  updateInterval : Int32
  /-- The interval to go back to after a pause. -/
  oldInterval : Int32

/-- The same table with other rows. -/
def Table.withRows (t : Table) (rows : List (Ref ProcessInfo)) : Table :=
  { t with processes := rows }

/-- The table of a view. -/
def ProcessesView.table (v : ProcessesView) : Table :=
  { pm := v.pm, tick := v.tick, processes := v.processes, specs := v.specs
    updateInterval := v.updateInterval, oldInterval := v.oldInterval }

/-- `GetProcessInfoEx` leaves the table alone, since it only concerns the records. -/
@[simp] theorem ProcessesView.table_getProcessInfoEx (host : Host) (v : ProcessesView)
    (p : Ref ProcessInfo) : (v.getProcessInfoEx host p).2.table = v.table := by
  rw [getProcessInfoEx_eq]
  rfl

/-- Making records for several processes leaves the table alone as well. -/
@[simp] theorem ProcessesView.table_ensureProcessInfoEx (host : Host) (v : ProcessesView)
    (pis : List (Ref ProcessInfo)) : (v.ensureProcessInfoEx host pis).table = v.table :=
  foldl_keeps table (fun v p => v.table_getProcessInfoEx host p) pis v

/-- A sort only concerns the records and the order of the rows. -/
theorem ProcessesView.table_doSort (host : Host) (v : ProcessesView) (answers : SortAnswers)
    (col : ℕ) (asc : Bool) : (v.doSort host answers col asc).table =
      v.table.withRows
        (host.stdSort.sort (v.sortsBefore host answers col asc) v.processes) := by
  unfold doSort
  dsimp only
  split
  · rw [← v.table_ensureProcessInfoEx host v.processes]
    rfl
  · rfl

namespace Session

/-- A step that leaves the table alone, and the clock and the calls as well. -/
structure SameTable (s s' : Session) : Prop where
  /-- The table. -/
  table_eq : s'.view.table = s.view.table
  /-- The clock. -/
  clock_eq : s'.clock = s.clock
  /-- There was no enumeration. -/
  calls_eq : s'.history.calls = s.history.calls

namespace SameTable

variable {s s' s'' : Session}

/-- Doing nothing leaves the table alone. -/
theorem refl (s : Session) : s.SameTable s := ⟨rfl, rfl, rfl⟩

/-- Two steps in turn that leave the table alone make up one. -/
theorem trans (h : s.SameTable s') (h' : s'.SameTable s'') : s.SameTable s'' :=
  ⟨h'.table_eq.trans h.table_eq, h'.clock_eq.trans h.clock_eq, h'.calls_eq.trans h.calls_eq⟩

/-- A step that is made under a condition leaves the table alone if it does so where the condition
holds. -/
theorem ite {c : Prop} [Decidable c] (h : c → s.SameTable s') :
    s.SameTable (if c then s' else s) := by
  split
  · rename_i hc
    exact h hc
  · exact refl s

section Parts

variable (h : s.SameTable s')
include h

/-- A step that leaves the table alone leaves the manager alone. -/
theorem pm_eq : s'.view.pm = s.view.pm := congrArg Table.pm h.table_eq

/-- It leaves the time of the last update alone. -/
theorem tick_eq : s'.view.tick = s.view.tick := congrArg Table.tick h.table_eq

/-- It leaves the rows and their order alone. -/
theorem processes_eq : s'.view.processes = s.view.processes :=
  congrArg Table.processes h.table_eq

/-- After it there is a sort specification precisely if there was one before. -/
theorem specs_eq : s'.view.specs = s.view.specs := congrArg Table.specs h.table_eq

/-- It leaves the interval between updates alone. -/
theorem updateInterval_eq : s'.view.updateInterval = s.view.updateInterval :=
  congrArg Table.updateInterval h.table_eq

/-- It leaves the interval alone that resuming goes back to. -/
theorem oldInterval_eq : s'.view.oldInterval = s.view.oldInterval :=
  congrArg Table.oldInterval h.table_eq

end Parts

/-- Looking up a record leaves the table alone. -/
theorem getProcessInfoEx (host : Host) (s : Session) (p : Ref ProcessInfo) :
    s.SameTable { s with view := (s.view.getProcessInfoEx host p).2 } :=
  ⟨s.view.table_getProcessInfoEx host p, rfl, rfl⟩

/-- `TryKillProcess` leaves the table alone, however the dialog ends. -/
theorem tryKillProcess (s : Session) (answer : DialogAnswer) (p : Ref ProcessInfo) :
    s.SameTable (s.tryKillProcess answer p).1 := by
  unfold Session.tryKillProcess
  dsimp only
  split
  · exact ⟨rfl, rfl, rfl⟩
  · refine ⟨?_, rfl, rfl⟩
    dsimp only
    split <;> rfl
  · exact ⟨rfl, rfl, rfl⟩

/-- The filter field and the Kill button leave the table alone until the next purge loop. -/
theorem killButton (s : Session) (t : ToolBar) : s.SameTable ((s.editFilter t).killButton t) := by
  have hfilter : s.SameTable (s.editFilter t) := ⟨rfl, rfl, rfl⟩
  refine hfilter.trans ?_
  unfold Session.killButton
  split
  · exact ite fun _ => tryKillProcess _ _ _
  · exact refl _

/-- The box that reports a failed kill leaves the table alone. -/
theorem failureBox (s : Session) (result : MessageBoxResult) :
    s.SameTable (s.failureBox result) := ite fun _ => ⟨rfl, rfl, rfl⟩

/-- The context menu of a row leaves the table alone, whatever entries are chosen. -/
theorem contextMenu (host : Host) (s : Session) (p : Ref ProcessInfo) (c : PopupChoice) :
    s.SameTable (s.contextMenu host p c) := by
  have hkill : ∀ s : Session, s.SameTable (if c.kill then s.openDialog else s) :=
    fun s => ite fun _ => ⟨rfl, rfl, rfl⟩
  have hfile : ∀ s : Session,
      s.SameTable (if c.goToFile then s.gotoFileLocation host p else s) :=
    fun s => ite fun _ => getProcessInfoEx host s p
  have hproperties : ∀ s : Session,
      s.SameTable (if c.properties then s.getOrAddProcessProperties p else s) :=
    fun s => ite fun _ => ⟨rfl, rfl, rfl⟩
  have hselect : s.SameTable (s.select p) := ⟨rfl, rfl, rfl⟩
  exact ((hselect.trans (hkill _)).trans (hfile _)).trans (hproperties _)

/-- The Delete key and the context menu of a row leave the table alone. -/
theorem rowMenus (host : Host) (s : Session) (shiftDelete : Bool) (p : Ref ProcessInfo)
    (popup : Option PopupChoice) : s.SameTable (s.rowMenus host shiftDelete p popup) := by
  have hdelete : s.SameTable (s.deleteKey shiftDelete) := ite fun _ => ⟨rfl, rfl, rfl⟩
  unfold Session.rowMenus
  split
  · exact refl s
  · cases popup with
    | none => exact hdelete
    | some c => exact hdelete.trans (contextMenu host _ p c)

/-- The dialog of a row leaves the table alone, however it ends. -/
theorem rowDialog (s : Session) (p : Ref ProcessInfo) (answer : DialogAnswer) :
    s.SameTable (s.rowDialog p answer) :=
  ite fun _ => (tryKillProcess s answer p).trans (ite fun _ => ⟨rfl, rfl, rfl⟩)

/-- The body of the row loop leaves the table alone, whether it draws the row or not. -/
theorem drawRow (host : Host) (shiftDelete : Bool) (indices : List ℕ) (s : Session)
    (visit : RowVisit) : s.SameTable (s.drawRow host shiftDelete indices visit) := by
  unfold Session.drawRow
  split
  · exact refl s
  · rename_i p _
    dsimp only
    have hrecord := getProcessInfoEx host s p
    split
    · exact hrecord
    · have hnoted : s.SameTable
          (noteDrawn { s with view := (s.view.getProcessInfoEx host p).2 } p) :=
        hrecord.trans ⟨rfl, rfl, rfl⟩
      have hclicked : ∀ s : Session, s.SameTable (s.clickRow visit.clicked p) :=
        fun s => ite fun _ => ⟨rfl, rfl, rfl⟩
      exact ((hnoted.trans (hclicked _)).trans (rowMenus host _ shiftDelete p _)).trans
        (rowDialog _ p _)

/-- The row loop leaves the table alone, since each of its rounds does. -/
theorem drawRows (host : Host) (shiftDelete : Bool) (indices : List ℕ) (visits : List RowVisit)
    (s : Session) : s.SameTable (visits.foldl (Session.drawRow host shiftDelete indices) s) := by
  induction visits generalizing s with
  | nil => exact refl s
  | cons visit visits ih => exact (drawRow host shiftDelete indices s visit).trans (ih _)

end SameTable

/-- From its sort on the rest of a frame leaves the table alone. -/
theorem SameTable.drawTable (host : Host) (f : Frame) (l : Purge) :
    (l.session.sortIfDirty host f.specs).SameTable (drawTable host f l) :=
  (failureBox _ _).trans (drawRows host _ _ _ _)

/-- The sort of a frame arranges the rows by what the user has chosen, if that is new. -/
theorem sortIfDirty_table (host : Host) (s : Session) (specs : Option TableSpecs) :
    (s.sortIfDirty host specs).view.table =
      match specs.filter (·.dirty) with
      | some t => { s.view.table with
          specs := true
          processes := host.stdSort.sort
            (s.view.sortsBefore host t.answers t.columnIndex t.ascending) s.view.processes }
      | none => s.view.table := by
  unfold sortIfDirty
  cases specs with
  | none => rfl
  | some t =>
    dsimp only
    cases hdirty : t.dirty with
    | true =>
      rw [if_pos rfl, Option.filter_some, hdirty]
      exact ProcessesView.table_doSort host _ _ _ _
    | false =>
      rw [if_neg Bool.false_ne_true, Option.filter_some, hdirty]
      rfl

/-- The purge loop takes rows out and leaves the rest of the table alone. -/
theorem purge_table (host : Host) (s : Session) :
    (s.purge host).session.view.processes.Sublist s.view.processes ∧
      (s.purge host).session.view.table.withRows [] = s.view.table.withRows [] := by
  refine purge_keeps (R := fun s s' => s'.view.processes.Sublist s.view.processes ∧
    s'.view.table.withRows [] = s.view.table.withRows []) (fun s => ⟨.refl _, rfl⟩)
    (fun s s' s'' h h' => ⟨h'.1.trans h.1, h'.2.trans h.2⟩) (fun filter l => ?_) s
  have hupdate : ∀ (s : Session) p, (s.updateRow host p).1.view.table = s.view.table :=
    fun s p => s.view.table_getProcessInfoEx host p
  unfold purgeRow
  split
  · exact ⟨.refl _, rfl⟩
  · rename_i p _
    have hrow := hupdate l.session p
    have hprocesses : (l.session.updateRow host p).1.view.processes = l.session.view.processes :=
      congrArg Table.processes hrow
    have hrest := congrArg (Table.withRows · []) hrow
    dsimp only
    split
    · exact ⟨hprocesses ▸ List.eraseIdx_sublist _ l.i, hrest⟩
    · split
      · exact ⟨hprocesses ▸ .refl _, hrest⟩
      · exact ⟨hprocesses ▸ .refl _, hrest⟩

/-- Taking over the rows of the manager leaves the rest of the table alone. -/
theorem takeRows_table (host : Host) (s : Session) (empty : Bool) :
    (s.takeRows host empty).view.table.withRows [] = s.view.table.withRows [] := by
  have hadd : ∀ (s : Session) pi,
      (s.addNew host pi).view.table.withRows [] = s.view.table.withRows [] := by
    intro s pi
    have hrecord := ProcessesView.table_getProcessInfoEx host
      { s.view with processes := s.view.processes ++ [pi] } pi
    have hbare := congrArg (Table.withRows · []) hrecord
    exact hbare
  have hmark : ∀ (s : Session) pi,
      (s.markTerminated host pi).view.table.withRows [] = s.view.table.withRows [] :=
    fun s pi => congrArg (Table.withRows · []) (s.view.table_getProcessInfoEx host pi)
  cases empty with
  | true => rfl
  | false =>
    exact (foldl_keeps (fun s : Session => s.view.table.withRows []) hmark _ _).trans
      (foldl_keeps (fun s : Session => s.view.table.withRows []) hadd _ s)

end Session

end ProcExpX
