import ProcExpX.App.ProcessesView
import ProcExpX.Library.SideTable

/-!
# Steps that keep the rows

Outside an update and the purge loop a frame may reorder the rows and make records
for rows that have none, and it may change everything about the selection and the
dialog. It neither adds nor removes a row. This is what the invariants of the rows
rely on.
-/

namespace ProcExpX

open Library WinSys

namespace ProcessesView

/-- Views on the same manager agree on keys. -/
theorem key_congr {v v' : ProcessesView} (hpm : v'.pm = v.pm) : v'.key = v.key := by
  funext pi
  rw [key, hpm, key]

/-- What is found at a noted position is a row. -/
theorem mem_of_position {v : ProcessesView} {indices : List ℕ} {position : ℕ}
    {p : Ref ProcessInfo}
    (h : (indices[position]? >>= fun i => v.processes[i]?) = some p) : p ∈ v.processes := by
  obtain ⟨i, _, hi⟩ := Option.bind_eq_some_iff.mp h
  exact List.mem_of_getElem? hi

section Records

variable (host : Host) (v : ProcessesView) (pi : Ref ProcessInfo)

/-- `GetProcessInfoEx` inserts a record unless there is one, and returns the record
that is then there. -/
theorem getProcessInfoEx_eq : v.getProcessInfoEx host pi =
    (v.infoEx host pi, { v with
      processesEx := v.processesEx.insertNew (v.key pi) (.make (host.rawExpiry pi) pi) }) := by
  unfold getProcessInfoEx infoEx
  cases hlookup : v.processesEx.lookup (v.key pi) with
  | none => simp
  | some px =>
    have hmem : v.key pi ∈ v.processesEx :=
      AList.lookup_isSome.mp (Option.isSome_of_eq_some hlookup)
    simp [UnorderedMap.insertNew, hmem]

/-- After `GetProcessInfoEx` there is a record for the process, and those under other keys are as
they were. -/
theorem lookup_getProcessInfoEx (k : ProcessOrThreadKey) :
    (v.getProcessInfoEx host pi).2.processesEx.lookup k =
      if k = v.key pi then some (v.infoEx host pi) else v.processesEx.lookup k := by
  rw [getProcessInfoEx_eq]
  exact UnorderedMap.lookup_insertNew _ _ _ _

/-- A record that is written is found under the key of its process, and those under other keys are
as they were. -/
theorem lookup_setProcessInfoEx (px : ProcessInfoEx) (k : ProcessOrThreadKey) :
    (v.setProcessInfoEx pi px).processesEx.lookup k =
      if k = v.key pi then some px else v.processesEx.lookup k := by
  by_cases hk : k = v.key pi
  · rw [if_pos hk, hk]
    exact AList.lookup_insert _
  · rw [if_neg hk]
    exact AList.lookup_insert_ne hk

/-- A record that is written through the reference that `GetProcessInfoEx` returned is found under
the key of its process, and those under other keys are as they were. -/
theorem lookup_set_getProcessInfoEx (px : ProcessInfoEx) (k : ProcessOrThreadKey) :
    ((v.getProcessInfoEx host pi).2.setProcessInfoEx pi px).processesEx.lookup k =
      if k = v.key pi then some px else v.processesEx.lookup k := by
  have hkey : (v.getProcessInfoEx host pi).2.key pi = v.key pi := by rw [getProcessInfoEx_eq]; rfl
  rw [lookup_setProcessInfoEx, hkey, lookup_getProcessInfoEx]
  by_cases hk : k = v.key pi <;> simp [hk]

end Records

/-- A view differs from another in the order of its rows, in records made for rows
that had none, and in what does not concern rows. -/
structure Rearranged (v v' : ProcessesView) : Prop where
  /-- The manager is the same. -/
  pm_eq : v'.pm = v.pm
  /-- The rows are the same up to their order. -/
  perm : v'.processes.Perm v.processes
  /-- A record is the same, or it was missing and has been made for a row. -/
  records : ∀ k, v'.processesEx.lookup k = v.processesEx.lookup k ∨
    v.processesEx.lookup k = none ∧ ∃ px, v'.processesEx.lookup k = some px ∧
      px.pi ∈ v.processes ∧ v.key px.pi = k ∧ px.isTerminated = false

namespace Rearranged

variable {v v' v'' : ProcessesView}

/-- A view with the same manager, rows and records is rearranged, whatever else differs. -/
theorem of_eq (hpm : v'.pm = v.pm) (hrows : v'.processes = v.processes)
    (hrecords : v'.processesEx = v.processesEx) : v.Rearranged v' :=
  ⟨hpm, hrows ▸ List.Perm.refl _, fun k => Or.inl (by rw [hrecords])⟩

/-- Every view is a rearrangement of itself. -/
theorem refl (v : ProcessesView) : v.Rearranged v := of_eq rfl rfl rfl

/-- A rearrangement leaves the keys of all processes alone. -/
theorem key_eq (h : v.Rearranged v') : v'.key = v.key := key_congr h.pm_eq

/-- Two rearrangements in turn make up one, since a record that the first has made stays in the
second. -/
theorem trans (h : v.Rearranged v') (h' : v'.Rearranged v'') : v.Rearranged v'' := by
  refine ⟨h'.pm_eq.trans h.pm_eq, h'.perm.trans h.perm, fun k => ?_⟩
  rcases h'.records k with hsame' | ⟨hnone', px, hpx, hmem, hkey, hmark⟩
  · rw [hsame']
    exact h.records k
  · rcases h.records k with hsame | ⟨_, px', hpx', _⟩
    · refine Or.inr ⟨hsame ▸ hnone', px, hpx, h.perm.mem_iff.mp hmem, ?_, hmark⟩
      rw [← h.key_eq, hkey]
    · rw [hpx'] at hnone'
      cases hnone'

/-- `GetProcessInfoEx` rearranges a view if it is called for a row. -/
theorem getProcessInfoEx (host : Host) {pi : Ref ProcessInfo} (hpi : pi ∈ v.processes) :
    v.Rearranged (v.getProcessInfoEx host pi).2 := by
  refine ⟨by rw [getProcessInfoEx_eq], by rw [getProcessInfoEx_eq], fun k => ?_⟩
  rw [lookup_getProcessInfoEx, infoEx]
  by_cases hk : k = v.key pi
  · subst hk
    rw [if_pos rfl]
    cases hlookup : v.processesEx.lookup (v.key pi) with
    | none => exact Or.inr ⟨rfl, _, rfl, hpi, rfl, rfl⟩
    | some px => exact Or.inl rfl
  · rw [if_neg hk]
    exact Or.inl rfl

/-- Making records for several rows rearranges a view. -/
theorem ensureProcessInfoEx (host : Host) (v : ProcessesView) (pis : List (Ref ProcessInfo))
    (hpis : ∀ pi ∈ pis, pi ∈ v.processes) : v.Rearranged (v.ensureProcessInfoEx host pis) := by
  induction pis generalizing v with
  | nil => exact refl v
  | cons pi pis ih =>
    have hfirst := getProcessInfoEx host (hpis pi (by simp))
    refine hfirst.trans (ih _ fun pi' hpi' => ?_)
    exact hfirst.perm.mem_iff.mpr (hpis pi' (by simp [hpi']))

end Rearranged

/-- The comparison of every column is a strict weak order if that of strings is. -/
theorem sortsBeforeBy_strictWeak {sortStrings : WString → WString → Bool → Bool} {asc : Bool}
    (hstrings : StrictWeak fun s1 s2 => sortStrings s1 s2 asc) (v : ProcessesView)
    (answers : SortAnswers) (col : ℕ) :
    StrictWeak (v.sortsBeforeBy sortStrings answers col asc) := by
  unfold sortsBeforeBy
  split
  · exact hstrings.on fun r => (v.pm.process r).processName
  · exact SortHelper.sortUInt32_strictWeak asc fun r => (v.pm.process r).id
  · exact hstrings.on answers.userName
  · exact SortHelper.sortUInt32_strictWeak asc fun r => (v.pm.process r).sessionId
  · exact SortHelper.sortInt32_strictWeak asc fun r => (v.pm.process r).cpu
  · exact SortHelper.sortUInt32_strictWeak asc fun r => (v.pm.process r).parentId
  · exact SortHelper.sortInt64_strictWeak asc fun r => (v.pm.process r).createTime
  · exact SortHelper.sortUInt64_strictWeak asc fun r => (v.pm.process r).privatePageCount
  · exact SortHelper.sortInt32_strictWeak asc fun r => (v.pm.process r).basePriority
  · exact SortHelper.sortUInt32_strictWeak asc fun r => (v.pm.process r).threadCount
  · exact SortHelper.sortUInt32_strictWeak asc fun r => (v.pm.process r).handleCount
  · exact SortHelper.sortUInt64_strictWeak asc fun r => (v.pm.process r).workingSetSize
  · exact hstrings.on answers.executablePath
  · exact SortHelper.sortInt64_strictWeak asc fun r =>
      (v.pm.process r).kernelTime + (v.pm.process r).userTime
  · exact SortHelper.sortUInt32_strictWeak asc fun r => (v.pm.process r).peakThreads
  · exact SortHelper.sortUInt64_strictWeak asc fun r => (v.pm.process r).virtualSize
  · exact SortHelper.sortUInt64_strictWeak asc fun r => (v.pm.process r).peakWorkingSetSize
  · exact SortHelper.sortInt32_strictWeak asc answers.attributes
  · exact SortHelper.sortUInt64_strictWeak asc fun r => (v.pm.process r).pagedPoolUsage
  · exact StrictWeak.never

/-- The comparison of every column is a strict weak order. -/
theorem sortsBefore_strictWeak (host : Host) (v : ProcessesView) (answers : SortAnswers) (col : ℕ)
    (asc : Bool) : StrictWeak (v.sortsBefore host answers col asc) :=
  sortsBeforeBy_strictWeak (SortHelper.sortStrings_strictWeak host.locale asc) v answers col

/-- A sort rearranges a view: it permutes the rows and makes records for them at most. -/
theorem rearranged_doSort (host : Host) (v : ProcessesView) (answers : SortAnswers) (col : ℕ)
    (asc : Bool) : v.Rearranged (v.doSort host answers col asc) := by
  have hsort := host.stdSort.perm v.processes (v.sortsBefore_strictWeak host answers col asc)
  have hensure := Rearranged.ensureProcessInfoEx host v v.processes fun _ hpi => hpi
  unfold doSort
  dsimp only
  split
  · exact ⟨hensure.pm_eq, hsort, hensure.records⟩
  · exact ⟨rfl, hsort, fun k => Or.inl rfl⟩

end ProcessesView

namespace Session

/-- A step that keeps the rows: it rearranges the view and leaves alone what has
been recorded about enumerations and rows. -/
structure Quiet (s s' : Session) : Prop where
  /-- The view is rearranged. -/
  view : s.view.Rearranged s'.view
  /-- There was no enumeration. -/
  calls_eq : s'.history.calls = s.history.calls
  /-- No `Update` was called. -/
  updates_eq : s'.history.updates = s.history.updates

namespace Quiet

variable {s s' s'' : Session}

/-- Doing nothing keeps the rows. -/
theorem refl (s : Session) : s.Quiet s := ⟨.refl _, rfl, rfl⟩

/-- Two steps in turn that keep the rows make up one. -/
theorem trans (h : s.Quiet s') (h' : s'.Quiet s'') : s.Quiet s'' :=
  ⟨h.view.trans h'.view, h'.calls_eq.trans h.calls_eq, h'.updates_eq.trans h.updates_eq⟩

/-- A change of the view alone keeps the rows if it rearranges the view. -/
theorem onView {f : ProcessesView → ProcessesView} (h : s.view.Rearranged (f s.view)) :
    s.Quiet (s.onView f) := ⟨h, rfl, rfl⟩

/-- A step that is made under a condition keeps the rows if it does so where the condition holds.
-/
theorem ite {c : Prop} [Decidable c] (h : c → s.Quiet s') : s.Quiet (if c then s' else s) := by
  split
  · rename_i hc
    exact h hc
  · exact refl s

/-- `TryKillProcess` keeps the rows, however the dialog ends. -/
theorem tryKillProcess (s : Session) (answer : DialogAnswer) (pi : Ref ProcessInfo) :
    s.Quiet (s.tryKillProcess answer pi).1 := by
  unfold Session.tryKillProcess
  dsimp only
  split
  · exact ⟨.of_eq rfl rfl rfl, rfl, rfl⟩
  · refine ⟨?_, rfl, rfl⟩
    dsimp only
    split <;> exact .of_eq rfl rfl rfl
  · exact ⟨.of_eq rfl rfl rfl, rfl, rfl⟩

/-- `TogglePause` keeps the rows. -/
theorem togglePause (s : Session) : s.Quiet (s.onView ProcessesView.togglePause) := by
  refine onView ?_
  unfold ProcessesView.togglePause
  split <;> exact .of_eq rfl rfl rfl

/-- The Kill button keeps the rows, also where it shows the dialog. -/
theorem killButton (s : Session) (t : ToolBar) : s.Quiet (s.killButton t) := by
  unfold Session.killButton
  split
  · exact ite fun _ => tryKillProcess s _ _
  · exact refl s

/-- The interval menu keeps the rows, whatever entry is chosen. -/
theorem intervalMenu (s : Session) (t : ToolBar) : s.Quiet (s.intervalMenu t) := by
  unfold Session.intervalMenu
  split
  · rename_i item _
    cases item with
    | paused => exact togglePause s
    | _ => exact onView (.of_eq rfl rfl rfl)
  · exact refl s

/-- `BuildToolBar` keeps the rows, whatever the user does in it. -/
theorem buildToolBar (s : Session) (t : ToolBar) : s.Quiet (s.buildToolBar t) := by
  have hfilter : s.Quiet (s.editFilter t) := onView (.of_eq rfl rfl rfl)
  exact (hfilter.trans (killButton _ t)).trans (intervalMenu _ t)

/-- The sort that is made when the user has changed the column or direction keeps the rows. -/
theorem sortIfDirty (host : Host) (s : Session) (specs : Option TableSpecs) :
    s.Quiet (s.sortIfDirty host specs) := by
  unfold Session.sortIfDirty
  split
  · rename_i t
    refine ite fun _ => onView ?_
    have hset : s.view.Rearranged { s.view with specs := true } := .of_eq rfl rfl rfl
    exact hset.trans (ProcessesView.rearranged_doSort host _ t.answers t.columnIndex t.ascending)
  · exact refl s

/-- The sort after an update keeps the rows. -/
theorem sortAgain (host : Host) (s : Session) (r : Refresh) : s.Quiet (s.sortAgain host r) :=
  ite fun _ => onView (ProcessesView.rearranged_doSort host _ _ _ _)

/-- Remembering the time of an update keeps the rows. -/
theorem stampTick (s : Session) : s.Quiet s.stampTick := ⟨.of_eq rfl rfl rfl, rfl, rfl⟩

/-- The box that reports a failed kill keeps the rows. -/
theorem failureBox (s : Session) (result : MessageBoxResult) : s.Quiet (s.failureBox result) :=
  ite fun _ => onView (.of_eq rfl rfl rfl)

/-- Selecting a process keeps the rows. -/
theorem select (s : Session) (p : Ref ProcessInfo) : s.Quiet (s.select p) :=
  onView (.of_eq rfl rfl rfl)

/-- Asking for the kill dialog keeps the rows. -/
theorem openDialog (s : Session) : s.Quiet s.openDialog := onView (.of_eq rfl rfl rfl)

/-- Looking up the record of a row keeps the rows. -/
theorem getProcessInfoEx (host : Host) (s : Session) {p : Ref ProcessInfo}
    (hp : p ∈ s.view.processes) :
    s.Quiet { s with view := (s.view.getProcessInfoEx host p).2 } :=
  ⟨.getProcessInfoEx host hp, rfl, rfl⟩

/-- The context menu of a row keeps the rows, whatever entries are chosen. -/
theorem contextMenu (host : Host) (s : Session) {p : Ref ProcessInfo}
    (hp : p ∈ s.view.processes) (c : PopupChoice) : s.Quiet (s.contextMenu host p c) := by
  have hkill : ∀ s : Session, s.Quiet (if c.kill then s.openDialog else s) :=
    fun s => ite fun _ => openDialog s
  have hfile : ∀ s : Session, p ∈ s.view.processes →
      s.Quiet (if c.goToFile then s.gotoFileLocation host p else s) :=
    fun s hp => ite fun _ => getProcessInfoEx host s hp
  have hproperties : ∀ s : Session,
      s.Quiet (if c.properties then s.getOrAddProcessProperties p else s) :=
    fun s => ite fun _ => ⟨.refl _, rfl, rfl⟩
  have hfirst := (select s p).trans (hkill _)
  have hp' := hfirst.view.perm.mem_iff.mpr hp
  exact (hfirst.trans (hfile _ hp')).trans (hproperties _)

/-- The Delete key and the context menu of a row keep the rows. -/
theorem rowMenus (host : Host) (s : Session) {p : Ref ProcessInfo} (hp : p ∈ s.view.processes)
    (shiftDelete : Bool) (popup : Option PopupChoice) :
    s.Quiet (s.rowMenus host shiftDelete p popup) := by
  have hdelete : s.Quiet (s.deleteKey shiftDelete) := ite fun _ => openDialog s
  unfold Session.rowMenus
  split
  · exact refl s
  · cases popup with
    | none => exact hdelete
    | some c => exact hdelete.trans (contextMenu host _ (hdelete.view.perm.mem_iff.mpr hp) c)

/-- The dialog of a row keeps the rows, however it ends. -/
theorem rowDialog (s : Session) (p : Ref ProcessInfo) (answer : DialogAnswer) :
    s.Quiet (s.rowDialog p answer) := by
  have hkill := tryKillProcess s answer p
  exact ite fun _ => hkill.trans (ite fun _ => onView (.of_eq rfl rfl rfl))

/-- The body of the row loop keeps the rows, whether it draws the row or not. -/
theorem drawRow (host : Host) (shiftDelete : Bool) (indices : List ℕ) (s : Session)
    (visit : RowVisit) : s.Quiet (s.drawRow host shiftDelete indices visit) := by
  unfold Session.drawRow
  split
  · exact refl s
  · rename_i p hfound
    have hp := ProcessesView.mem_of_position hfound
    have hrecord := getProcessInfoEx host s hp
    dsimp only
    split
    · exact hrecord
    · have hdrawn : ∀ s : Session, s.Quiet (s.noteDrawn p) := fun _ => ⟨.refl _, rfl, rfl⟩
      have hclick : ∀ s : Session, s.Quiet (s.clickRow visit.clicked p) :=
        fun s => ite fun _ => select s p
      have hfirst := (hrecord.trans (hdrawn _)).trans (hclick _)
      have hp' := hfirst.view.perm.mem_iff.mpr hp
      exact (hfirst.trans (rowMenus host _ hp' _ _)).trans (rowDialog _ _ _)

/-- The row loop keeps the rows, since each of its rounds does. -/
theorem drawRows (host : Host) (shiftDelete : Bool) (indices : List ℕ) (s : Session)
    (visits : List RowVisit) :
    s.Quiet (visits.foldl (Session.drawRow host shiftDelete indices) s) := by
  induction visits generalizing s with
  | nil => exact refl s
  | cons visit visits ih => exact (drawRow host shiftDelete indices s visit).trans (ih _)

/-- **The rest of a frame.** After the purge loop no row is added or removed. -/
theorem drawTable (host : Host) (f : Frame) (l : Purge) :
    l.session.Quiet (drawTable host f l) := by
  have hsort := sortIfDirty host l.session f.specs
  exact (hsort.trans (failureBox _ _)).trans (drawRows host _ _ _ _)

end Quiet

end Session

end ProcExpX
