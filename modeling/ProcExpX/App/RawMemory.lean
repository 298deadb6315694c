import ProcExpX.App.RowSteps
import ProcExpX.WinSys.RawObjects

/-!
# Memory as it was found

Constructors leave the expiry time of a record, the old interval of the view and the members of
process objects as the memory was. Two runs that meet the same and differ only in what memory
held do the same: the expiry time is read for marked records only, the old interval after a
pause only.
-/

namespace ProcExpX

open Library WinSys

/-- What memory holds that is handed out. -/
structure RawMemory where
  /-- Where the expiry time of a new record goes. -/
  rawExpiry : Ref ProcessInfo → UInt64
  /-- Where new process objects go. -/
  rawProcesses : ℕ → ProcessInfo
  /-- Where new thread objects go. -/
  rawThreads : ℕ → ThreadInfo
  /-- Where `_oldInterval` goes. -/
  rawInterval : Int32

/-- The same host with other memory. -/
def Host.withMemory (host : Host) (raw : RawMemory) : Host :=
  { host with
    rawExpiry := raw.rawExpiry, rawProcesses := raw.rawProcesses, rawThreads := raw.rawThreads
    rawInterval := raw.rawInterval }

/-- Two records agree, but for an expiry time that is not in use. -/
structure ProcessInfoEx.Agrees (px px' : ProcessInfoEx) : Prop where
  /-- The process. -/
  pi_eq : px'.pi = px.pi
  /-- The mark of a new process. -/
  isNew_eq : px'.isNew = px.isNew
  /-- The mark of a terminated one. -/
  isTerminated_eq : px'.isTerminated = px.isTerminated
  /-- Whether the row is hidden. -/
  filtered_eq : px'.filtered = px.filtered
  /-- The expiry time of a marked record. -/
  expiryTime_eq : px.isNew = true ∨ px.isTerminated = true → px'.expiryTime = px.expiryTime

/-- Two views agree, but for memory that is not in use. -/
structure ProcessesView.Agrees (v v' : ProcessesView) : Prop where
  /-- The manager. -/
  pm : v.pm.Agrees v'.pm
  /-- The time of the last update. -/
  tick_eq : v'.tick = v.tick
  /-- The filter. -/
  filterText_eq : v'.filterText = v.filterText
  /-- The rows. -/
  processes_eq : v'.processes = v.processes
  /-- The records. -/
  records : ∀ k, Option.Rel ProcessInfoEx.Agrees (v.processesEx.lookup k) (v'.processesEx.lookup k)
  /-- Whether the table has been sorted. -/
  specs_eq : v'.specs = v.specs
  /-- The selection. -/
  selectedProcess_eq : v'.selectedProcess = v.selectedProcess
  /-- The interval. -/
  updateInterval_eq : v'.updateInterval = v.updateInterval
  /-- The interval before a pause. -/
  oldInterval_eq : v.updateInterval = 0 → v'.oldInterval = v.oldInterval
  /-- The kill dialog. -/
  modalOpen_eq : v'.modalOpen = v.modalOpen
  /-- The box that reports a failed kill. -/
  killFailed_eq : v'.killFailed = v.killFailed
  /-- The rows have been handed out. -/
  rows_live : ∀ pi ∈ v.processes, v.pm.processHeap.Live pi
  /-- The selected process has. -/
  selected_live : ∀ pi, v.selectedProcess = some pi → v.pm.processHeap.Live pi

/-- Two sessions agree, but for memory that is not in use. -/
structure Session.Agrees (s s' : Session) : Prop where
  /-- The view. -/
  view : s.view.Agrees s'.view
  /-- The clock. -/
  clock_eq : s'.clock = s.clock
  /-- The history. -/
  history_eq : s'.history = s.history

namespace ProcessInfoEx

/-- Two records that have just been made for a process agree, whatever the memory held where their
expiry times go. -/
theorem make_agrees (rawExpiry rawExpiry' : UInt64) (pi : Ref ProcessInfo) :
    (make rawExpiry pi).Agrees (make rawExpiry' pi) :=
  ⟨rfl, rfl, rfl, rfl, fun hmarked => by simp [make] at hmarked⟩

variable {px px' : ProcessInfoEx} (h : px.Agrees px')
include h

/-- Two records that agree go on to agree when both are marked as new, and from then on they have
the same expiry time. -/
theorem Agrees.new (ms : UInt32) (clock : Clock) :
    (px.new ms clock).1.Agrees (px'.new ms clock).1 :=
  ⟨h.pi_eq, rfl, h.isTerminated_eq, h.filtered_eq, fun _ => rfl⟩

/-- Two records that agree go on to agree when both are marked as terminated, and from then on
they have the same expiry time. -/
theorem Agrees.term (ms : UInt32) (clock : Clock) :
    (px.term ms clock).1.Agrees (px'.term ms clock).1 :=
  ⟨h.pi_eq, rfl, rfl, h.filtered_eq, fun _ => rfl⟩

/-- Two records that agree go on to agree when both rows are hidden or shown. -/
theorem Agrees.setFiltered (filtered : Bool) :
    Agrees { px with filtered := filtered } { px' with filtered := filtered } :=
  ⟨h.pi_eq, h.isNew_eq, h.isTerminated_eq, rfl, h.expiryTime_eq⟩

/-- **Update.** It answers the same for both, after as many readings. -/
theorem Agrees.update (clock : Clock) :
    (px'.update clock).1 = (px.update clock).1 ∧
      (px.update clock).2.1.Agrees (px'.update clock).2.1 ∧
        (px'.update clock).2.2 = (px.update clock).2.2 := by
  unfold ProcessInfoEx.update
  rw [h.isNew_eq, h.isTerminated_eq]
  by_cases hmarked : px.isNew = true ∨ px.isTerminated = true
  · rw [if_neg (by simpa [or_iff_not_imp_left] using hmarked),
      if_neg (by simpa [or_iff_not_imp_left] using hmarked)]
    dsimp only
    rw [h.expiryTime_eq hmarked]
    split
    · exact ⟨rfl, ⟨h.pi_eq, rfl, rfl, h.filtered_eq, fun hon => by simp at hon⟩, rfl⟩
    · exact ⟨rfl, h, rfl⟩
  · rw [if_pos (by simpa [not_or] using hmarked), if_pos (by simpa [not_or] using hmarked)]
    exact ⟨rfl, h, rfl⟩

end ProcessInfoEx

namespace ProcessesView.Agrees

variable {v v' : ProcessesView} (h : v.Agrees v')
include h

/-- A process that has been handed out has the same key in both views. -/
theorem key_eq {pi : Ref ProcessInfo} (hlive : v.pm.processHeap.Live pi) :
    v'.key pi = v.key pi :=
  h.pm.key_eq hlive

/-- Two views that agree go on to agree with other tables of records, if these agree under every
key. -/
theorem withRecords {t t' : UnorderedMap ProcessOrThreadKey ProcessInfoEx}
    (ht : ∀ k, Option.Rel ProcessInfoEx.Agrees (t.lookup k) (t'.lookup k)) :
    Agrees { v with processesEx := t } { v' with processesEx := t' } :=
  { h with records := ht }

/-- Two views that agree go on to agree with other rows, if these have been handed out. -/
theorem withRows {rows : List (Ref ProcessInfo)}
    (hlive : ∀ pi ∈ rows, v.pm.processHeap.Live pi) :
    Agrees { v with processes := rows } { v' with processes := rows } :=
  { h with processes_eq := rfl, rows_live := hlive }

/-- Two views that agree go on to agree with another selection, if it has been handed out. -/
theorem withSelected {selected : Option (Ref ProcessInfo)}
    (hlive : ∀ pi, selected = some pi → v.pm.processHeap.Live pi) :
    Agrees { v with selectedProcess := selected } { v' with selectedProcess := selected } :=
  { h with selectedProcess_eq := rfl, selected_live := hlive }

/-- Two views that agree go on to agree when records that agree are written for the same process.
-/
theorem setProcessInfoEx {pi : Ref ProcessInfo} (hlive : v.pm.processHeap.Live pi)
    {px px' : ProcessInfoEx} (hpx : px.Agrees px') :
    (v.setProcessInfoEx pi px).Agrees (v'.setProcessInfoEx pi px') := by
  apply h.withRecords
  intro k
  have hset := lookup_setProcessInfoEx v pi px k
  have hset' := lookup_setProcessInfoEx v' pi px' k
  unfold ProcessesView.setProcessInfoEx at hset hset'
  rw [hset, hset', h.key_eq hlive]
  split
  · exact .some hpx
  · exact h.records k

variable (host : Host) (raw : RawMemory)

/-- The records of a process agree, whether they are found in the tables or made at that moment
over different memory. -/
theorem infoEx {pi : Ref ProcessInfo} (hlive : v.pm.processHeap.Live pi) :
    (v.infoEx host pi).Agrees (v'.infoEx (host.withMemory raw) pi) := by
  unfold ProcessesView.infoEx
  rw [h.key_eq hlive]
  have hrecord := h.records (v.key pi)
  generalize v.processesEx.lookup (v.key pi) = found at hrecord ⊢
  generalize v'.processesEx.lookup (v.key pi) = found' at hrecord ⊢
  cases hrecord with
  | none => exact ProcessInfoEx.make_agrees _ _ pi
  | some hpx => exact hpx

/-- `GetProcessInfoEx` returns records that agree, and the views agree after it. -/
theorem getProcessInfoEx {pi : Ref ProcessInfo} (hlive : v.pm.processHeap.Live pi) :
    (v.getProcessInfoEx host pi).1.Agrees (v'.getProcessInfoEx (host.withMemory raw) pi).1 ∧
      (v.getProcessInfoEx host pi).2.Agrees (v'.getProcessInfoEx (host.withMemory raw) pi).2 := by
  have hpx := h.infoEx host raw hlive
  have hrecords : ∀ k, Option.Rel ProcessInfoEx.Agrees
      ((v.getProcessInfoEx host pi).2.processesEx.lookup k)
      ((v'.getProcessInfoEx (host.withMemory raw) pi).2.processesEx.lookup k) := by
    intro k
    rw [lookup_getProcessInfoEx, lookup_getProcessInfoEx, h.key_eq hlive]
    split
    · exact .some hpx
    · exact h.records k
  rw [getProcessInfoEx_eq, getProcessInfoEx_eq] at hrecords ⊢
  exact ⟨hpx, h.withRecords hrecords⟩

/-- Two views that agree go on to agree when records are made for the same rows. -/
theorem ensureProcessInfoEx {pis : List (Ref ProcessInfo)}
    (hlive : ∀ pi ∈ pis, v.pm.processHeap.Live pi) :
    (v.ensureProcessInfoEx host pis).Agrees
      (v'.ensureProcessInfoEx (host.withMemory raw) pis) := by
  unfold ProcessesView.ensureProcessInfoEx
  induction pis generalizing v v' with
  | nil => exact h
  | cons pi pis ih =>
    have hmade := (h.getProcessInfoEx host raw (hlive pi (by simp))).2
    refine ih hmade fun pi' hpi' => ?_
    show (v.getProcessInfoEx host pi).2.pm.processHeap.Live pi'
    rw [getProcessInfoEx_eq]
    exact hlive pi' (by simp [hpi'])

omit h in
/-- Comparisons of objects that agree have the same result. -/
theorem sortsBefore_eq (h : v.Agrees v') (answers : SortAnswers) (col : ℕ) (asc : Bool)
    {r1 r2 : Ref ProcessInfo} (h1 : v.pm.processHeap.Live r1) (h2 : v.pm.processHeap.Live r2) :
    v'.sortsBefore (host.withMemory raw) answers col asc r1 r2 =
      v.sortsBefore host answers col asc r1 r2 := by
  obtain ⟨size1, sid1, hsame1⟩ := h.pm.process h1
  obtain ⟨size2, sid2, hsame2⟩ := h.pm.process h2
  unfold ProcessesView.sortsBefore sortsBeforeBy
  rw [hsame1, hsame2]
  rfl

/-- Two views that agree are sorted alike by a sort that compares elements of its range only. -/
theorem doSort (hlocal : host.stdSort.Local) (answers : SortAnswers) (col : ℕ) (asc : Bool) :
    (v.doSort host answers col asc).Agrees
      (v'.doSort (host.withMemory raw) answers col asc) := by
  have hsorted : host.stdSort.sort (v'.sortsBefore (host.withMemory raw) answers col asc)
      v.processes = host.stdSort.sort (v.sortsBefore host answers col asc) v.processes :=
    hlocal _ fun r1 h1 r2 h2 =>
      sortsBefore_eq host raw h answers col asc (h.rows_live r1 h1) (h.rows_live r2 h2)
  have hperm := host.stdSort.perm v.processes (v.sortsBefore_strictWeak host answers col asc)
  have hensure := h.ensureProcessInfoEx host raw h.rows_live
  have hpm := (Rearranged.ensureProcessInfoEx host v v.processes fun _ hpi => hpi).pm_eq
  unfold ProcessesView.doSort
  rw [h.processes_eq]
  show Agrees _ { (ite _ _ _ : ProcessesView) with
    processes := host.stdSort.sort (v'.sortsBefore (host.withMemory raw) answers col asc)
      v.processes }
  rw [hsorted]
  dsimp only
  split
  · apply hensure.withRows
    intro pi hpi
    rw [hpm]
    exact h.rows_live pi (hperm.mem_iff.mp hpi)
  · exact h.withRows fun pi hpi => h.rows_live pi (hperm.mem_iff.mp hpi)

omit h in
/-- Two views that agree go on to agree when both are paused or resumed. The old interval is read
only to resume, and then it has been written. -/
theorem togglePause (h : v.Agrees v') : v.togglePause.Agrees v'.togglePause := by
  unfold ProcessesView.togglePause
  rw [h.updateInterval_eq]
  split
  · rename_i hpaused
    exact { h with
      updateInterval_eq := h.oldInterval_eq hpaused
      oldInterval_eq := fun _ => h.oldInterval_eq hpaused }
  · exact { h with updateInterval_eq := rfl, oldInterval_eq := fun _ => rfl }

omit host raw in
/-- Two views that agree go on to agree with an interval that is no pause, since the old one is
not in use then. -/
theorem setInterval {interval : Int32} (hinterval : interval ≠ 0) :
    Agrees { v with updateInterval := interval } { v' with updateInterval := interval } :=
  { h with updateInterval_eq := rfl, oldInterval_eq := fun hzero => absurd hzero hinterval }

/-- A filter hides a row of one view precisely if it hides it in the other. -/
theorem hides_eq (filter : WString) {pi : Ref ProcessInfo} (hlive : v.pm.processHeap.Live pi) :
    v'.hides (host.withMemory raw) filter pi = v.hides host filter pi := by
  obtain ⟨size, sid, hsame⟩ := h.pm.process hlive
  unfold ProcessesView.hides
  rw [hsame]
  rfl

/-- Two views that agree go on to agree when the same row is hidden. -/
theorem hideRow {pi : Ref ProcessInfo} (hlive : v.pm.processHeap.Live pi) :
    (v.hideRow host pi).Agrees (v'.hideRow (host.withMemory raw) pi) :=
  h.setProcessInfoEx hlive ((h.infoEx host raw hlive).setFiltered true)

omit host raw in
/-- Two views that agree go on to agree when the same row is erased with its record. -/
theorem eraseRow (i : ℕ) {pi : Ref ProcessInfo} (hlive : v.pm.processHeap.Live pi) :
    (v.eraseRow i pi).Agrees (v'.eraseRow i pi) := by
  have hrecords : ∀ k, Option.Rel ProcessInfoEx.Agrees
      (AList.lookup k (v.processesEx.erase (v.key pi)))
      (AList.lookup k (v'.processesEx.erase (v.key pi))) := by
    intro k
    rw [UnorderedMap.lookup_erase_eq, UnorderedMap.lookup_erase_eq]
    split
    · exact .none
    · exact h.records k
  unfold ProcessesView.eraseRow
  rw [h.key_eq hlive, h.processes_eq]
  exact (h.withRecords hrecords).withRows
    fun pi' hpi' => h.rows_live pi' (List.mem_of_mem_eraseIdx hpi')

end ProcessesView.Agrees

namespace Session.Agrees

variable {s s' : Session} (h : s.Agrees s')
include h

/-- Sessions that agree go on to agree after changes that leave their views in agreement. -/
theorem onView {f f' : ProcessesView → ProcessesView}
    (hview : (f s.view).Agrees (f' s'.view)) : (s.onView f).Agrees (s'.onView f') :=
  ⟨hview, h.clock_eq, h.history_eq⟩

/-- Sessions that agree go on to agree when the time of an update is remembered. -/
theorem stampTick : s.stampTick.Agrees s'.stampTick := by
  unfold Session.stampTick
  rw [h.clock_eq]
  exact ⟨{ h.view with tick_eq := rfl }, rfl, h.history_eq⟩

/-- Sessions that agree go on to agree when it is recorded that a row has been drawn. -/
theorem noteDrawn (p : Ref ProcessInfo) : (s.noteDrawn p).Agrees (s'.noteDrawn p) := by
  unfold Session.noteDrawn
  rw [h.history_eq]
  exact ⟨h.view, h.clock_eq, rfl⟩

/-- Sessions that agree go on to agree when the properties of a process are asked for. -/
theorem getOrAddProcessProperties (pi : Ref ProcessInfo) :
    (s.getOrAddProcessProperties pi).Agrees (s'.getOrAddProcessProperties pi) := by
  unfold Session.getOrAddProcessProperties
  rw [h.history_eq]
  exact ⟨h.view, h.clock_eq, rfl⟩

/-- Sessions that agree go on to agree when a process that has been handed out is selected. -/
theorem select {pi : Ref ProcessInfo} (hlive : s.view.pm.processHeap.Live pi) :
    (s.select pi).Agrees (s'.select pi) :=
  h.onView (h.view.withSelected fun _ hsome => Option.some.inj hsome ▸ hlive)

/-- Sessions that agree go on to agree when the kill dialog is asked for. -/
theorem openDialog : s.openDialog.Agrees s'.openDialog :=
  h.onView { h.view with modalOpen_eq := rfl }

/-- The kill dialog. It acts on the id of the object, which is the same for both. -/
theorem tryKillProcess (answer : DialogAnswer) {selected : Ref ProcessInfo}
    (hlive : s.view.pm.processHeap.Live selected) :
    (s.tryKillProcess answer selected).1.Agrees (s'.tryKillProcess answer selected).1 ∧
      (s'.tryKillProcess answer selected).2 = (s.tryKillProcess answer selected).2 := by
  obtain ⟨size, sid, hsame⟩ := h.view.pm.process hlive
  have hid : (s'.view.pm.process selected).id = (s.view.pm.process selected).id := by rw [hsame]
  have hkey := h.view.key_eq hlive
  have hhistory := h.history_eq
  have hopened : ProcessesView.Agrees { s.view with modalOpen := true }
      { s'.view with modalOpen := true } := { h.view with modalOpen_eq := rfl }
  have hclosed : ProcessesView.Agrees { s.view with modalOpen := false }
      { s'.view with modalOpen := false } := { h.view with modalOpen_eq := rfl }
  have hrecord : ∀ target : Option ProcessOrThreadKey,
      ({ s'.history with attempts := s'.history.attempts ++
          [⟨s'.view.key selected, answer, target⟩] } : History) =
        { s.history with attempts := s.history.attempts ++
          [⟨s.view.key selected, answer, target⟩] } := by
    intro target
    rw [hhistory, hkey]
  unfold Session.tryKillProcess
  cases hresult : answer.result with
  | stillOpen => exact ⟨⟨hopened, h.clock_eq, hrecord none⟩, rfl⟩
  | ok =>
    have hkill : killProcess answer.os
        ((s'.onView fun v => { v with modalOpen := true }).view.pm.process selected).id =
      killProcess answer.os
        ((s.onView fun v => { v with modalOpen := true }).view.pm.process selected).id :=
      congrArg (killProcess answer.os) hid
    dsimp only
    rw [hkill]
    refine ⟨⟨?_, h.clock_eq, hrecord _⟩, rfl⟩
    dsimp only
    split
    · exact hclosed.withSelected fun _ hsome => by cases hsome
    · exact hclosed
  | cancel => exact ⟨⟨hclosed, h.clock_eq, hrecord none⟩, rfl⟩
  | yes => exact ⟨⟨hclosed, h.clock_eq, hrecord none⟩, rfl⟩
  | no => exact ⟨⟨hclosed, h.clock_eq, hrecord none⟩, rfl⟩

section Update

variable (host : Host) (raw : RawMemory)

/-- One round of the first loop of `DoUpdate` appends the same row to both sessions, marks its
record as new and leaves the manager alone. -/
theorem addNew {pi : Ref ProcessInfo} (hlive : s.view.pm.processHeap.Live pi) :
    (s.addNew host pi).Agrees (s'.addNew (host.withMemory raw) pi) ∧
      (s.addNew host pi).view.pm = s.view.pm := by
  have hrows : ∀ pi' ∈ s.view.processes ++ [pi], s.view.pm.processHeap.Live pi' := by
    intro pi' hpi'
    rcases List.mem_append.mp hpi' with hold | hnew
    · exact h.view.rows_live pi' hold
    · exact List.mem_singleton.mp hnew ▸ hlive
  have happended := h.view.withRows hrows
  obtain ⟨hpx, hview⟩ := happended.getProcessInfoEx host raw hlive
  have hpm : ({ s.view with processes := s.view.processes ++ [pi] } :
      ProcessesView).getProcessInfoEx host pi |>.2.pm = s.view.pm := by
    rw [ProcessesView.getProcessInfoEx_eq]
  have hstill := hlive
  rw [← hpm] at hstill
  unfold Session.addNew
  rw [h.clock_eq, h.view.processes_eq]
  exact ⟨⟨hview.setProcessInfoEx hstill (hpx.new 2000 s.clock), rfl, h.history_eq⟩, hpm⟩

/-- One round of the second loop of `DoUpdate` marks the same record in both sessions and leaves
the manager alone. -/
theorem markTerminated {pi : Ref ProcessInfo} (hlive : s.view.pm.processHeap.Live pi) :
    (s.markTerminated host pi).Agrees (s'.markTerminated (host.withMemory raw) pi) ∧
      (s.markTerminated host pi).view.pm = s.view.pm := by
  obtain ⟨hpx, hview⟩ := h.view.getProcessInfoEx host raw hlive
  have hpm : (s.view.getProcessInfoEx host pi).2.pm = s.view.pm := by
    rw [ProcessesView.getProcessInfoEx_eq]
  have hstill := hlive
  rw [← hpm] at hstill
  unfold Session.markTerminated
  rw [h.clock_eq]
  exact ⟨⟨hview.setProcessInfoEx hstill (hpx.term 2000 s.clock), rfl, h.history_eq⟩, hpm⟩

omit h in
/-- A loop over objects, each round of which keeps sessions in agreement. -/
theorem foldl (f f' : Session → Ref ProcessInfo → Session)
    (hround : ∀ {s s' : Session} {pi : Ref ProcessInfo}, s.Agrees s' →
      s.view.pm.processHeap.Live pi → (f s pi).Agrees (f' s' pi) ∧ (f s pi).view.pm = s.view.pm)
    {pis : List (Ref ProcessInfo)} (h : s.Agrees s')
    (hlive : ∀ pi ∈ pis, s.view.pm.processHeap.Live pi) :
    (pis.foldl f s).Agrees (pis.foldl f' s') ∧ (pis.foldl f s).view.pm = s.view.pm := by
  induction pis generalizing s s' with
  | nil => exact ⟨h, rfl⟩
  | cons pi pis ih =>
    obtain ⟨hone, hpm⟩ := hround h (hlive pi (by simp))
    obtain ⟨hrest, hpm'⟩ := ih hone fun pi' hpi' => hpm.symm ▸ hlive pi' (by simp [hpi'])
    exact ⟨hrest, hpm'.trans hpm⟩

/-- `DoUpdate` appends and marks the same processes in both sessions, since the managers report
the same ones. -/
theorem doUpdate : (s.doUpdate host).Agrees (s'.doUpdate (host.withMemory raw)) := by
  obtain ⟨hadded, hpm⟩ := foldl (Session.addNew host) (Session.addNew (host.withMemory raw))
    (fun h hlive => h.addNew host raw hlive) h
    fun pi hpi => h.view.pm.processes_live (h.view.pm.new_listed pi hpi)
  have hterminated : ∀ pi ∈ s.view.pm.terminatedProcesses,
      (s.view.pm.newProcesses.foldl (Session.addNew host) s).view.pm.processHeap.Live pi := by
    rw [hpm]
    exact h.view.pm.terminated_live
  obtain ⟨hmarked, _⟩ := foldl (Session.markTerminated host)
    (Session.markTerminated (host.withMemory raw))
    (fun h hlive => h.markTerminated host raw hlive) hadded hterminated
  unfold Session.doUpdate
  rw [h.view.pm.newProcesses_eq]
  dsimp only
  rw [hadded.view.pm.terminatedProcesses_eq, hpm]
  exact hmarked

/-- An enumeration leaves the managers in agreement and frees no object that the views point to.
-/
theorem enumProcesses (world : EnumWorld) :
    (s.enumProcesses host world).Agrees (s'.enumProcesses (host.withMemory raw) world) := by
  have hpm := h.view.pm.step host.env (c := enumCall world) rfl
  unfold Session.enumProcesses
  rw [h.history_eq]
  exact ⟨{ h.view with
    pm := hpm
    rows_live := fun pi hpi => h.view.pm.step_live host.env _ (h.view.rows_live pi hpi)
    selected_live := fun pi hpi => h.view.pm.step_live host.env _ (h.view.selected_live pi hpi) },
    h.clock_eq, rfl⟩

/-- Both sessions take the same rows over after an enumeration. -/
theorem takeRows (empty : Bool) :
    (s.takeRows host empty).Agrees (s'.takeRows (host.withMemory raw) empty) := by
  unfold Session.takeRows
  split
  · apply h.onView
    rw [h.view.pm.processes_eq]
    exact h.view.withRows fun pi hpi => h.view.pm.processes_live hpi
  · exact h.doUpdate host raw

variable (hlocal : host.stdSort.Local)
include hlocal

/-- The sort after an update is made in both sessions or in neither, and arranges the rows alike.
-/
theorem sortAgain (r : Refresh) :
    (s.sortAgain host r).Agrees (s'.sortAgain (host.withMemory raw) r) := by
  unfold Session.sortAgain
  rw [h.view.specs_eq]
  split
  · exact h.onView (h.view.doSort host raw hlocal r.answers r.specs.columnIndex r.specs.ascending)
  · exact h

/-- An update leaves sessions that agree in agreement. -/
theorem refresh (r : Refresh) :
    (s.refresh host r).Agrees (s'.refresh (host.withMemory raw) r) := by
  unfold Session.refresh
  rw [h.view.processes_eq]
  exact (((h.enumProcesses host raw r.world).takeRows host raw _).sortAgain host raw hlocal
    r).stampTick

/-- An update is due in both sessions or in neither, and their clocks are read equally often. -/
theorem refreshIfDue (r : Refresh) :
    (s.refreshIfDue host r).Agrees (s'.refreshIfDue (host.withMemory raw) r) := by
  unfold Session.refreshIfDue
  rw [h.view.updateInterval_eq, h.clock_eq]
  have hread : Agrees { s with clock := s.clock.getTickCount64.2 }
      { s' with clock := s.clock.getTickCount64.2 } := ⟨h.view, rfl, h.history_eq⟩
  split
  · dsimp only
    rw [h.view.tick_eq, h.view.updateInterval_eq]
    split
    · exact hread.refresh host raw hlocal r
    · exact hread
  · exact h

/-- `BuildTable` leaves the sessions in agreement up to the purge loop. -/
theorem updateTable (f : Frame) :
    (s.updateTable host f).Agrees (s'.updateTable (host.withMemory raw) f) := by
  unfold Session.updateTable
  dsimp only
  apply refreshIfDue _ host raw hlocal
  split
  · exact h.onView h.view.togglePause
  · exact h

end Update

section Purge

variable (host : Host) (raw : RawMemory)

/-- `Update` gives the same answer for a row in both sessions, which agree after it. -/
theorem updateRow {pi : Ref ProcessInfo} (hlive : s.view.pm.processHeap.Live pi) :
    (s.updateRow host pi).1.Agrees (s'.updateRow (host.withMemory raw) pi).1 ∧
      (s'.updateRow (host.withMemory raw) pi).2 = (s.updateRow host pi).2 ∧
        (s.updateRow host pi).1.view.pm = s.view.pm := by
  obtain ⟨hpx, hview⟩ := h.view.getProcessInfoEx host raw hlive
  have hpm : (s.view.getProcessInfoEx host pi).2.pm = s.view.pm := by
    rw [ProcessesView.getProcessInfoEx_eq]
  have hstill := hlive
  rw [← hpm] at hstill
  obtain ⟨hgone, hupdated, hclock⟩ := (hpx.setFiltered false).update s.clock
  unfold Session.updateRow
  rw [h.clock_eq, h.history_eq]
  dsimp only
  rw [hgone, hclock]
  exact ⟨⟨hview.setProcessInfoEx hstill hupdated, rfl, rfl⟩, rfl, hpm⟩

omit h in
/-- One round of the purge loop erases, hides or keeps the same row in both sessions. -/
theorem purgeRow (filter : WString) {l l' : Purge} (h : l.session.Agrees l'.session)
    (hi : l'.i = l.i) (hindices : l'.indices = l.indices) :
    (Session.purgeRow host filter l).session.Agrees
        (Session.purgeRow (host.withMemory raw) filter l').session ∧
      (Session.purgeRow (host.withMemory raw) filter l').i = (Session.purgeRow host filter l).i ∧
        (Session.purgeRow (host.withMemory raw) filter l').indices =
          (Session.purgeRow host filter l).indices := by
  unfold Session.purgeRow
  rw [h.view.processes_eq, hi, hindices]
  cases hrow : l.session.view.processes[l.i]? with
  | none => exact ⟨h, hi, hindices⟩
  | some p =>
    have hlive := h.view.rows_live p (List.mem_of_getElem? hrow)
    obtain ⟨hupdated, hgone, hpm⟩ := h.updateRow host raw hlive
    have hstill := hlive
    rw [← hpm] at hstill
    dsimp only
    rw [hgone, hupdated.view.hides_eq host raw filter hstill]
    split
    · refine ⟨?_, rfl, rfl⟩
      dsimp only
      apply hupdated.onView
      exact hupdated.view.eraseRow l.i hstill
    · split
      · refine ⟨?_, rfl, rfl⟩
        dsimp only
        apply hupdated.onView
        exact hupdated.view.hideRow host raw hstill
      · exact ⟨hupdated, rfl, rfl⟩

omit h in
/-- The rounds of the purge loop leave the sessions in agreement and note the same indices. -/
theorem purgeLoop (filter : WString) (left : ℕ) {l l' : Purge} (h : l.session.Agrees l'.session)
    (hi : l'.i = l.i) (hindices : l'.indices = l.indices) :
    (Session.purgeLoop host filter left l).session.Agrees
        (Session.purgeLoop (host.withMemory raw) filter left l').session ∧
      (Session.purgeLoop (host.withMemory raw) filter left l').indices =
        (Session.purgeLoop host filter left l).indices := by
  induction left generalizing l l' with
  | zero => exact ⟨h, hindices⟩
  | succ left ih =>
    obtain ⟨hround, hi', hindices'⟩ := purgeRow host raw filter h hi hindices
    exact ih hround hi' hindices'

/-- The purge loop of `BuildTable` leaves the sessions in agreement and notes the same indices. -/
theorem purge : (s.purge host).session.Agrees (s'.purge (host.withMemory raw)).session ∧
    (s'.purge (host.withMemory raw)).indices = (s.purge host).indices := by
  have hfilter : s'.view.filter (host.withMemory raw) = s.view.filter host := by
    unfold ProcessesView.filter
    rw [h.view.filterText_eq]
    rfl
  unfold Session.purge
  rw [hfilter, h.view.processes_eq]
  exact purgeLoop host raw _ _ h rfl rfl

end Purge

section Drawing

variable (host : Host) (raw : RawMemory)

/-- The sort that the user asks for arranges the rows of both sessions alike. -/
theorem sortIfDirty (hlocal : host.stdSort.Local) (specs : Option TableSpecs) :
    (s.sortIfDirty host specs).Agrees (s'.sortIfDirty (host.withMemory raw) specs) := by
  unfold Session.sortIfDirty
  cases specs with
  | none => exact h
  | some t =>
    dsimp only
    split
    · apply h.onView
      have hspecs : ProcessesView.Agrees { s.view with specs := true }
        { s'.view with specs := true } := { h.view with specs_eq := rfl }
      exact hspecs.doSort host raw hlocal t.answers t.columnIndex t.ascending
    · exact h

omit host raw in
/-- The box that reports a failed kill is shown and closed in both sessions or in neither. -/
theorem failureBox (result : MessageBoxResult) :
    (s.failureBox result).Agrees (s'.failureBox result) := by
  unfold Session.failureBox
  rw [h.view.killFailed_eq]
  split
  · exact h.onView { h.view with killFailed_eq := rfl }
  · exact h

/-- `GotoFileLocation` makes a record that agrees if there was none. -/
theorem gotoFileLocation {pi : Ref ProcessInfo} (hlive : s.view.pm.processHeap.Live pi) :
    (s.gotoFileLocation host pi).Agrees (s'.gotoFileLocation (host.withMemory raw) pi) :=
  h.onView (h.view.getProcessInfoEx host raw hlive).2

/-- The entries of the context menu that are chosen have the same effect in both sessions. -/
theorem contextMenu {p : Ref ProcessInfo} (hlive : s.view.pm.processHeap.Live p)
    (c : PopupChoice) :
    (s.contextMenu host p c).Agrees (s'.contextMenu (host.withMemory raw) p c) := by
  have hselected := h.select hlive
  unfold Session.contextMenu
  dsimp only
  obtain ⟨kill, goToFile, properties⟩ := c
  have hkill : ∃ t t', t = (if kill = true then (s.select p).openDialog else s.select p) ∧
      t' = (if kill = true then (s'.select p).openDialog else s'.select p) ∧ t.Agrees t' ∧
        t.view.pm = s.view.pm := by
    refine ⟨_, _, rfl, rfl, ?_⟩
    split
    · exact ⟨hselected.openDialog, rfl⟩
    · exact ⟨hselected, rfl⟩
  obtain ⟨t, t', heq, heq', hagree, hpm⟩ := hkill
  rw [← hpm] at hlive
  dsimp only
  rw [← heq, ← heq']
  have hfile : (if goToFile = true then t.gotoFileLocation host p else t).Agrees
      (if goToFile = true then t'.gotoFileLocation (host.withMemory raw) p else t') := by
    split
    · exact hagree.gotoFileLocation host raw hlive
    · exact hagree
  split
  · exact hfile.getOrAddProcessProperties p
  · exact hfile

omit host raw in
/-- A click on a row selects it in both sessions, unless a dialog is open, and leaves the manager
alone. -/
theorem clickRow {p : Ref ProcessInfo} (hlive : s.view.pm.processHeap.Live p) (clicked : Bool) :
    (s.clickRow clicked p).Agrees (s'.clickRow clicked p) ∧
      (s.clickRow clicked p).view.pm = s.view.pm := by
  unfold Session.clickRow
  rw [h.view.modalOpen_eq]
  split
  · exact ⟨h.select hlive, rfl⟩
  · exact ⟨h, rfl⟩

omit host raw in
/-- Shift+Delete opens the kill dialog in both sessions or in neither, and leaves the manager
alone. -/
theorem deleteKey (shiftDelete : Bool) :
    (s.deleteKey shiftDelete).Agrees (s'.deleteKey shiftDelete) ∧
      (s.deleteKey shiftDelete).view.pm = s.view.pm := by
  unfold Session.deleteKey
  rw [h.view.selectedProcess_eq]
  split
  · exact ⟨h.openDialog, rfl⟩
  · exact ⟨h, rfl⟩

/-- The Delete key and the context menu of a row leave the sessions in agreement. -/
theorem rowMenus (shiftDelete : Bool) {p : Ref ProcessInfo}
    (hlive : s.view.pm.processHeap.Live p) (popup : Option PopupChoice) :
    (s.rowMenus host shiftDelete p popup).Agrees
      (s'.rowMenus (host.withMemory raw) shiftDelete p popup) := by
  obtain ⟨hdelete, hpm⟩ := h.deleteKey shiftDelete
  rw [← hpm] at hlive
  unfold Session.rowMenus
  rw [h.view.modalOpen_eq]
  split
  · exact h
  · cases popup with
    | none => exact hdelete
    | some c => exact hdelete.contextMenu host raw hlive c

omit host raw in
/-- The kill dialog is shown by the same row in both sessions, with the same effect. -/
theorem rowDialog {p : Ref ProcessInfo} (answer : DialogAnswer) :
    (s.rowDialog p answer).Agrees (s'.rowDialog p answer) := by
  unfold Session.rowDialog
  rw [h.view.modalOpen_eq, h.view.selectedProcess_eq]
  split
  · rename_i hshown
    obtain ⟨htried, hsuccess⟩ := h.tryKillProcess answer (h.view.selected_live p hshown.2)
    dsimp only
    rw [hsuccess]
    split
    · exact htried.onView { htried.view with killFailed_eq := rfl }
    · exact htried
  · exact h

/-- The body of the row loop draws the same row in both sessions, or none. -/
theorem drawRow (shiftDelete : Bool) (indices : List ℕ) (visit : RowVisit) :
    (Session.drawRow host shiftDelete indices s visit).Agrees
      (Session.drawRow (host.withMemory raw) shiftDelete indices s' visit) := by
  unfold Session.drawRow
  rw [h.view.processes_eq]
  cases hrow : indices[visit.position]? >>= fun i => s.view.processes[i]? with
  | none => exact h
  | some p =>
    have hlive := h.view.rows_live p (ProcessesView.mem_of_position hrow)
    obtain ⟨hpx, hview⟩ := h.view.getProcessInfoEx host raw hlive
    have hpm : (s.view.getProcessInfoEx host p).2.pm = s.view.pm := by
      rw [ProcessesView.getProcessInfoEx_eq]
    rw [← hpm] at hlive
    have hmade : Agrees { s with view := (s.view.getProcessInfoEx host p).2 }
        { s' with view := (s'.view.getProcessInfoEx (host.withMemory raw) p).2 } :=
      ⟨hview, h.clock_eq, h.history_eq⟩
    dsimp only
    rw [hpx.filtered_eq]
    split
    · exact hmade
    · obtain ⟨hclicked, hsame⟩ := (hmade.noteDrawn p).clickRow hlive visit.clicked
      refine Agrees.rowDialog (hclicked.rowMenus host raw shiftDelete ?_ visit.popup) visit.answer
      rw [hsame]
      exact hlive

/-- The row loop draws the same rows in both sessions and leaves them in agreement. -/
theorem drawRows (shiftDelete : Bool) (indices : List ℕ) (visits : List RowVisit) :
    (visits.foldl (Session.drawRow host shiftDelete indices) s).Agrees
      (visits.foldl (Session.drawRow (host.withMemory raw) shiftDelete indices) s') := by
  induction visits generalizing s s' with
  | nil => exact h
  | cons visit visits ih => exact ih (h.drawRow host raw shiftDelete indices visit)

end Drawing

/-- `BuildToolBar` leaves the sessions in agreement: they have the same selection to kill, and the
same interval to pause or resume. -/
theorem buildToolBar (t : ToolBar) : (s.buildToolBar t).Agrees (s'.buildToolBar t) := by
  have hfilter : (s.editFilter t).Agrees (s'.editFilter t) :=
    h.onView { h.view with filterText_eq := rfl }
  have hkill : ((s.editFilter t).killButton t).Agrees ((s'.editFilter t).killButton t) := by
    unfold Session.killButton
    rw [hfilter.view.selectedProcess_eq]
    cases hselected : (s.editFilter t).view.selectedProcess with
    | none => exact hfilter
    | some selected =>
      dsimp only
      split
      · exact (hfilter.tryKillProcess t.answer (hfilter.view.selected_live _ hselected)).1
      · exact hfilter
  unfold Session.buildToolBar Session.intervalMenu
  cases t.interval with
  | none => exact hkill
  | some item =>
    apply hkill.onView
    cases item with
    | paused => exact hkill.view.togglePause
    | msec500 => exact hkill.view.setInterval (by decide)
    | second1 => exact hkill.view.setInterval (by decide)
    | seconds2 => exact hkill.view.setInterval (by decide)
    | seconds5 => exact hkill.view.setInterval (by decide)

section Run

variable (host : Host) (raw : RawMemory) (hlocal : host.stdSort.Local)
include hlocal

/-- **One frame** leaves sessions that agree in agreement, whatever the user does in it. -/
theorem buildWindow (f : Frame) :
    (s.buildWindow host f).Agrees (s'.buildWindow (host.withMemory raw) f) := by
  have htoolBar := h.buildToolBar f.toolBar
  unfold Session.buildWindow Session.buildTable
  split
  · obtain ⟨hpurged, hindices⟩ := (htoolBar.updateTable host raw hlocal f).purge host raw
    unfold Session.drawTable
    rw [hindices]
    exact ((hpurged.sortIfDirty host raw hlocal f.specs).failureBox f.failureResult).drawRows
      host raw f.shiftDelete _ f.visits
  · exact htoolBar

end Run

end Session.Agrees

namespace Session

/-- Two views that have just been constructed over different memory agree. -/
theorem initial_agrees (host : Host) (raw : RawMemory) (readings : ℕ → UInt64) :
    (initial host readings).Agrees (initial (host.withMemory raw) readings) where
  view :=
    { pm := Impl.initial_agrees _ _ _ _
      tick_eq := rfl
      filterText_eq := rfl
      processes_eq := rfl
      records := fun _ => .none
      specs_eq := rfl
      selectedProcess_eq := rfl
      updateInterval_eq := rfl
      oldInterval_eq := fun hzero => absurd (show (1000 : Int32) = 0 from hzero) (by decide)
      modalOpen_eq := rfl
      killFailed_eq := rfl
      rows_live := fun pi hpi => by cases hpi
      selected_live := fun pi hpi => by cases hpi }
  clock_eq := rfl
  history_eq := rfl

/-- **Nothing of raw memory shows.** In every run, whatever memory held where the members of the
view, of its records and of the process objects went, the program shows and does the same: its
rows and what they show, their marks, the selection, the dialogs, its enumerations and the
processes that it terminates. -/
theorem run_agrees (host : Host) (raw : RawMemory) (hlocal : host.stdSort.Local)
    (readings : ℕ → UInt64) (frames : List Frame) :
    (run host readings frames).Agrees (run (host.withMemory raw) readings frames) := by
  induction frames using List.reverseRecOn with
  | nil => exact initial_agrees host raw readings
  | append_singleton frames f ih =>
    unfold run at ih ⊢
    rw [List.foldl_append, List.foldl_append]
    exact ih.buildWindow host raw hlocal f

/-- The space bar pauses the updates and resumes them, in a program whose members all held
something else before they were written. -/
theorem run_agrees_pause :
    let raw : RawMemory :=
      ⟨fun _ => 7, fun _ => { (default : ProcessInfo) with createTime := 9 }, fun _ => default, 9⟩
    let idle := Frame.idle (Call.answered .enumProcesses 100 (.bare 1 8) [.bare 1 12]).toEnumWorld
    let frames := [idle, { idle with space := true }, { idle with space := true }]
    let s := run .plain (fun n => 1000 * (UInt64.ofNat n + 1)) frames
    let s' := run (Host.plain.withMemory raw) (fun n => 1000 * (UInt64.ofNat n + 1)) frames
    s.Agrees s' ∧ s'.view.updateInterval = 1000 := by
  intro raw idle frames s s'
  have hagrees : s.Agrees s' := run_agrees .plain raw StdSort.merge_local _ frames
  have hinterval : s.view.updateInterval = 1000 := by decide +kernel
  exact ⟨hagrees, hagrees.view.updateInterval_eq.trans hinterval⟩

end Session

end ProcExpX
