import ProcExpX.App.Frame
import ProcExpX.App.ProcessInfoEx
import ProcExpX.App.SortHelper

/-!
# The process view

`ProcessesView`: the rows of the process table, the marks beside them, the
selection and the kill dialog. One frame builds the tool bar and then the table.
Drawing is modelled as far as it changes the state; the property windows are
recorded as requests.
-/

namespace ProcExpX

open Library WinSys

/-- One call of `TryKillProcess`. -/
structure KillAttempt where
  /-- The key of the selected process, which the text of the dialog names. -/
  shown : ProcessOrThreadKey
  /-- How the dialog ends. -/
  answer : DialogAnswer
  /-- The process that `Terminate` was called on, if any. -/
  target : Option ProcessOrThreadKey

/-- What has happened so far, beyond what the view remembers. -/
structure History where
  /-- The enumerations. -/
  calls : List Call
  /-- The calls of `Update` on the rows, with what they returned. -/
  updates : List (Ref ProcessInfo × Bool)
  /-- The calls of `TryKillProcess`. -/
  attempts : List KillAttempt
  /-- The rows drawn. -/
  drawn : List (Ref ProcessInfo)
  /-- The processes whose properties were asked for. -/
  properties : List (Ref ProcessInfo)

/-- `ProcessesView`, without the image and the property windows. -/
structure ProcessesView where
  /-- `_pm`. -/
  pm : Impl
  /-- `_tick`. -/
  tick : UInt64
  /-- `_filterText`. -/
  filterText : FilterText
  /-- `_processes`. -/
  processes : List (Ref ProcessInfo)
  /-- `_processesEx`. -/
  processesEx : UnorderedMap ProcessOrThreadKey ProcessInfoEx
  /-- Whether `_specs` points to the sort specification of the table. -/
  specs : Bool
  /-- `_selectedProcess`. -/
  selectedProcess : Option (Ref ProcessInfo)
  /-- `_updateInterval`. -/
  updateInterval : Int32
  /-- `_oldInterval`. -/
  oldInterval : Int32
  /-- `_modalOpen`. -/
  modalOpen : Bool
  /-- `_killFailed`. -/
  killFailed : Bool

/-- The view together with the clock and the history. -/
structure Session where
  /-- The view. -/
  view : ProcessesView
  /-- The clock. -/
  clock : Clock
  /-- The history. -/
  history : History

/-- What a program run does not change. -/
structure Host where
  /-- What the manager is initialized from. -/
  env : Environment
  /-- The locale. -/
  locale : Locale
  /-- The sort of the standard library. -/
  stdSort : StdSort
  /-- What the memory of a new `ProcessInfoEx` holds where its expiry time goes. -/
  rawExpiry : Ref ProcessInfo → UInt64
  /-- What the memory of a new process object holds. -/
  rawProcesses : ℕ → ProcessInfo
  /-- What the memory of a new thread object holds. -/
  rawThreads : ℕ → ThreadInfo
  /-- What `_oldInterval` holds at first. -/
  rawInterval : Int32

/-- A host of four processors, without elevation, whose locale is the one that a program
starts with and whose memory is zero. -/
def Host.plain : Host :=
  { env := ⟨4, false⟩
    locale := .ascii
    stdSort := .merge
    rawExpiry := fun _ => 0
    rawProcesses := fun _ => default
    rawThreads := fun _ => default
    rawInterval := 0 }

/-- The view as constructed, before the first frame. -/
def Session.initial (host : Host) (readings : ℕ → UInt64) : Session :=
  { view :=
      { pm := Impl.initial host.rawProcesses host.rawThreads
        tick := 0, filterText := .empty, processes := [], processesEx := ∅, specs := false
        selectedProcess := none, updateInterval := 1000, oldInterval := host.rawInterval
        modalOpen := false, killFailed := false }
    clock := ⟨readings, 0⟩
    history := ⟨[], [], [], [], []⟩ }

/-- `CString::Find`: the first position at which a string occurs in another. -/
def find (sub : WString) : WString → Option ℕ
  | [] => if sub = [] then some 0 else none
  | c :: s => if sub.isPrefixOf (c :: s) then some 0 else (find sub s).map (· + 1)

namespace ProcessesView

variable (host : Host) (v : ProcessesView)

/-- The key of a row. -/
def key (pi : Ref ProcessInfo) : ProcessOrThreadKey := (v.pm.process pi).key

/-- `GetProcessInfoEx`: the record found under the key of a process, after making
one if there is none. -/
def getProcessInfoEx (pi : Ref ProcessInfo) : ProcessInfoEx × ProcessesView :=
  match v.processesEx.lookup (v.key pi) with
  | some px => (px, v)
  | none =>
    let px := ProcessInfoEx.make (host.rawExpiry pi) pi
    (px, { v with processesEx := v.processesEx.insertNew (v.key pi) px })

/-- Read through the reference that `GetProcessInfoEx` returned. -/
def infoEx (pi : Ref ProcessInfo) : ProcessInfoEx :=
  (v.processesEx.lookup (v.key pi)).getD (.make (host.rawExpiry pi) pi)

/-- Write through the reference that `GetProcessInfoEx` returned. -/
def setProcessInfoEx (pi : Ref ProcessInfo) (px : ProcessInfoEx) : ProcessesView :=
  { v with processesEx := v.processesEx.insert (v.key pi) px }

/-- The comparison that `DoSort` passes to `std::sort`, with the `SortStrings` that it
calls. -/
def sortsBeforeBy (sortStrings : WString → WString → Bool → Bool) (v : ProcessesView)
    (answers : SortAnswers) (col : ℕ) (asc : Bool) (r1 r2 : Ref ProcessInfo) : Bool :=
  let p1 := v.pm.process r1
  let p2 := v.pm.process r2
  match col with
  | 0 => sortStrings p1.processName p2.processName asc
  | 1 => SortHelper.sortNumbers p1.id p2.id asc
  | 2 => sortStrings (answers.userName r1) (answers.userName r2) asc
  | 3 => SortHelper.sortNumbers p1.sessionId p2.sessionId asc
  | 4 => SortHelper.sortNumbers p1.cpu p2.cpu asc
  | 5 => SortHelper.sortNumbers p1.parentId p2.parentId asc
  | 6 => SortHelper.sortNumbers p1.createTime p2.createTime asc
  | 7 => SortHelper.sortNumbers p1.privatePageCount p2.privatePageCount asc
  | 8 => SortHelper.sortNumbers p1.basePriority p2.basePriority asc
  | 9 => SortHelper.sortNumbers p1.threadCount p2.threadCount asc
  | 10 => SortHelper.sortNumbers p1.handleCount p2.handleCount asc
  | 11 => SortHelper.sortNumbers p1.workingSetSize p2.workingSetSize asc
  | 12 => sortStrings (answers.executablePath r1) (answers.executablePath r2) asc
  | 13 => SortHelper.sortNumbers (p1.kernelTime + p1.userTime) (p2.kernelTime + p2.userTime) asc
  | 14 => SortHelper.sortNumbers p1.peakThreads p2.peakThreads asc
  | 15 => SortHelper.sortNumbers p1.virtualSize p2.virtualSize asc
  | 16 => SortHelper.sortNumbers p1.peakWorkingSetSize p2.peakWorkingSetSize asc
  | 17 => SortHelper.sortNumbers (answers.attributes r1) (answers.attributes r2) asc
  | 18 => SortHelper.sortNumbers p1.pagedPoolUsage p2.pagedPoolUsage asc
  | _ => false

/-- The comparison that `DoSort` passes to `std::sort`. -/
def sortsBefore (answers : SortAnswers) (col : ℕ) (asc : Bool) (r1 r2 : Ref ProcessInfo) : Bool :=
  v.sortsBeforeBy (SortHelper.sortStrings host.locale) answers col asc r1 r2

/-- Make the records of several processes that have none. -/
def ensureProcessInfoEx (pis : List (Ref ProcessInfo)) : ProcessesView :=
  pis.foldl (fun v pi => (v.getProcessInfoEx host pi).2) v

/-- `DoSort`. Three of the columns look up the record of each process they compare,
and a sort of two or more compares each at least once. -/
def doSort (answers : SortAnswers) (col : ℕ) (asc : Bool) : ProcessesView :=
  let consulted := col = 2 ∨ col = 12 ∨ col = 17
  let v' := if consulted ∧ 2 ≤ v.processes.length then v.ensureProcessInfoEx host v.processes else v
  { v' with processes := host.stdSort.sort (v.sortsBefore host answers col asc) v.processes }

/-- `TogglePause`. -/
def togglePause : ProcessesView :=
  if v.updateInterval = 0 then { v with updateInterval := v.oldInterval }
  else { v with oldInterval := v.updateInterval, updateInterval := 0 }

/-- `filter`: the text of the filter in lower case, empty for no filter. -/
def filter : WString :=
  if v.filterText.bytes = [] then []
  else host.locale.makeLower (host.locale.widen v.filterText.bytes)

/-- Whether a filter hides a row: its name in lower case lacks the text. -/
def hides (filter : WString) (p : Ref ProcessInfo) : Bool :=
  let name := host.locale.makeLower (cStr (v.pm.process p).processName)
  !filter.isEmpty && (find filter name).isNone

/-- Set `Filtered` in the record of a row. -/
def hideRow (p : Ref ProcessInfo) : ProcessesView :=
  v.setProcessInfoEx p { v.infoEx host p with filtered := true }

/-- Erase the row at a position together with its record. -/
def eraseRow (i : ℕ) (p : Ref ProcessInfo) : ProcessesView :=
  { v with
    processesEx := v.processesEx.erase (v.key p)
    processes := v.processes.eraseIdx i }

end ProcessesView

namespace Session

variable (host : Host) (s : Session)

/-- Apply a change to the view. -/
def onView (f : ProcessesView → ProcessesView) : Session := { s with view := f s.view }

/-- The call that an update makes. -/
def enumCall (world : EnumWorld) : Call := { world with api := .enumProcesses }

/-- `_pm.EnumProcesses()`. -/
def enumProcesses (world : EnumWorld) : Session :=
  { s with
    view := { s.view with pm := s.view.pm.step host.env (enumCall world) }
    history := { s.history with calls := s.history.calls ++ [enumCall world] } }

/-- The first loop body of `DoUpdate`. -/
def addNew (pi : Ref ProcessInfo) : Session :=
  let v := { s.view with processes := s.view.processes ++ [pi] }
  let (px, v) := v.getProcessInfoEx host pi
  let (px, clock) := px.new 2000 s.clock
  { s with view := v.setProcessInfoEx pi px, clock := clock }

/-- The second loop body of `DoUpdate`. -/
def markTerminated (pi : Ref ProcessInfo) : Session :=
  let (px, v) := s.view.getProcessInfoEx host pi
  let (px, clock) := px.term 2000 s.clock
  { s with view := v.setProcessInfoEx pi px, clock := clock }

/-- `DoUpdate`. -/
def doUpdate : Session :=
  let s := s.view.pm.newProcesses.foldl (addNew host) s
  s.view.pm.terminatedProcesses.foldl (markTerminated host) s

/-- The rows after an enumeration: copied from the manager if there were none,
else brought up to date. -/
def takeRows (empty : Bool) : Session :=
  if empty then s.onView fun v => { v with processes := v.pm.processes } else s.doUpdate host

/-- The sort after an update, by the column in use. -/
def sortAgain (r : Refresh) : Session :=
  if s.view.specs then
    s.onView fun v => v.doSort host r.answers r.specs.columnIndex r.specs.ascending
  else s

/-- Remember the time of an update. -/
def stampTick : Session :=
  let (tick, clock) := s.clock.getTickCount64
  { s with view := { s.view with tick := tick }, clock := clock }

/-- The update of `BuildTable` when its time has come. -/
def refresh (r : Refresh) : Session :=
  let empty := s.view.processes.isEmpty
  let s := s.enumProcesses host r.world
  let s := s.takeRows host empty
  let s := s.sortAgain host r
  s.stampTick

/-- The update of `BuildTable`, made unless the view is paused or it is too early. -/
def refreshIfDue (r : Refresh) : Session :=
  if s.view.updateInterval > 0 then
    let (now, clock) := s.clock.getTickCount64
    let s := { s with clock := clock }
    if now - s.view.tick ≥ s.view.updateInterval.toInt64.toUInt64 then s.refresh host r else s
  else s

/-- The local variables of `BuildTable` that its purge loop changes. -/
structure Purge where
  /-- The session. -/
  session : Session
  /-- `i`. -/
  i : ℕ
  /-- `indices`. -/
  indices : List ℕ

/-- The start of the body of the purge loop: the row loses its `Filtered` flag, and
`Update` is called. -/
def updateRow (p : Ref ProcessInfo) : Session × Bool :=
  let (px, v) := s.view.getProcessInfoEx host p
  let (gone, px, clock) := { px with filtered := false }.update s.clock
  ({ view := v.setProcessInfoEx p px
     clock := clock
     history := { s.history with updates := s.history.updates ++ [(p, gone)] } }, gone)

/-- The body of the purge loop, without its increment of `i`, which the erasing
branch takes back. -/
def purgeRow (filter : WString) (l : Purge) : Purge :=
  match l.session.view.processes[l.i]? with
  | none => l
  | some p =>
    let (s, gone) := l.session.updateRow host p
    if gone then { l with session := s.onView fun v => v.eraseRow l.i p }
    else if s.view.hides host filter p then
      { l with session := s.onView fun v => v.hideRow host p, i := l.i + 1 }
    else { session := s, i := l.i + 1, indices := l.indices ++ [l.i] }

/-- The purge loop with `count - i` rows left: each round either advances `i` or
lowers `count`. -/
def purgeLoop (filter : WString) : ℕ → Purge → Purge
  | 0, l => l
  | left + 1, l => purgeLoop filter left (purgeRow host filter l)

/-- The purge loop of `BuildTable`. -/
def purge : Purge :=
  purgeLoop host (s.view.filter host) s.view.processes.length ⟨s, 0, []⟩

/-- The sort of `BuildTable` when the user has changed the column or direction. -/
def sortIfDirty (specs : Option TableSpecs) : Session :=
  match specs with
  | some t =>
    if t.dirty then
      s.onView fun v => { v with specs := true }.doSort host t.answers t.columnIndex t.ascending
    else s
  | none => s

/-- The box that reports a failed kill. -/
def failureBox (result : MessageBoxResult) : Session :=
  if s.view.killFailed ∧ result ≠ .stillOpen then s.onView fun v => { v with killFailed := false }
  else s

/-- `KillProcess`: the process that was opened and terminated, and the success. -/
def killProcess (os : ProcessTable) (id : UInt32) : Option ProcessOrThreadKey × Bool :=
  match os.openById id with
  | none => (none, false)
  | some process => (some process, os.terminates process)

/-- `TryKillProcess` for the selected process, with the value of `success`
afterwards if it returns true. -/
def tryKillProcess (answer : DialogAnswer) (selected : Ref ProcessInfo) : Session × Option Bool :=
  let s := s.onView fun v => { v with modalOpen := true }
  let attempt : KillAttempt := ⟨s.view.key selected, answer, none⟩
  let record (a : KillAttempt) : History :=
    { s.history with attempts := s.history.attempts ++ [a] }
  match answer.result with
  | .stillOpen => ({ s with history := record attempt }, none)
  | .ok =>
    let (target, success) := killProcess answer.os (s.view.pm.process selected).id
    let s := { s with history := record { attempt with target := target } }
    let v := { s.view with modalOpen := false }
    let v := if success then { v with selectedProcess := none } else v
    ({ s with view := v }, some success)
  | _ =>
    let s := { s with history := record attempt }
    (s.onView fun v => { v with modalOpen := false }, some answer.rawSuccess)

/-- Make a process the selected one. -/
def select (pi : Ref ProcessInfo) : Session :=
  s.onView fun v => { v with selectedProcess := some pi }

/-- Ask for the kill dialog. -/
def openDialog : Session := s.onView fun v => { v with modalOpen := true }

/-- `GotoFileLocation`, which looks up the record of the process. -/
def gotoFileLocation (pi : Ref ProcessInfo) : Session :=
  s.onView fun v => (v.getProcessInfoEx host pi).2

/-- `GetOrAddProcessProperties`. -/
def getOrAddProcessProperties (pi : Ref ProcessInfo) : Session :=
  { s with history := { s.history with properties := s.history.properties ++ [pi] } }

/-- The context menu of a row. -/
def contextMenu (p : Ref ProcessInfo) (c : PopupChoice) : Session :=
  let s := s.select p
  let s := if c.kill then s.openDialog else s
  let s := if c.goToFile then s.gotoFileLocation host p else s
  if c.properties then s.getOrAddProcessProperties p else s

/-- A click on a row selects it, unless the dialog is open. -/
def clickRow (clicked : Bool) (p : Ref ProcessInfo) : Session :=
  if !s.view.modalOpen && clicked then s.select p else s

/-- Shift+Delete asks for the dialog if a process is selected. -/
def deleteKey (shiftDelete : Bool) : Session :=
  if s.view.selectedProcess.isSome && shiftDelete then s.openDialog else s

/-- The part of the row loop body with the Delete key and the context menu. -/
def rowMenus (shiftDelete : Bool) (p : Ref ProcessInfo) (popup : Option PopupChoice) : Session :=
  if s.view.modalOpen then s
  else
    let s := s.deleteKey shiftDelete
    match popup with
    | none => s
    | some c => s.contextMenu host p c

/-- The part of the row loop body that shows the dialog. -/
def rowDialog (p : Ref ProcessInfo) (answer : DialogAnswer) : Session :=
  if s.view.modalOpen ∧ s.view.selectedProcess = some p then
    let (s, success) := s.tryKillProcess answer p
    if success = some false then s.onView fun v => { v with killFailed := true } else s
  else s

/-- Record that a row is drawn. -/
def noteDrawn (p : Ref ProcessInfo) : Session :=
  { s with history := { s.history with drawn := s.history.drawn ++ [p] } }

/-- The body of the row loop. The record of the row decides whether it is drawn;
a sort after the purge may have moved a filtered row to the position. -/
def drawRow (shiftDelete : Bool) (indices : List ℕ) (s : Session) (visit : RowVisit) : Session :=
  match indices[visit.position]? >>= fun i => s.view.processes[i]? with
  | none => s
  | some p =>
    let (px, v) := s.view.getProcessInfoEx host p
    let s := { s with view := v }
    if px.filtered then s
    else
      let s := s.noteDrawn p
      let s := s.clickRow visit.clicked p
      let s := s.rowMenus host shiftDelete p visit.popup
      s.rowDialog p visit.answer

/-- Choose an entry of the interval menu. -/
def chooseInterval (item : IntervalItem) (v : ProcessesView) : ProcessesView :=
  match item with
  | .msec500 => { v with updateInterval := 500 }
  | .second1 => { v with updateInterval := 1000 }
  | .seconds2 => { v with updateInterval := 2000 }
  | .seconds5 => { v with updateInterval := 5000 }
  | .paused => v.togglePause

/-- The filter field and the Clear button. -/
def editFilter (t : ToolBar) : Session :=
  s.onView fun v => { v with filterText := if t.clear then .empty else t.filterText }

/-- The Kill button, which is enabled when a process is selected. -/
def killButton (t : ToolBar) : Session :=
  match s.view.selectedProcess with
  | some selected => if t.kill then (s.tryKillProcess t.answer selected).1 else s
  | none => s

/-- The interval menu. -/
def intervalMenu (t : ToolBar) : Session :=
  match t.interval with
  | some item => s.onView (chooseInterval item)
  | none => s

/-- `BuildToolBar`. -/
def buildToolBar (t : ToolBar) : Session := ((s.editFilter t).killButton t).intervalMenu t

/-- `BuildTable` up to the purge loop. -/
def updateTable (f : Frame) : Session :=
  let s := if f.space then s.onView ProcessesView.togglePause else s
  s.refreshIfDue host f.refresh

/-- `BuildTable` from the end of the purge loop. -/
def drawTable (f : Frame) (l : Purge) : Session :=
  let s := l.session.sortIfDirty host f.specs
  let s := s.failureBox f.failureResult
  f.visits.foldl (drawRow host f.shiftDelete l.indices) s

/-- `BuildTable`. -/
def buildTable (f : Frame) : Session :=
  if f.tableOpen then drawTable host f ((s.updateTable host f).purge host) else s

/-- `BuildWindow`, one frame. -/
def buildWindow (f : Frame) : Session := (s.buildToolBar f.toolBar).buildTable host f

/-- A run of frames. -/
def run (readings : ℕ → UInt64) (frames : List Frame) : Session :=
  frames.foldl (buildWindow host) (initial host readings)

end Session

end ProcExpX
