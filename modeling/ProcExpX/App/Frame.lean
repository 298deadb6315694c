import ProcExpX.WinSys.Runs

/-!
# What a frame meets

The process view is driven from outside, frame by frame: by what the user does, by
the answers of dialogs, by the processes of the system at that moment, and by what
an enumeration and a sort are told. None of it is restricted here beyond the types.
-/

namespace ProcExpX

open Library WinSys

/-- `MessageBoxResult`. -/
inductive MessageBoxResult
  | stillOpen
  | cancel
  | ok
  | yes
  | no
  deriving DecidableEq

/-- The processes of the system at one moment. -/
structure ProcessTable where
  /-- The process that owns a pid. -/
  owner : UInt32 → Option ProcessOrThreadKey
  /-- A process owns the pid in its key only. -/
  owner_id : ∀ pid key, owner pid = some key → key.id = pid
  /-- Whether a process may be opened for termination. -/
  grants : ProcessOrThreadKey → Bool
  /-- Whether the termination of an opened process succeeds. -/
  terminates : ProcessOrThreadKey → Bool

/-- `OpenById` with the right to terminate: whichever process owns the pid is opened. -/
def ProcessTable.openById (os : ProcessTable) (pid : UInt32) : Option ProcessOrThreadKey :=
  (os.owner pid).filter os.grants

/-- A system of the given processes, all of which may be terminated. -/
def ProcessTable.of (keys : List ProcessOrThreadKey) : ProcessTable where
  owner pid := keys.find? fun key => key.id = pid
  owner_id pid key h := by simpa using List.find?_some h
  grants _ := true
  terminates _ := true

/-- How one call of `ShowModal` for the kill dialog ends. -/
structure DialogAnswer where
  /-- Its result. -/
  result : MessageBoxResult
  /-- The processes at that moment. -/
  os : ProcessTable
  /-- What the caller's variable `success` holds before it is assigned. -/
  rawSuccess : Bool

/-- The content of `_filterText` before the terminating NUL. -/
structure FilterText where
  /-- The characters. -/
  bytes : List UInt8
  /-- They fit the buffer with their terminator. -/
  fits : bytes.length < 16
  /-- None of them is the terminator. -/
  nonzero : 0 ∉ bytes

/-- The empty text. -/
def FilterText.empty : FilterText := ⟨[], by decide, by simp⟩

/-- The answers of the system that sorting by user name, path or attributes uses. -/
structure SortAnswers where
  /-- `UserName`. -/
  userName : Ref ProcessInfo → WString
  /-- `GetExecutablePath`. -/
  executablePath : Ref ProcessInfo → WString
  /-- `GetAttributes`. -/
  attributes : Ref ProcessInfo → Int32

/-- The current content of a sort specification. -/
structure SortSpec where
  /-- `ColumnIndex`. -/
  columnIndex : ℕ
  /-- Whether `SortDirection` is ascending. -/
  ascending : Bool

/-- What an update of the table meets outside the view. -/
structure Refresh where
  /-- What the enumeration meets. -/
  world : EnumWorld
  /-- What `_specs` points to. -/
  specs : SortSpec
  /-- The answers that sorting uses. -/
  answers : SortAnswers

/-- What `TableGetSortSpecs` returns: the specification and whether it changed. -/
structure TableSpecs extends SortSpec where
  /-- `SpecsDirty`. -/
  dirty : Bool
  /-- The answers that sorting uses. -/
  answers : SortAnswers

/-- What the user does in the context menu of a row. -/
structure PopupChoice where
  /-- Kill is chosen. -/
  kill : Bool
  /-- Go to file location is chosen. -/
  goToFile : Bool
  /-- Properties is chosen. -/
  properties : Bool

/-- What happens at one position of the list clipper. -/
structure RowVisit where
  /-- The position. -/
  position : ℕ
  /-- Whether the row is clicked. -/
  clicked : Bool
  /-- The context menu, if it is open. -/
  popup : Option PopupChoice
  /-- How the kill dialog ends if the row shows it. -/
  answer : DialogAnswer

/-- The entries of the interval menu. -/
inductive IntervalItem
  | msec500
  | second1
  | seconds2
  | seconds5
  | paused

/-- What the user does in the tool bar. -/
structure ToolBar where
  /-- The text that the filter field leaves in its buffer. -/
  filterText : FilterText
  /-- Clear is pressed. -/
  clear : Bool
  /-- Kill is pressed. -/
  kill : Bool
  /-- How the kill dialog ends if Kill shows it. -/
  answer : DialogAnswer
  /-- The chosen entry of the interval menu. -/
  interval : Option IntervalItem

/-- What one frame meets outside the view. -/
structure Frame where
  /-- The tool bar. -/
  toolBar : ToolBar
  /-- Whether `BeginTable` lets the table be built. -/
  tableOpen : Bool
  /-- Whether the space bar is pressed. -/
  space : Bool
  /-- What an update meets. -/
  refresh : Refresh
  /-- What `TableGetSortSpecs` returns. -/
  specs : Option TableSpecs
  /-- How the box that reports a failed kill ends if it is shown. -/
  failureResult : MessageBoxResult
  /-- Whether Shift+Delete is pressed. -/
  shiftDelete : Bool
  /-- The positions that the list clipper hands out, in any order. -/
  visits : List RowVisit

/-- A frame in which the user does nothing. -/
def Frame.idle (world : EnumWorld) : Frame :=
  { toolBar := ⟨.empty, false, false, ⟨.stillOpen, .of [], false⟩, none⟩
    tableOpen := true
    space := false
    refresh := ⟨world, ⟨0, true⟩, ⟨fun _ => [], fun _ => [], fun _ => 0⟩⟩
    specs := none
    failureResult := .stillOpen
    shiftDelete := false
    visits := [] }

end ProcExpX
