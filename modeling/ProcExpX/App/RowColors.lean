import ProcExpX.App.Attributes
import ProcExpX.Library.Overrides

/-!
# The colours of the rows

A row of a special kind is drawn in colours of its own, which `BuildTable` pushes on the
style when the row begins. The table paints the background of a row only when the row ends,
with the colours that are in force by then, and only if the row is on the screen. `BuildTable`
therefore leaves the colours pushed until the next row has begun, and takes the last ones back
after the list clipper has ended the last row.
-/

namespace ProcExpX

open Library WinSys

/-- The colours of the style that the process table uses. -/
inductive ImGuiCol
  | text
  | childBg
  | tableRowBg
  | tableRowBgAlt
  | textSelectedBg
  deriving DecidableEq

/-- `ProcessColor`, without its name and defaults. -/
structure ProcessColor (κ : Type) where
  /-- `Color`. -/
  color : κ
  /-- `TextColor`. -/
  textColor : κ
  /-- `Enabled`. -/
  enabled : Bool

/-- `Settings::ProcessColorIndex`. -/
inductive ProcessColorIndex
  | newObjects
  | deletedObjects
  | manageed
  | immersive
  | services
  | protectedProcess
  | secure
  | inJob

/-- How the table looks. -/
structure Look (κ : Type) where
  /-- `ProcessColors`. -/
  processColors : ProcessColorIndex → ProcessColor κ
  /-- Whether the first component of a colour is at least zero. -/
  nonneg : κ → Bool
  /-- Whether `GetColorU32` of a colour is not 0. -/
  nonzero : κ → Bool
  /-- The colour behind a CPU share above one percent. -/
  heat : Int32 → κ

section Colors

variable {κ : Type}

/-- `GetColors`, with what `GetAttributes` answers. If no kind applies it returns references
to temporaries; `temporaries` is what is read there later. -/
def ProcessInfoEx.getColors (colors : ProcessColorIndex → ProcessColor κ) (px : ProcessInfoEx)
    (attributes : Int32) (temporaries : κ × κ) : κ × κ :=
  let pair (i : ProcessColorIndex) := ((colors i).color, (colors i).textColor)
  let has (flag : Int32) := attributes &&& flag == flag
  if (colors .deletedObjects).enabled && px.isTerminated then pair .deletedObjects
  else if (colors .newObjects).enabled && px.isNew then pair .newObjects
  else if (colors .manageed).enabled && has ProcessAttributes.managed then pair .manageed
  else if (colors .immersive).enabled && has ProcessAttributes.immersive then pair .immersive
  else if (colors .secure).enabled && has ProcessAttributes.secure then pair .secure
  else if (colors .protectedProcess).enabled && has ProcessAttributes.protectedProcess then
    pair .protectedProcess
  else if (colors .services).enabled && has ProcessAttributes.service then pair .services
  else if (colors .inJob).enabled && has ProcessAttributes.inJob then pair .inJob
  else temporaries

/-- Where a row lies when it ends. -/
structure RowPlace where
  /-- `is_visible`. -/
  isVisible : Bool
  /-- `row_rect.Min.y < row_rect.Max.y`, for the clipped rectangle of the row. -/
  hasHeight : Bool

/-- What is painted behind a row in a colour, if anything. -/
def RowPlace.fill (nonzero : κ → Bool) (place : RowPlace) (color : κ) : Option κ :=
  if place.isVisible && nonzero color && place.hasHeight then some color else none

/-- What a table remembers of its current row, and what it has painted. -/
structure RowTable (κ : Type) where
  /-- `IsInsideRow`. -/
  isInsideRow : Bool
  /-- Whether `RowFlags` mark a row of headers. -/
  headers : Bool
  /-- `RowBgColor[0]`, if it is set. -/
  rowBgColor : Option κ
  /-- `RowBgColorCounter`. -/
  rowBgColorCounter : ℤ
  /-- Where the current row lies in the end. -/
  place : RowPlace
  /-- The backgrounds painted so far. -/
  painted : List κ

namespace RowTable

variable (nonzero : κ → Bool)

/-- `TableEndRow`, as far as it paints the background. -/
def endRow (style : ImGuiCol → κ) (t : RowTable κ) : RowTable κ :=
  let col := if t.rowBgColorCounter % 2 = 1 then ImGuiCol.tableRowBgAlt else .tableRowBg
  let background := t.place.fill nonzero (t.rowBgColor.getD (style col))
  { t with
    isInsideRow := false
    rowBgColorCounter := if t.headers then t.rowBgColorCounter else t.rowBgColorCounter + 1
    painted := t.painted ++ background.toList }

/-- `TableEndRow`, if a row is open. -/
def finishRow (style : ImGuiCol → κ) (t : RowTable κ) : RowTable κ :=
  if t.isInsideRow then t.endRow nonzero style else t

/-- `TableBeginRow` for a row that is not one of headers. -/
def beginRow (place : RowPlace) (t : RowTable κ) : RowTable κ :=
  { t with isInsideRow := true, headers := false, rowBgColor := none, place := place }

/-- `TableNextRow`. -/
def nextRow (style : ImGuiCol → κ) (place : RowPlace) (t : RowTable κ) : RowTable κ :=
  (t.finishRow nonzero style).beginRow place

/-- A row that has ended does not end again. -/
theorem finishRow_finishRow (style style' : ImGuiCol → κ) (t : RowTable κ) :
    (t.finishRow nonzero style).finishRow nonzero style' = t.finishRow nonzero style := by
  cases hinside : t.isInsideRow with
  | true => simp [finishRow, endRow, hinside]
  | false => simp [finishRow, hinside]

/-- A plain row is painted by the colours in force at its end. -/
theorem finishRow_nextRow (style style' : ImGuiCol → κ) (place : RowPlace) (t : RowTable κ) :
    let ended := t.finishRow nonzero style
    let col := if ended.rowBgColorCounter % 2 = 1 then ImGuiCol.tableRowBgAlt else .tableRowBg
    let next := (t.nextRow nonzero style place).finishRow nonzero style'
    next.painted = ended.painted ++ (place.fill nonzero (style' col)).toList ∧
      next.rowBgColorCounter = ended.rowBgColorCounter + 1 :=
  ⟨rfl, rfl⟩

end RowTable

/-- What happens at one position of the list clipper, with what the colours depend on. -/
structure ColoredVisit (κ : Type) extends RowVisit where
  /-- What `GetAttributes` answers. -/
  attributes : Int32
  /-- What the temporaries of `GetColors` hold when they are read. -/
  temporaries : κ × κ
  /-- Whether the column of the CPU share is visible. -/
  cpuVisible : Bool
  /-- Where the row lies when it ends. -/
  place : RowPlace

/-- One successful `Step` of the list clipper. -/
structure ClipperStep (κ : Type) where
  /-- The number of rows it seeks past, `row_increase`. -/
  skipped : ℤ
  /-- The positions it hands out. -/
  visits : List (ColoredVisit κ)

/-- The local variables of `BuildTable` that its row loop changes, with the style, the table
and what has been drawn. -/
structure Drawing (κ : Type) where
  /-- The session. -/
  session : Session
  /-- The style. -/
  style : Overrides ImGuiCol κ
  /-- `special`. -/
  special : Bool
  /-- The table. -/
  table : RowTable κ
  /-- The rows drawn, each with the colour of its text. -/
  texts : List (Ref ProcessInfo × κ)
  /-- The colours of the child windows behind CPU shares. -/
  children : List κ

/-- `popCount`. -/
def popCount : ℕ := 3

/-- The colour behind a CPU share, if it is shown. -/
def cpuColor (look : Look κ) (orgBackColor : κ) (p : ProcessInfo) (px : ProcessInfoEx) :
    Option κ :=
  if p.cpu > 0 && !px.isTerminated then
    -- One percent is 10000.
    let customColors := p.id != 0 && decide (p.cpu > 10000)
    some (if customColors then look.heat p.cpu else orgBackColor)
  else none

/-- What a special row pushes. -/
def rowStyle (background text : κ) : List (ImGuiCol × κ) :=
  [(.tableRowBg, background), (.tableRowBgAlt, background), (.text, text)]

namespace Drawing

variable (look : Look κ) (host : Host) (d : Drawing κ)

/-- `TableEndRow`, if a row is open. -/
def finishRow : Drawing κ :=
  { d with table := d.table.finishRow look.nonzero d.style.current }

/-- `PopStyleColor` if the last row was special. -/
def popSpecial : Option (Overrides ImGuiCol κ) :=
  if d.special then d.style.pops popCount else some d.style

/-- The cell of the CPU share. -/
def drawCpu (cell : Option κ) : Option (Drawing κ) :=
  match cell with
  | none => some d
  | some color =>
    let style := d.style.push .childBg color
    let children := d.children ++ [style.current .childBg]
    style.pop.map fun style => { d with style := style, children := children }

/-- The body of the row loop. `orgBackColor` is read before the loop. -/
def drawRow (orgBackColor : κ) (shiftDelete : Bool) (indices : List ℕ) (d : Drawing κ)
    (visit : ColoredVisit κ) : Option (Drawing κ) :=
  match indices[visit.position]? >>= fun i => d.session.view.processes[i]? with
  | none => some d
  | some p =>
    let (px, v) := d.session.view.getProcessInfoEx host p
    let s := { d.session with view := v }
    if px.filtered then some { d with session := s }
    else
      let table := d.table.nextRow look.nonzero d.style.current visit.place
      d.popSpecial.bind fun style =>
      let colors := px.getColors look.processColors visit.attributes visit.temporaries
      let selected := decide (s.view.selectedProcess = some p)
      let special := look.nonneg colors.1 || selected
      let style :=
        if special then
          if selected then style.pushes (rowStyle (style.current .textSelectedBg)
            (style.current .text))
          else style.pushes (rowStyle colors.1 colors.2)
        else style
      let cpu := cpuColor look orgBackColor (s.view.pm.process p) px
      let s := s.noteDrawn p
      let s := s.clickRow visit.clicked p
      let s := s.rowMenus host shiftDelete p visit.popup
      let s := s.rowDialog p visit.answer
      let d := { d with
        session := s
        style := style
        special := special
        table := table
        texts := d.texts ++ [(p, style.current .text)] }
      d.drawCpu (if visit.cpuVisible then cpu else none)

/-- One round of the loop around the clipper. -/
def drawStep (orgBackColor : κ) (shiftDelete : Bool) (indices : List ℕ) (d : Drawing κ)
    (step : ClipperStep κ) : Option (Drawing κ) :=
  let d := d.finishRow look
  let table := { d.table with rowBgColorCounter := d.table.rowBgColorCounter + step.skipped }
  step.visits.foldlM (drawRow look host orgBackColor shiftDelete indices)
    { d with table := table }

/-- `BuildTable` from the beginning of the clipper to `EndTable`. -/
def drawRows (shiftDelete : Bool) (indices : List ℕ) (steps : List (ClipperStep κ)) :
    Option (Drawing κ) :=
  let orgBackColor := d.style.current .tableRowBg
  let d := d.finishRow look
  let looped := steps.foldlM (drawStep look host orgBackColor shiftDelete indices) d
  looped.bind fun d =>
  -- The last call of `Step` hands out nothing, and ends the last row.
  let d := d.finishRow look
  d.popSpecial.map fun style => { d with style := style }.finishRow look

end Drawing

/-- The kinds in the order in which `GetColors` tries them. -/
def ProcessColorIndex.priority : List ProcessColorIndex :=
  [.deletedObjects, .newObjects, .manageed, .immersive, .secure, .protectedProcess, .services,
    .inJob]

/-- Whether a process is of a kind. -/
def ProcessColorIndex.applies (px : ProcessInfoEx) (attributes : Int32) :
    ProcessColorIndex → Bool
  | .newObjects => px.isNew
  | .deletedObjects => px.isTerminated
  | .manageed => attributes &&& ProcessAttributes.managed == ProcessAttributes.managed
  | .immersive => attributes &&& ProcessAttributes.immersive == ProcessAttributes.immersive
  | .services => attributes &&& ProcessAttributes.service == ProcessAttributes.service
  | .protectedProcess =>
    attributes &&& ProcessAttributes.protectedProcess == ProcessAttributes.protectedProcess
  | .secure => attributes &&& ProcessAttributes.secure == ProcessAttributes.secure
  | .inJob => attributes &&& ProcessAttributes.inJob == ProcessAttributes.inJob

/-- `GetColors` returns the colours of the first kind that is enabled and applies. -/
theorem ProcessInfoEx.getColors_eq (colors : ProcessColorIndex → ProcessColor κ)
    (px : ProcessInfoEx) (attributes : Int32) (temporaries : κ × κ) :
    px.getColors colors attributes temporaries =
      ((ProcessColorIndex.priority.find? fun i =>
        (colors i).enabled && i.applies px attributes).map fun i =>
          ((colors i).color, (colors i).textColor)).getD temporaries := by
  have hfirst : ∀ (q : ProcessColorIndex → Bool) (f : ProcessColorIndex → κ × κ) i kinds,
      (((i :: kinds).find? q).map f).getD temporaries =
        if q i then f i else ((kinds.find? q).map f).getD temporaries := by
    intro q f i kinds
    cases hq : q i <;> simp [hq]
  unfold ProcessColorIndex.priority
  simp only [hfirst]
  rfl

end Colors

end ProcExpX
