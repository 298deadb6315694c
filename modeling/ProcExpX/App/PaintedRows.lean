import ProcExpX.App.RowColors
import ProcExpX.App.VisibleRows

/-!
# Rows painted late

The background of a row is painted when the next row begins or the list clipper goes on, by
the colours that are then in force. The row loop is compared with a table that paints each row
at once, in colours that depend on the row alone, and nothing behind a row off the screen.
-/

namespace ProcExpX

open Library WinSys

section Colors

variable {κ : Type}

/-- One row of the table as it is drawn. -/
structure PaintedRow (κ : Type) where
  /-- The row. -/
  row : Ref ProcessInfo
  /-- The background painted behind it, if any. -/
  background : Option κ
  /-- The colour of its text. -/
  text : κ
  /-- The colour behind its CPU share, if it is shown. -/
  cpu : Option κ

/-- A table that paints each row at once. -/
structure Painting (κ : Type) where
  /-- The session. -/
  session : Session
  /-- The number by which plain rows alternate. -/
  counter : ℤ
  /-- The rows drawn so far. -/
  rows : List (PaintedRow κ)

/-- The colours of a row that is not plain: those of the selection, else those of the first
enabled kind that applies to the process. -/
def rowColors (look : Look κ) (base : ImGuiCol → κ) (selected : Bool) (px : ProcessInfoEx)
    (visit : ColoredVisit κ) : Option (κ × κ) :=
  if selected then some (base .textSelectedBg, base .text)
  else
    let kind := ProcessColorIndex.priority.find? fun i =>
      (look.processColors i).enabled && i.applies px visit.attributes
    let colors := (kind.map fun i =>
      ((look.processColors i).color, (look.processColors i).textColor)).getD visit.temporaries
    if look.nonneg colors.1 then some colors else none

/-- Paint the row at a position, if there is one to draw. -/
def Painting.drawRow (look : Look κ) (base : ImGuiCol → κ) (host : Host) (shiftDelete : Bool)
    (indices : List ℕ) (q : Painting κ) (visit : ColoredVisit κ) : Painting κ :=
  let session := q.session.drawRow host shiftDelete indices visit.toRowVisit
  match q.session.rowAt host indices visit.position with
  | none => { q with session := session }
  | some p =>
    let px := q.session.view.infoEx host p
    let selected := decide (q.session.view.selectedProcess = some p)
    let colors := rowColors look base selected px visit
    let plain := base (if q.counter % 2 = 1 then .tableRowBgAlt else .tableRowBg)
    let cpu := cpuColor look (base .tableRowBg) (q.session.view.pm.process p) px
    { session := session
      counter := q.counter + 1
      rows := q.rows ++ [
        { row := p
          background := visit.place.fill look.nonzero ((colors.map Prod.fst).getD plain)
          text := (colors.map Prod.snd).getD (base .text)
          cpu := if visit.cpuVisible then cpu else none }] }

/-- Paint the rows of one round of the clipper. -/
def Painting.drawStep (look : Look κ) (base : ImGuiCol → κ) (host : Host) (shiftDelete : Bool)
    (indices : List ℕ) (q : Painting κ) (step : ClipperStep κ) : Painting κ :=
  step.visits.foldl (drawRow look base host shiftDelete indices)
    { q with counter := q.counter + step.skipped }

/-- The colours that a special row pushes are in force. -/
theorem current_rowStyle (base : Overrides ImGuiCol κ) (background text : κ) :
    (base.pushes (rowStyle background text)).current .tableRowBg = background ∧
      (base.pushes (rowStyle background text)).current .tableRowBgAlt = background ∧
        (base.pushes (rowStyle background text)).current .text = text := by
  simp [Overrides.pushes, rowStyle, Overrides.push]

/-- A row is special precisely when it is not plain, and then it pushes its colours. -/
theorem rowColors_pushed (look : Look κ) (base : Overrides ImGuiCol κ) (selected : Bool)
    (px : ProcessInfoEx) (visit : ColoredVisit κ) :
    let colors := px.getColors look.processColors visit.attributes visit.temporaries
    let special := look.nonneg colors.1 || selected
    let own := rowColors look base.current selected px visit
    special = own.isSome ∧
      (if special then
        if selected then base.pushes (rowStyle (base.current .textSelectedBg) (base.current .text))
        else base.pushes (rowStyle colors.1 colors.2)
      else base) = base.pushes ((own.map fun c => rowStyle c.1 c.2).getD []) := by
  dsimp only
  rw [ProcessInfoEx.getColors_eq]
  unfold rowColors
  cases selected with
  | true => simp
  | false =>
    dsimp only
    rw [Bool.or_false, if_neg Bool.false_ne_true, if_neg Bool.false_ne_true]
    split
    · rename_i hcolored
      exact ⟨hcolored, rfl⟩
    · rename_i hplain
      exact ⟨Bool.eq_false_iff.mpr hplain, rfl⟩

/-- The row loop has drawn what has been painted, except that its last row may still be
open. It has pushed nothing, or the colours of one row. -/
structure Drawing.Draws (look : Look κ) (base : Overrides ImGuiCol κ) (before : List κ)
    (d : Drawing κ) (q : Painting κ) : Prop where
  /-- The session is the same. -/
  session_eq : d.session = q.session
  /-- The colours pushed are those that `special` stands for. -/
  pushed : ∃ replaced, d.style = base.pushes replaced ∧
    replaced.length = if d.special then popCount else 0
  /-- If the open row ended now, the backgrounds would be the same. -/
  painted_eq : (d.table.finishRow look.nonzero d.style.current).painted =
    before ++ q.rows.filterMap (·.background)
  /-- The table would count as many plain rows. -/
  counter_eq : (d.table.finishRow look.nonzero d.style.current).rowBgColorCounter = q.counter
  /-- The texts are the same. -/
  texts_eq : d.texts = q.rows.map fun r => (r.row, r.text)
  /-- So are the colours behind CPU shares. -/
  children_eq : d.children = q.rows.filterMap (·.cpu)

namespace Drawing

variable {look : Look κ} {host : Host} {base : Overrides ImGuiCol κ} {before : List κ}
  {d : Drawing κ} {q : Painting κ}

/-- The colours of the last row can be taken back. -/
theorem Draws.popSpecial (h : d.Draws look base before q) : d.popSpecial = some base := by
  obtain ⟨replaced, hstyle, hlength⟩ := h.pushed
  have hpops := base.pops_pushes replaced
  unfold Drawing.popSpecial
  split
  · rename_i hspecial
    rw [hspecial, if_pos rfl] at hlength
    rwa [hstyle, ← hlength]
  · rename_i hspecial
    rw [if_neg hspecial, List.length_eq_zero_iff] at hlength
    rw [hstyle, hlength]
    rfl

/-- If the open row ends, the same rows have been painted. -/
theorem Draws.finishRow (h : d.Draws look base before q) :
    (d.finishRow look).Draws look base before q where
  session_eq := h.session_eq
  pushed := h.pushed
  painted_eq := by
    rw [← h.painted_eq]
    exact congrArg RowTable.painted (RowTable.finishRow_finishRow _ _ _ _)
  counter_eq := by
    rw [← h.counter_eq]
    exact congrArg RowTable.rowBgColorCounter (RowTable.finishRow_finishRow _ _ _ _)
  texts_eq := h.texts_eq
  children_eq := h.children_eq

/-- The cell of the CPU share leaves the style as it was. -/
theorem drawCpu_eq (d : Drawing κ) (cell : Option κ) :
    d.drawCpu cell = some { d with children := d.children ++ cell.toList } := by
  cases cell with
  | none => simp [drawCpu]
  | some color => simp [drawCpu, Overrides.pop_push, Overrides.current_push]

/-- A row whose drawing has begun, in its own colours or those of a plain row. -/
theorem Draws.row (h : d.Draws look base before q) (s : Session) (p : Ref ProcessInfo)
    (own : Option (κ × κ)) (cpu : Option κ) (place : RowPlace) :
    let style := base.pushes ((own.map fun c => rowStyle c.1 c.2).getD [])
    Draws look base before
      { session := s
        style := style
        special := own.isSome
        table := d.table.nextRow look.nonzero d.style.current place
        texts := d.texts ++ [(p, style.current .text)]
        children := d.children ++ cpu.toList }
      { session := s
        counter := q.counter + 1
        rows := q.rows ++ [
          { row := p
            background := place.fill look.nonzero ((own.map Prod.fst).getD
              (base.current (if q.counter % 2 = 1 then .tableRowBgAlt else .tableRowBg)))
            text := (own.map Prod.snd).getD (base.current .text)
            cpu := cpu }] } := by
  intro style
  obtain ⟨hpainted, hcounter⟩ := RowTable.finishRow_nextRow look.nonzero d.style.current
    style.current place d.table
  rw [h.painted_eq, h.counter_eq] at hpainted
  rw [h.counter_eq] at hcounter
  have htext : style.current .text = (own.map Prod.snd).getD (base.current .text) := by
    cases own with
    | none => rfl
    | some c => exact (current_rowStyle base c.1 c.2).2.2
  have hbackground : ∀ odd : Prop, [Decidable odd] →
      style.current (if odd then .tableRowBgAlt else .tableRowBg) =
        (own.map Prod.fst).getD (base.current (if odd then .tableRowBgAlt else .tableRowBg)) := by
    intro odd hodd
    cases own with
    | none => rfl
    | some c =>
      split
      · exact (current_rowStyle base c.1 c.2).2.1
      · exact (current_rowStyle base c.1 c.2).1
  refine ⟨rfl, ⟨_, rfl, ?_⟩, hpainted.trans ?_, hcounter, ?_, ?_⟩
  · cases own <;> rfl
  · rw [hbackground, List.filterMap_append, List.append_assoc, List.filterMap_cons]
    cases place.fill look.nonzero _ <;> rfl
  · rw [htext, h.texts_eq, List.map_append]
    rfl
  · rw [h.children_eq, List.filterMap_append]
    cases cpu <;> rfl

/-- **The body of the row loop** draws what the row at once would be painted as. -/
theorem Draws.drawRow (h : d.Draws look base before q) (shiftDelete : Bool) (indices : List ℕ)
    (visit : ColoredVisit κ) :
    ∃ d', d.drawRow look host (base.current .tableRowBg) shiftDelete indices visit = some d' ∧
      d'.Draws look base before (q.drawRow look base.current host shiftDelete indices visit) := by
  have hsession := h.session_eq
  unfold Drawing.drawRow Painting.drawRow
  rw [Session.rowAt_eq, ← hsession]
  unfold Session.drawRow
  cases hfound : (indices[visit.position]? >>= fun i => d.session.view.processes[i]?) with
  | none => exact ⟨d, rfl, { h with session_eq := rfl }⟩
  | some p =>
    dsimp only
    rw [ProcessesView.getProcessInfoEx_eq, Option.filter_some]
    dsimp only
    cases hfiltered : (d.session.view.infoEx host p).filtered with
    | true => exact ⟨_, rfl, { h with session_eq := rfl }⟩
    | false =>
      simp only [Bool.false_eq_true, if_false, Bool.not_false, if_true, h.popSpecial,
        Option.bind_some, drawCpu_eq]
      obtain ⟨hspecial, hstyle⟩ := rowColors_pushed look base
        (decide (d.session.view.selectedProcess = some p)) (d.session.view.infoEx host p) visit
      refine ⟨_, rfl, ?_⟩
      rw [hstyle, hspecial]
      exact h.row _ p _ _ visit.place

/-- After `TableEndRow` no row is open. -/
theorem finishRow_closed (look : Look κ) (d : Drawing κ) :
    (d.finishRow look).table.isInsideRow = false := by
  unfold Drawing.finishRow RowTable.finishRow
  dsimp only
  split
  · rfl
  · rename_i hinside
    exact Bool.eq_false_iff.mpr hinside

/-- **One round of the clipper** draws what its rows at once would be painted as. -/
theorem Draws.drawStep (h : d.Draws look base before q) (shiftDelete : Bool) (indices : List ℕ)
    (step : ClipperStep κ) :
    ∃ d', d.drawStep look host (base.current .tableRowBg) shiftDelete indices step = some d' ∧
      d'.Draws look base before (q.drawStep look base.current host shiftDelete indices step) := by
  have hvisits : ∀ (visits : List (ColoredVisit κ)) (d : Drawing κ) (q : Painting κ),
      d.Draws look base before q →
        ∃ d', visits.foldlM (Drawing.drawRow look host (base.current .tableRowBg) shiftDelete
            indices) d = some d' ∧
          d'.Draws look base before
            (visits.foldl (Painting.drawRow look base.current host shiftDelete indices) q) := by
    intro visits
    induction visits with
    | nil => exact fun d q h => ⟨d, rfl, h⟩
    | cons visit visits ih =>
      intro d q h
      obtain ⟨d', hrow, h'⟩ := h.drawRow shiftDelete indices visit
      rw [List.foldlM_cons, hrow]
      exact ih d' _ h'
  refine hvisits step.visits _ _ ?_
  have hended := h.finishRow
  have hclosed := d.finishRow_closed look
  have hpainted := hended.painted_eq
  have hcounter := hended.counter_eq
  unfold RowTable.finishRow at hpainted hcounter
  rw [hclosed, if_neg Bool.false_ne_true] at hpainted hcounter
  refine ⟨hended.session_eq, hended.pushed, ?_, ?_, hended.texts_eq, hended.children_eq⟩
  · unfold RowTable.finishRow
    dsimp only
    rw [hclosed, if_neg Bool.false_ne_true]
    exact hpainted
  · unfold RowTable.finishRow
    dsimp only
    rw [hclosed, if_neg Bool.false_ne_true, hcounter]

/-- The local variables before the row loop, with the session, the style and the table. -/
def start (s : Session) (style : Overrides ImGuiCol κ) (table : RowTable κ) : Drawing κ :=
  { session := s, style := style, special := false, table := table, texts := [], children := [] }

end Drawing

/-- The rows that the clipper hands out, painted one at a time. -/
def paintRows (look : Look κ) (base : ImGuiCol → κ) (host : Host) (shiftDelete : Bool)
    (indices : List ℕ) (steps : List (ClipperStep κ)) (q : Painting κ) : Painting κ :=
  steps.foldl (Painting.drawStep look base host shiftDelete indices) q

/-- The positions that the clipper hands out. -/
def visitsOf (steps : List (ClipperStep κ)) : List RowVisit :=
  steps.flatMap fun step => step.visits.map (·.toRowVisit)

section Paint

variable (look : Look κ) (host : Host)

/-- **The row loop** draws what the rows at once would be painted as, and leaves the style as
it was. -/
theorem Drawing.drawRows_paints (s : Session) (style : Overrides ImGuiCol κ)
    (table : RowTable κ) (shiftDelete : Bool) (indices : List ℕ) (steps : List (ClipperStep κ)) :
    let ended := table.finishRow look.nonzero style.current
    let painting := paintRows look style.current host shiftDelete indices steps
      ⟨s, ended.rowBgColorCounter, []⟩
    ∃ d, (start s style table).drawRows look host shiftDelete indices steps = some d ∧
      d.style = style ∧ d.table.isInsideRow = false ∧ d.session = painting.session ∧
        d.table.painted = ended.painted ++ painting.rows.filterMap (·.background) ∧
          d.texts = painting.rows.map (fun r => (r.row, r.text)) ∧
            d.children = painting.rows.filterMap (·.cpu) := by
  intro ended painting
  have hstart : (start s style table).Draws look style ended.painted
      ⟨s, ended.rowBgColorCounter, []⟩ :=
    ⟨rfl, ⟨[], rfl, rfl⟩, (List.append_nil _).symm, rfl, rfl, rfl⟩
  have hsteps : ∀ (steps : List (ClipperStep κ)) (d : Drawing κ) (q : Painting κ),
      d.Draws look style ended.painted q →
        ∃ d', steps.foldlM (drawStep look host (style.current .tableRowBg) shiftDelete indices) d =
            some d' ∧
          d'.Draws look style ended.painted
            (paintRows look style.current host shiftDelete indices steps q) := by
    intro steps
    induction steps with
    | nil => exact fun d q h => ⟨d, rfl, h⟩
    | cons step steps ih =>
      intro d q h
      obtain ⟨d', hstep, h'⟩ := h.drawStep shiftDelete indices step
      rw [List.foldlM_cons, hstep]
      exact ih d' _ h'
  obtain ⟨d, hlooped, h⟩ := hsteps steps _ _ hstart.finishRow
  have hlast := h.finishRow
  refine ⟨{ d.finishRow look with style := style }.finishRow look, ?_, rfl, ?_,
    hlast.session_eq, ?_, hlast.texts_eq, hlast.children_eq⟩
  · show (steps.foldlM (drawStep look host (style.current .tableRowBg) shiftDelete indices)
      ((start s style table).finishRow look)).bind _ = _
    rw [hlooped, Option.bind_some]
    dsimp only
    rw [hlast.popSpecial]
    rfl
  · exact Drawing.finishRow_closed look _
  · rw [← h.painted_eq]
    exact congrArg RowTable.painted (RowTable.finishRow_finishRow _ _ _ _)

/-- Painting a row takes the session where the row loop takes it, and paints what it draws. -/
theorem Painting.drawRow_session (base : ImGuiCol → κ) (shiftDelete : Bool) (indices : List ℕ)
    (q : Painting κ) (visit : ColoredVisit κ) :
    (q.drawRow look base host shiftDelete indices visit).session =
        q.session.drawRow host shiftDelete indices visit.toRowVisit ∧
      (q.drawRow look base host shiftDelete indices visit).rows.map (·.row) =
        q.rows.map (·.row) ++ (q.session.rowAt host indices visit.position).toList := by
  unfold Painting.drawRow
  cases q.session.rowAt host indices visit.position with
  | none => exact ⟨rfl, (List.append_nil _).symm⟩
  | some p => exact ⟨rfl, List.map_append⟩

/-- Painting all rows takes the session where the row loop takes it, and the rows drawn are those
recorded in the history. -/
theorem paintRows_session (base : ImGuiCol → κ) (shiftDelete : Bool) (indices : List ℕ)
    (steps : List (ClipperStep κ)) (q : Painting κ) {before : List (Ref ProcessInfo)}
    (hdrawn : q.session.history.drawn = before ++ q.rows.map (·.row)) :
    let painting := paintRows look base host shiftDelete indices steps q
    painting.session =
        (visitsOf steps).foldl (Session.drawRow host shiftDelete indices) q.session ∧
      painting.session.history.drawn = before ++ painting.rows.map (·.row) := by
  have hvisits : ∀ (visits : List (ColoredVisit κ)) (q : Painting κ),
      q.session.history.drawn = before ++ q.rows.map (·.row) →
        let q' := visits.foldl (Painting.drawRow look base host shiftDelete indices) q
        q'.session = (visits.map (·.toRowVisit)).foldl (Session.drawRow host shiftDelete indices)
            q.session ∧
          q'.session.history.drawn = before ++ q'.rows.map (·.row) := by
    intro visits
    induction visits with
    | nil => exact fun q h => ⟨rfl, h⟩
    | cons visit visits ih =>
      intro q h
      obtain ⟨hsession, hrows⟩ :=
        Painting.drawRow_session look host base shiftDelete indices q visit
      have hdraws := (Session.drawRow_draws host shiftDelete indices q.session
        visit.toRowVisit).2
      rw [List.foldl_cons, List.map_cons, List.foldl_cons, ← hsession]
      apply ih
      rw [hsession, hdraws, h, hrows, List.append_assoc]
  induction steps generalizing q with
  | nil => exact ⟨rfl, hdrawn⟩
  | cons step steps ih =>
    obtain ⟨hsession, hstep⟩ := hvisits step.visits
      { q with counter := q.counter + step.skipped } hdrawn
    obtain ⟨hrest, hall⟩ := ih _ hstep
    refine ⟨hrest.trans ?_, hall⟩
    have hsplit : visitsOf (step :: steps) = step.visits.map (·.toRowVisit) ++ visitsOf steps :=
      List.flatMap_cons
    rw [hsplit, List.foldl_append, hsession]

/-- **The rows of a frame.** However the clipper hands out the rows, wherever they lie and
whatever the user does to them, each row drawn has a colour: that of the selection if the row was
selected when it began, else that of the first enabled kind that applies, else the alternating
colour of plain rows, unless the temporaries look like a colour. The backgrounds painted are those
of the rows on the screen whose colour is not 0, each once and in the order of the rows. The text
of a row has the colour that goes with it. At the end the style is what it was. -/
theorem Session.buildWindow_paints (s : Session) (f : Frame) (style : Overrides ImGuiCol κ)
    (table : RowTable κ) (steps : List (ClipperStep κ)) :
    let f := { f with tableOpen := true, visits := visitsOf steps }
    let header := table.finishRow look.nonzero style.current
    let rows := (paintRows look style.current host f.shiftDelete (s.rowIndices host f) steps
      ⟨s.beforeRows host f, header.rowBgColorCounter, []⟩).rows
    (∃ d, (Drawing.start (s.beforeRows host f) style table).drawRows look host f.shiftDelete
        (s.rowIndices host f) steps = some d ∧
      d.style = style ∧ d.table.isInsideRow = false ∧ d.session = s.buildWindow host f ∧
        d.table.painted = header.painted ++ rows.filterMap (·.background) ∧
          d.texts = rows.map (fun r => (r.row, r.text)) ∧
            d.children = rows.filterMap (·.cpu)) ∧
      (s.buildWindow host f).history.drawn =
        (s.beforeRows host f).history.drawn ++ rows.map (·.row) := by
  intro f header rows
  obtain ⟨d, hrun, hstyle, hclosed, hsession, hpainted, htexts, hchildren⟩ :=
    Drawing.drawRows_paints look host (s.beforeRows host f) style table f.shiftDelete
      (s.rowIndices host f) steps
  obtain ⟨hsame, hdrawn⟩ := paintRows_session look host style.current f.shiftDelete
    (s.rowIndices host f) steps
    ⟨s.beforeRows host f, header.rowBgColorCounter, []⟩ (List.append_nil _).symm
  have hframe : (paintRows look style.current host f.shiftDelete (s.rowIndices host f) steps
      ⟨s.beforeRows host f, header.rowBgColorCounter, []⟩).session = s.buildWindow host f :=
    hsame.trans (s.buildWindow_eq host (f := f) rfl).symm
  exact ⟨⟨d, hrun, hstyle, hclosed, hsession.trans hframe, hpainted, htexts, hchildren⟩,
    hframe ▸ hdrawn⟩

end Paint

end Colors

end ProcExpX
