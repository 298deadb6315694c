import Mathlib.Data.List.Infix
import ProcExpX.App.DrawnRows
import ProcExpX.App.PurgedRows

/-!
# Which rows are drawn

The purge loop notes at which positions the rows stand that the filter shows. The rows
may be sorted before the positions are used, and the flag in the record of a row is
looked up once more. Here the rows drawn are compared with those that match the
filter, for a list clipper that hands out every position once.
-/

namespace ProcExpX

open Library WinSys

/-- `Find` finds a text precisely where it occurs. -/
theorem find_isSome_iff (sub s : WString) : (find sub s).isSome = true ↔ sub <:+: s := by
  induction s with
  | nil =>
    rw [find, List.infix_nil]
    split <;> simp_all
  | cons c s ih =>
    rw [find, List.infix_cons_iff, ← ih]
    cases hprefix : sub.isPrefixOf (c :: s) with
    | true => simp [List.isPrefixOf_iff_prefix.mp hprefix]
    | false =>
      have hnot : ¬ sub <+: c :: s := fun h => by simp [List.isPrefixOf_iff_prefix.mpr h] at hprefix
      simp [hnot]

namespace ProcessesView

/-- The name of a row, in lower case, contains the text of the filter in lower case. All
names contain the empty text. -/
def matchesFilter (host : Host) (v : ProcessesView) (p : Ref ProcessInfo) : Bool :=
  decide (v.filter host <:+: host.locale.makeLower (cStr (v.pm.process p).processName))

/-- The filter hides the rows that do not match. -/
theorem hides_eq (host : Host) (v : ProcessesView) (p : Ref ProcessInfo) :
    v.hides host (v.filter host) p = !v.matchesFilter host p := by
  have hfind : ∀ sub name : WString, (find sub name).isNone = !decide (sub <:+: name) := by
    intro sub name
    rw [← Option.not_isSome, Bool.not_inj_iff, Bool.eq_iff_iff, decide_eq_true_eq]
    exact find_isSome_iff sub name
  unfold hides matchesFilter
  dsimp only
  rw [hfind]
  cases hempty : (v.filter host).isEmpty with
  | true =>
    have hmatch : v.filter host <:+: host.locale.makeLower (cStr (v.pm.process p).processName) := by
      rw [List.isEmpty_iff.mp hempty]
      exact List.nil_infix
    rw [decide_eq_true hmatch]
    rfl
  | false => exact Bool.true_and _

/-- Whether a row matches depends on its process and the text of the filter only. -/
theorem matchesFilter_congr {v v' : ProcessesView} (hpm : v'.pm = v.pm)
    (htext : v'.filterText = v.filterText) (host : Host) :
    v'.matchesFilter host = v.matchesFilter host := by
  funext p
  unfold matchesFilter filter
  rw [hpm, htext]

/-- A view with the same processes and the same flags in the records of the rows. -/
structure SameFlags (host : Host) (v v' : ProcessesView) : Prop where
  /-- The manager is the same. -/
  pm_eq : v'.pm = v.pm
  /-- The flags are the same. -/
  filtered_eq : ∀ p, (v'.infoEx host p).filtered = (v.infoEx host p).filtered

namespace SameFlags

variable {host : Host} {v v' v'' : ProcessesView}

/-- Views with the same manager and the same records have the same flags. -/
theorem of_eq (hpm : v'.pm = v.pm) (hrecords : v'.processesEx = v.processesEx) :
    v.SameFlags host v' := by
  refine ⟨hpm, fun p => ?_⟩
  rw [infoEx_filtered_eq, infoEx_filtered_eq, hrecords, key_congr hpm]

/-- The flags are the same after two steps, if each of them leaves them alone. -/
theorem trans (h : v.SameFlags host v') (h' : v'.SameFlags host v'') : v.SameFlags host v'' :=
  ⟨h'.pm_eq.trans h.pm_eq, fun p => (h'.filtered_eq p).trans (h.filtered_eq p)⟩

/-- A record that is made is not flagged. -/
theorem getProcessInfoEx (host : Host) (v : ProcessesView) (p : Ref ProcessInfo) :
    v.SameFlags host (v.getProcessInfoEx host p).2 := by
  have hpm : (v.getProcessInfoEx host p).2.pm = v.pm := by rw [getProcessInfoEx_eq]
  refine ⟨hpm, fun q => ?_⟩
  rw [infoEx_filtered_eq, infoEx_filtered_eq, key_congr hpm, lookup_getProcessInfoEx]
  split
  · rename_i hkey
    rw [hkey, ← infoEx_filtered_eq]
    rfl
  · rfl

/-- Making records for several rows leaves all flags as they would be read. -/
theorem ensureProcessInfoEx (host : Host) (v : ProcessesView) (pis : List (Ref ProcessInfo)) :
    v.SameFlags host (v.ensureProcessInfoEx host pis) := by
  induction pis generalizing v with
  | nil => exact of_eq rfl rfl
  | cons p pis ih => exact (getProcessInfoEx host v p).trans (ih _)

/-- A sort leaves the flags alone, although it makes records. -/
theorem doSort (host : Host) (v : ProcessesView) (answers : SortAnswers) (col : ℕ) (asc : Bool) :
    v.SameFlags host (v.doSort host answers col asc) := by
  have hensure := ensureProcessInfoEx host v v.processes
  unfold ProcessesView.doSort
  dsimp only
  split
  · exact hensure.trans (of_eq rfl rfl)
  · exact of_eq rfl rfl

end SameFlags

end ProcessesView

namespace Session

variable {host : Host} {s s' s'' : Session}

/-- A step that leaves the rows, the flags in their records and the record of what is
drawn alone. -/
structure SameBoard (host : Host) (s s' : Session) : Prop where
  /-- The processes and the flags are the same. -/
  flags : s.view.SameFlags host s'.view
  /-- The rows are the same. -/
  processes_eq : s'.view.processes = s.view.processes
  /-- Nothing is drawn. -/
  drawn_eq : s'.history.drawn = s.history.drawn

namespace SameBoard

/-- A session that has not changed shows the same board. -/
theorem refl (s : Session) : s.SameBoard host s := ⟨.of_eq rfl rfl, rfl, rfl⟩

/-- Two steps one after the other show the same board, if each of them does. -/
theorem trans (h : s.SameBoard host s') (h' : s'.SameBoard host s'') : s.SameBoard host s'' :=
  ⟨h.flags.trans h'.flags, h'.processes_eq.trans h.processes_eq, h'.drawn_eq.trans h.drawn_eq⟩

/-- A step that may be left out shows the same board, if it does where it is made. -/
theorem ite {c : Prop} [Decidable c] (h : c → s.SameBoard host s') :
    s.SameBoard host (if c then s' else s) := by
  split
  · rename_i hc
    exact h hc
  · exact refl s

/-- A change of the view that concerns neither the rows nor their records. -/
theorem onView (s : Session) {f : ProcessesView → ProcessesView} (hpm : (f s.view).pm = s.view.pm)
    (hrows : (f s.view).processes = s.view.processes)
    (hrecords : (f s.view).processesEx = s.view.processesEx) : s.SameBoard host (s.onView f) :=
  ⟨.of_eq hpm hrecords, hrows, rfl⟩

/-- `GetProcessInfoEx` shows the same board, since a new record hides nothing. -/
theorem getProcessInfoEx (host : Host) (s : Session) (p : Ref ProcessInfo) :
    s.SameBoard host { s with view := (s.view.getProcessInfoEx host p).2 } := by
  refine ⟨.getProcessInfoEx host s.view p, ?_, rfl⟩
  dsimp only
  rw [ProcessesView.getProcessInfoEx_eq]

/-- `TryKillProcess` shows the same board, whatever is answered. -/
theorem tryKillProcess (s : Session) (answer : DialogAnswer) (p : Ref ProcessInfo) :
    s.SameBoard host (s.tryKillProcess answer p).1 := by
  unfold Session.tryKillProcess
  dsimp only
  split
  · exact ⟨.of_eq rfl rfl, rfl, rfl⟩
  · dsimp only
    split <;> exact ⟨.of_eq rfl rfl, rfl, rfl⟩
  · exact ⟨.of_eq rfl rfl, rfl, rfl⟩

/-- The context menu of a row shows the same board, whatever is chosen in it. -/
theorem contextMenu (host : Host) (s : Session) (p : Ref ProcessInfo) (c : PopupChoice) :
    s.SameBoard host (s.contextMenu host p c) := by
  have hkill : ∀ s : Session, s.SameBoard host (if c.kill then s.openDialog else s) :=
    fun s => ite fun _ => onView s rfl rfl rfl
  have hfile : ∀ s : Session,
      s.SameBoard host (if c.goToFile then s.gotoFileLocation host p else s) :=
    fun s => ite fun _ => getProcessInfoEx host s p
  have hproperties : ∀ s : Session,
      s.SameBoard host (if c.properties then s.getOrAddProcessProperties p else s) :=
    fun s => ite fun _ => ⟨.of_eq rfl rfl, rfl, rfl⟩
  have hselect : s.SameBoard host (s.select p) := onView s rfl rfl rfl
  exact ((hselect.trans (hkill _)).trans (hfile _)).trans (hproperties _)

/-- The Delete key and the context menu of a row. -/
theorem rowMenus (host : Host) (s : Session) (shiftDelete : Bool) (p : Ref ProcessInfo)
    (popup : Option PopupChoice) : s.SameBoard host (s.rowMenus host shiftDelete p popup) := by
  have hdelete : s.SameBoard host (s.deleteKey shiftDelete) := ite fun _ => onView s rfl rfl rfl
  unfold Session.rowMenus
  split
  · exact refl s
  · cases popup with
    | none => exact hdelete
    | some c => exact hdelete.trans (contextMenu host _ p c)

/-- The dialog of a row shows the same board, whatever is answered. -/
theorem rowDialog (host : Host) (s : Session) (p : Ref ProcessInfo) (answer : DialogAnswer) :
    s.SameBoard host (s.rowDialog p answer) := by
  have hkill : s.SameBoard host (s.tryKillProcess answer p).1 := tryKillProcess s answer p
  exact ite fun _ => hkill.trans (ite fun _ => onView _ rfl rfl rfl)

end SameBoard

/-- The row at a position of the list clipper, if its record is not flagged. -/
def rowAt (host : Host) (indices : List ℕ) (s : Session) (position : ℕ) :
    Option (Ref ProcessInfo) :=
  indices[position]? >>= fun i =>
    s.view.processes[i]?.filter fun p => !(s.view.infoEx host p).filtered

/-- The row found at a position is dropped if its record is flagged. -/
theorem rowAt_eq (host : Host) (indices : List ℕ) (s : Session) (position : ℕ) :
    s.rowAt host indices position = (indices[position]? >>= fun i => s.view.processes[i]?).filter
      fun p => !(s.view.infoEx host p).filtered := by
  unfold rowAt
  cases indices[position]? <;> rfl

/-- Rows are found by what a step that keeps the board keeps. -/
theorem SameBoard.rowAt_eq (h : s.SameBoard host s') (indices : List ℕ) :
    s'.rowAt host indices = s.rowAt host indices := by
  funext position
  unfold rowAt
  simp only [h.processes_eq, h.flags.filtered_eq]

/-- **The body of the row loop** draws the row at its position, if its record is not
flagged, and changes neither the rows nor the flags. -/
theorem drawRow_draws (host : Host) (shiftDelete : Bool) (indices : List ℕ) (s : Session)
    (visit : RowVisit) :
    (s.drawRow host shiftDelete indices visit).rowAt host indices = s.rowAt host indices ∧
      (s.drawRow host shiftDelete indices visit).history.drawn =
        s.history.drawn ++ (s.rowAt host indices visit.position).toList := by
  rw [rowAt_eq host indices s]
  unfold drawRow
  cases hfound : (indices[visit.position]? >>= fun i => s.view.processes[i]?) with
  | none => exact ⟨rfl, (List.append_nil _).symm⟩
  | some p =>
    have hrecord := SameBoard.getProcessInfoEx host s p
    have hflag : (s.view.getProcessInfoEx host p).1.filtered = (s.view.infoEx host p).filtered := by
      rw [ProcessesView.getProcessInfoEx_eq]
    dsimp only
    rw [hflag]
    cases hfiltered : (s.view.infoEx host p).filtered with
    | true =>
      refine ⟨hrecord.rowAt_eq indices, ?_⟩
      rw [if_pos rfl, hrecord.drawn_eq, Option.filter_some, hfiltered]
      exact (List.append_nil _).symm
    | false =>
      -- Only `noteDrawn` changes what is drawn; the steps after it keep the board.
      have hclick : ∀ s : Session, s.SameBoard host (s.clickRow visit.clicked p) :=
        fun s => .ite fun _ => .onView s rfl rfl rfl
      have hmenus : ∀ s : Session, s.SameBoard host
          ((s.clickRow visit.clicked p).rowMenus host shiftDelete p visit.popup) :=
        fun s => (hclick s).trans (.rowMenus host _ shiftDelete p visit.popup)
      have hrest : ∀ s : Session, s.SameBoard host
          (((s.clickRow visit.clicked p).rowMenus host shiftDelete p visit.popup).rowDialog p
            visit.answer) := fun s => (hmenus s).trans (.rowDialog host _ p visit.answer)
      rw [if_neg Bool.false_ne_true]
      refine ⟨?_, ?_⟩
      · rw [(hrest _).rowAt_eq indices]
        exact hrecord.rowAt_eq indices
      · rw [(hrest _).drawn_eq, Option.filter_some, hfiltered]
        rfl

/-- **The row loop** draws the rows that there are to draw at its positions, in their order. -/
theorem drawRows_draws (host : Host) (shiftDelete : Bool) (indices : List ℕ) (s : Session)
    (visits : List RowVisit) :
    (visits.foldl (drawRow host shiftDelete indices) s).history.drawn =
      s.history.drawn ++ (visits.map (·.position)).filterMap (s.rowAt host indices) := by
  induction visits generalizing s with
  | nil => simp
  | cons visit visits ih =>
    obtain ⟨hrows, hdrawn⟩ := drawRow_draws host shiftDelete indices s visit
    rw [List.foldl_cons, ih, hrows, hdrawn, List.append_assoc, List.map_cons, List.filterMap_cons]
    cases s.rowAt host indices visit.position <;> rfl

/-- The box that reports a failed kill leaves the board and the filter alone. -/
theorem failureBox_board (host : Host) (s : Session) (result : MessageBoxResult) :
    s.SameBoard host (s.failureBox result) ∧
      (s.failureBox result).view.filterText = s.view.filterText := by
  unfold failureBox
  split
  · exact ⟨.onView s rfl rfl rfl, rfl⟩
  · exact ⟨.refl s, rfl⟩

/-- The rows after the sort of a frame. -/
def sortedRows (host : Host) (s : Session) : Option TableSpecs → List (Ref ProcessInfo)
  | some t =>
    if t.dirty then
      host.stdSort.sort (s.view.sortsBefore host t.answers t.columnIndex t.ascending)
        s.view.processes
    else s.view.processes
  | none => s.view.processes

/-- The sort of a frame leaves the flags and the filter alone. -/
theorem sortIfDirty_rows (host : Host) (s : Session) (specs : Option TableSpecs) :
    s.view.SameFlags host (s.sortIfDirty host specs).view ∧
      (s.sortIfDirty host specs).view.processes = s.sortedRows host specs := by
  unfold sortIfDirty sortedRows
  cases specs with
  | none => exact ⟨.of_eq rfl rfl, rfl⟩
  | some t =>
    dsimp only
    split
    · have hset : s.view.SameFlags host { s.view with specs := true } := .of_eq rfl rfl
      exact ⟨hset.trans (.doSort host _ t.answers t.columnIndex t.ascending), rfl⟩
    · exact ⟨.of_eq rfl rfl, rfl⟩

/-- The answers of `Update` in the purge loop of a frame. -/
def frameAnswers (host : Host) (s : Session) (f : Frame) : List (Ref ProcessInfo × Bool) :=
  (s.afterPurge host f).history.updates.drop (s.beforePurge host f).history.updates.length

/-- When its rows are drawn, a frame has the rows left after its purge loop in some
order, and it draws those that match the filter, in that order. -/
structure DrawsMatching (host : Host) (s : Session) (f : Frame) : Prop where
  /-- The rows are those that are left. -/
  perm : (s.beforeRows host f).view.processes.Perm (s.afterPurge host f).view.processes
  /-- Those that match are drawn. -/
  drawn_eq : (s.buildWindow host f).history.drawn = (s.beforeRows host f).history.drawn ++
    (s.beforeRows host f).view.processes.filter ((s.beforeRows host f).view.matchesFilter host)

/-- The sort of a frame, made if the user has changed its column or direction, moves rows
that match only to places where such rows stood. -/
def SortKeepsMatching (host : Host) (s : Session) (f : Frame) : Prop :=
  ((s.afterPurge host f).sortedRows host f.specs).map
      ((s.afterPurge host f).view.matchesFilter host) =
    (s.afterPurge host f).view.processes.map ((s.afterPurge host f).view.matchesFilter host)

/-- Of the rows that share the key of a row left that matches, the last one that the
purge loop visits is taken out or matches too. -/
def KeysMatch (host : Host) (s : Session) (f : Frame) : Prop :=
  ∀ p ∈ (s.afterPurge host f).view.processes,
    (s.afterPurge host f).view.matchesFilter host p = true →
      ∀ q, Purge.lastAnswer (s.afterPurge host f).view.key ((s.afterPurge host f).view.key p)
        (s.frameAnswers host f) = some (q, false) →
          (s.afterPurge host f).view.matchesFilter host q = true

/-- Whether rows of one key match alike is decidable. -/
instance (host : Host) (s : Session) (f : Frame) : Decidable (s.KeysMatch host f) :=
  decidable_of_iff (∀ p ∈ (s.afterPurge host f).view.processes,
    (s.afterPurge host f).view.matchesFilter host p = true →
      (Purge.lastAnswer (s.afterPurge host f).view.key ((s.afterPurge host f).view.key p)
        (s.frameAnswers host f)).all fun a =>
          a.2 || (s.afterPurge host f).view.matchesFilter host a.1) (by
    refine forall₃_congr fun p _ _ => ?_
    cases Purge.lastAnswer (s.afterPurge host f).view.key ((s.afterPurge host f).view.key p)
      (s.frameAnswers host f) with
    | none => simp
    | some a => obtain ⟨q, gone⟩ := a; cases gone <;> simp)

/-- Whether the sort keeps rows that match in place of such rows is decidable. -/
instance (host : Host) (s : Session) (f : Frame) : Decidable (s.SortKeepsMatching host f) :=
  inferInstanceAs (Decidable (_ = _))

/-- The purge loop of a frame, told by its answers. -/
theorem frameAnswers_traces (host : Host) (s : Session) (f : Frame) :
    (s.frameAnswers host f).map Prod.fst = (s.beforePurge host f).view.processes ∧
      Purge.Traces host (s.beforePurge host f) (s.frameAnswers host f)
        ((s.beforePurge host f).purge host) := by
  obtain ⟨answers, hrows, htraces⟩ := purge_traces host (s.beforePurge host f)
  have hanswers : s.frameAnswers host f = answers := by
    rw [frameAnswers, afterPurge, htraces.updates_eq, List.drop_left]
  rw [hanswers]
  exact ⟨hrows, htraces⟩

/-- The rows left, and the positions noted of them. -/
theorem rowIndices_eq (host : Host) (s : Session) (f : Frame) :
    (s.afterPurge host f).view.processes = Purge.leftRows (s.frameAnswers host f) ∧
      s.rowIndices host f = positions ((s.afterPurge host f).view.processes.map
        ((s.afterPurge host f).view.matchesFilter host)) := by
  obtain ⟨hrows, htraces⟩ := frameAnswers_traces host s f
  have hleft : (s.afterPurge host f).view.processes = Purge.leftRows (s.frameAnswers host f) :=
    htraces.processes_of_all hrows
  refine ⟨hleft, ?_⟩
  have htext := filterText_eq (notes_purge host (s.beforePurge host f))
  rw [hleft, rowIndices, htraces.indices_eq, afterPurge,
    ProcessesView.matchesFilter_congr htraces.pm_eq htext host]
  simp only [ProcessesView.hides_eq, Bool.not_not]

/-- The record of a row left is not flagged unless the last row of its key is left and
does not match. -/
theorem not_filtered_iff (host : Host) (s : Session) (f : Frame) {p : Ref ProcessInfo}
    (hp : p ∈ (s.afterPurge host f).view.processes) :
    (!((s.afterPurge host f).view.infoEx host p).filtered) = true ↔
      ∀ q, Purge.lastAnswer (s.afterPurge host f).view.key ((s.afterPurge host f).view.key p)
        (s.frameAnswers host f) = some (q, false) →
          (s.afterPurge host f).view.matchesFilter host q = true := by
  obtain ⟨_, htraces⟩ := frameAnswers_traces host s f
  have hkey : (s.afterPurge host f).view.key = (s.beforePurge host f).view.key :=
    ProcessesView.key_congr htraces.pm_eq
  have htext := filterText_eq (notes_purge host (s.beforePurge host f))
  have hmatches : (s.afterPurge host f).view.matchesFilter host =
      (s.beforePurge host f).view.matchesFilter host :=
    ProcessesView.matchesFilter_congr htraces.pm_eq htext host
  have hflag := htraces.filtered_eq p
  rw [← hkey] at hflag
  simp only [ProcessesView.hides_eq, ← hmatches] at hflag
  rw [show (s.afterPurge host f).view.infoEx host p =
    ((s.beforePurge host f).purge host).session.view.infoEx host p from rfl, hflag]
  rw [(rowIndices_eq host s f).1] at hp
  obtain ⟨⟨q, gone⟩, hlast⟩ := Purge.exists_lastAnswer (s.afterPurge host f).view.key hp
  rw [hlast]
  cases gone <;> simp

/-- What a frame draws when the list clipper hands out every position once. -/
theorem buildWindow_drawn (host : Host) (s : Session) {f : Frame} (hopen : f.tableOpen = true)
    (hclipper : f.visits.map (·.position) = List.range (s.rowIndices host f).length) :
    (s.buildWindow host f).history.drawn = (s.beforeRows host f).history.drawn ++
      (s.rowIndices host f).filterMap fun i =>
        (s.beforeRows host f).view.processes[i]?.filter fun p =>
          !((s.beforeRows host f).view.infoEx host p).filtered := by
  rw [buildWindow_eq host s hopen, afterRows, drawRows_draws, hclipper]
  exact congrArg _ (filterMap_range _ _)

/-- What the sort of a frame and the box that reports a failed kill leave alone. -/
theorem beforeRows_eq (host : Host) (s : Session) (f : Frame) :
    (s.beforeRows host f).view.processes = (s.afterPurge host f).sortedRows host f.specs ∧
      (s.beforeRows host f).view.processes.Perm (s.afterPurge host f).view.processes ∧
      (s.afterPurge host f).view.SameFlags host (s.beforeRows host f).view ∧
      (s.beforeRows host f).view.matchesFilter host =
        (s.afterPurge host f).view.matchesFilter host := by
  obtain ⟨hbox, htext⟩ := failureBox_board host ((s.afterPurge host f).sortIfDirty host f.specs)
    f.failureResult
  obtain ⟨hflags, hsorted⟩ := sortIfDirty_rows host (s.afterPurge host f) f.specs
  have htext' := filterText_eq (notes_sortIfDirty host (s.afterPurge host f) f.specs)
  exact ⟨hbox.processes_eq.trans hsorted,
    ((Quiet.sortIfDirty host _ f.specs).trans (Quiet.failureBox _ f.failureResult)).view.perm,
    hflags.trans hbox.flags,
    ProcessesView.matchesFilter_congr (hflags.trans hbox.flags).pm_eq (htext.trans htext') host⟩

/-- **Which rows are drawn.** When the list clipper hands out every position once, a frame
draws the rows that match the filter precisely when the sort in it moves such rows only
to places of such rows, and none of them shares its record with one that is hidden. -/
theorem drawsMatching_iff (host : Host) (s : Session) {f : Frame} (hopen : f.tableOpen = true)
    (hclipper : f.visits.map (·.position) = List.range (s.rowIndices host f).length) :
    s.DrawsMatching host f ↔ s.SortKeepsMatching host f ∧ s.KeysMatch host f := by
  obtain ⟨hsorted, hperm, hflags, hmatches⟩ := beforeRows_eq host s f
  have hdrawn := buildWindow_drawn host s hopen hclipper
  rw [(rowIndices_eq host s f).2] at hdrawn
  simp only [hflags.filtered_eq] at hdrawn
  have hkeys : (∀ p ∈ (s.afterPurge host f).view.processes,
      (s.afterPurge host f).view.matchesFilter host p = true →
        (!((s.afterPurge host f).view.infoEx host p).filtered) = true) ↔ s.KeysMatch host f :=
    forall₃_congr fun p hp _ => not_filtered_iff host s f hp
  rw [← hkeys, SortKeepsMatching, ← hsorted, ← picked_eq_iff hperm]
  constructor
  · rintro ⟨_, h⟩
    rw [hdrawn, hmatches] at h
    exact List.append_cancel_left h
  · intro h
    refine ⟨hperm, ?_⟩
    rw [hdrawn, hmatches, h]

/-- The processes a and b are listed while the filter is b, and b is drawn. -/
theorem drawsMatching_iff_two_rows :
    let named (id : Handle) (name : String) : SystemProcessInformation :=
      { SystemProcessInformation.bare 1 id with imageName := wide name }
    let world := (Call.answered .enumProcesses 100 (named 8 "a") [named 12 "b"]).toEnumWorld
    let idle := Frame.idle world
    let filtered := { idle with
      toolBar := { idle.toolBar with filterText := ⟨[98], by decide, by decide⟩ }
      visits := [⟨0, false, none, ⟨.stillOpen, .of [], false⟩⟩] }
    (initial .plain fun n => 1000 + UInt64.ofNat n).DrawsMatching .plain filtered := by
  intro named world idle filtered
  refine (drawsMatching_iff _ _ rfl ?_).mpr ⟨?_, ?_⟩
  · decide +kernel
  · decide +kernel
  · decide +kernel

/-- The processes a and b are listed while the filter is b, and in the same frame the user
sorts them by name in descending order. The position noted for b is then that of a. -/
theorem sorted_match_not_drawn :
    let named (id : Handle) (name : String) : SystemProcessInformation :=
      { SystemProcessInformation.bare 1 id with imageName := wide name }
    let world := (Call.answered .enumProcesses 100 (named 8 "a") [named 12 "b"]).toEnumWorld
    let idle := Frame.idle world
    let sorted := { idle with
      toolBar := { idle.toolBar with filterText := ⟨[98], by decide, by decide⟩ }
      specs := some ⟨⟨0, false⟩, true, idle.refresh.answers⟩
      visits := [⟨0, false, none, ⟨.stillOpen, .of [], false⟩⟩] }
    let host := { Host.plain with stdSort := .insertion }
    let s := initial host fun n => 1000 + UInt64.ofNat n
    sorted.tableOpen = true ∧
      sorted.visits.map (·.position) = List.range (s.rowIndices host sorted).length ∧
      ¬ s.DrawsMatching host sorted := by
  intro named world idle sorted host s
  refine ⟨rfl, by decide +kernel, fun h => ?_⟩
  have hnone : (s.buildWindow host sorted).history.drawn ≠
      (s.beforeRows host sorted).history.drawn ++ (s.beforeRows host sorted).view.processes.filter
        ((s.beforeRows host sorted).view.matchesFilter host) := by decide +kernel
  exact hnone h.drawn_eq

end Session

end ProcExpX
