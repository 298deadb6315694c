import ProcExpX.App.DrawnRows
import ProcExpX.App.KillTarget
import ProcExpX.App.PurgeRounds

/-!
# Whether an open dialog is shown

While the kill dialog is marked open, only the row of the selected process shows it
and can close it again. The row is there as long as no step of a frame leaves the
dialog open for a process whose row is hidden or gone: the tool bar, the purge loop,
Shift+Delete and the context menu each can.
-/

namespace ProcExpX

open Library WinSys

namespace ProcessesView

/-- A process has a row that passes the filter. -/
structure Shows (host : Host) (v : ProcessesView) (p : Ref ProcessInfo) : Prop where
  /-- It has a row. -/
  row : p ∈ v.processes
  /-- The filter does not hide it. -/
  passes : v.hides host (v.filter host) p = false

/-- Whether a row is shown is decidable. -/
instance (host : Host) (v : ProcessesView) (p : Ref ProcessInfo) : Decidable (v.Shows host p) :=
  decidable_of_iff (p ∈ v.processes ∧ v.hides host (v.filter host) p = false)
    ⟨fun h => ⟨h.1, h.2⟩, fun h => ⟨h.row, h.passes⟩⟩

/-- A row is still shown as long as it is there, its process has the same name, and
the text of the filter is the same. -/
theorem Shows.keep {host : Host} {v v' : ProcessesView} {p : Ref ProcessInfo}
    (h : v.Shows host p) (hrow : p ∈ v'.processes) (htext : v'.filterText = v.filterText)
    (hname : (v'.pm.process p).processName = (v.pm.process p).processName) :
    v'.Shows host p := by
  refine ⟨hrow, ?_⟩
  have hpasses := h.passes
  unfold hides filter at hpasses ⊢
  rwa [htext, hname]

end ProcessesView

namespace Session

variable {host : Host} {s s' : Session}

/-- If the dialog is marked open, the selected process has a row that passes the
filter. -/
def DialogReachable (host : Host) (s : Session) : Prop :=
  s.view.modalOpen = true → ∃ p, s.view.selectedProcess = some p ∧ s.view.Shows host p

/-- Shift+Delete asks for the dialog only if the selected process has a row that
passes the filter, and a context menu asks for it only on such a row. -/
def OpensShown (host : Host) (shiftDelete : Bool) (popup : Option PopupChoice) (s : Session)
    (p : Ref ProcessInfo) : Prop :=
  match popup with
  | none => shiftDelete = true → ∀ q, s.view.selectedProcess = some q → s.view.Shows host q
  | some c =>
    c.kill = true ∨ shiftDelete = true ∧ s.view.selectedProcess.isSome = true →
      s.view.Shows host p

/-- No step of a frame leaves the dialog open for a process without a row that passes
the filter. -/
structure KeepsReachable (host : Host) (s : Session) (f : Frame) : Prop where
  /-- If the tool bar leaves the dialog open, because the Kill button is pressed and
  there is no answer yet or because it is not pressed and the dialog was open, then the
  selected process has a row that passes the filter as edited. -/
  tool_bar : ∀ p, s.view.selectedProcess = some p →
    (if f.toolBar.kill then f.toolBar.answer.result = .stillOpen else s.view.modalOpen = true) →
      (s.editFilter f.toolBar).view.Shows host p
  /-- While the dialog is open no round of the purge loop finds the highlight of the
  selected process over. -/
  purge : f.tableOpen = true → (s.beforePurge host f).view.modalOpen = true →
    (s.beforePurge host f).EachRound host fun s' p =>
      (s.beforePurge host f).view.selectedProcess = some p → ¬ s'.HighlightOver host p
  /-- While the dialog is closed a drawn row opens it for a shown row only. -/
  menus : f.tableOpen = true → AtEach (fun visited visit => ∀ s' p,
    drawnRow host (s.rowIndices host f) (s.afterRows host f visited) visit = some (s', p) →
      s'.view.modalOpen = false → OpensShown host f.shiftDelete visit.popup s' p) f.visits

namespace DialogReachable

/-- What is left to show is that a shown row of the selected process remains shown. -/
theorem keep (h : s.DialogReachable host) (hopen : s'.view.modalOpen = s.view.modalOpen)
    (hselected : s'.view.selectedProcess = s.view.selectedProcess)
    (hshows : s.view.modalOpen = true → ∀ p, s.view.selectedProcess = some p →
      s.view.Shows host p → s'.view.Shows host p) : s'.DialogReachable host := by
  intro hmarked
  rw [hopen] at hmarked
  obtain ⟨p, hp, hshow⟩ := h hmarked
  exact ⟨p, hselected.trans hp, hshows hmarked p hp hshow⟩

/-- Steps that leave the dialog, the filter and the rows alone. -/
theorem sameDialog (h : s.DialogReachable host) (hs : s.SameDialog s')
    (htext : s'.view.filterText = s.view.filterText)
    (hrows : ∀ p, s.view.modalOpen = true → s.view.selectedProcess = some p →
      p ∈ s.view.processes → p ∈ s'.view.processes) : s'.DialogReachable host :=
  h.keep hs.view.modalOpen_eq hs.view.selected_eq fun hopen p hp hshow =>
    hshow.keep (hrows p hopen hp hshow.row) htext (by rw [hs.view.pm_eq])

end DialogReachable

/-- `TryKillProcess` leaves the dialog open as long as there is no answer. -/
theorem modalOpen_tryKillProcess (s : Session) (answer : DialogAnswer)
    (selected : Ref ProcessInfo) :
    (s.tryKillProcess answer selected).1.view.modalOpen = true ↔ answer.result = .stillOpen := by
  unfold tryKillProcess
  cases answer.result with
  | ok =>
    dsimp only
    split <;> simp
  | _ => simp [onView]

/-- After `TryKillProcess` for a shown row the dialog is closed or belongs to that row, so it can
be reached. -/
theorem DialogReachable.tryKillProcess (answer : DialogAnswer) {selected : Ref ProcessInfo}
    (hselected : s.view.selectedProcess = some selected)
    (hshow : answer.result = .stillOpen → s.view.Shows host selected) :
    (s.tryKillProcess answer selected).1.DialogReachable host := by
  have heffect := attempted_tryKillProcess s answer selected
  intro hopen
  have hresult := (modalOpen_tryKillProcess s answer selected).mp hopen
  refine ⟨selected, (heffect.still_open hresult).2.trans hselected, ?_⟩
  exact (hshow hresult).keep (heffect.processes_eq ▸ (hshow hresult).row)
    (filterText_eq (notes_tryKillProcess s answer selected)) (by rw [heffect.pm_eq])

/-- After `BuildToolBar` the dialog can be reached, if the selected row is shown whenever the
dialog is open. -/
theorem DialogReachable.buildToolBar (h : s.DialogReachable host) (t : ToolBar)
    (hbar : ∀ p, s.view.selectedProcess = some p →
      (if t.kill then t.answer.result = .stillOpen else s.view.modalOpen = true) →
        (s.editFilter t).view.Shows host p) : (s.buildToolBar t).DialogReachable host := by
  have hkill : ((s.editFilter t).killButton t).DialogReachable host := by
    unfold killButton
    cases hselected : (s.editFilter t).view.selectedProcess with
    | none =>
      intro hopen
      obtain ⟨p, hp, _⟩ := h hopen
      exact absurd (hp.symm.trans hselected) (Option.some_ne_none p)
    | some p =>
      have hshow := hbar p hselected
      cases hpressed : t.kill with
      | true =>
        rw [hpressed, if_pos rfl] at hshow
        exact DialogReachable.tryKillProcess t.answer hselected hshow
      | false =>
        rw [hpressed, if_neg Bool.false_ne_true] at hshow
        exact fun hopen => ⟨p, hselected, hshow hopen⟩
  exact hkill.sameDialog (.intervalMenu _ t) (filterText_eq (notes_intervalMenu _ t))
    fun p _ _ hrow => (Quiet.intervalMenu _ t).view.perm.mem_iff.mpr hrow

/-- An update keeps the name of a process object. -/
theorem processName_refresh (h : s.DialogKept) (host : Host) (r : Refresh) {p : Ref ProcessInfo}
    (hlive : s.view.pm.processHeap.Live p) :
    ((s.refresh host r).view.pm.process p).processName =
      (s.view.pm.process p).processName := by
  obtain ⟨ks, ts, hm⟩ := h.tracks
  rw [refresh_pm]
  exact Impl.step_constant host.env hm.keyed _ (f := ProcessInfo.processName) (fun _ _ => rfl) hlive

/-- An update of the rows keeps the dialog within reach, since it keeps the selected row while
there is a dialog. -/
theorem DialogReachable.refresh (h : s.DialogReachable host) (hkept : s.DialogKept)
    (r : Refresh) : (s.refresh host r).DialogReachable host := by
  have hsame := (SameDialog.takeRows host (s.enumProcesses host r.world)
    s.view.processes.isEmpty).trans (SameDialog.sortAgain host _ r)
  refine h.keep hsame.view.modalOpen_eq hsame.view.selected_eq fun _ p hp hshow => ?_
  exact hshow.keep (mem_refresh host s r hshow.row)
    (filterText_eq (notes_refresh host s r))
    (processName_refresh hkept host r (hkept.selected_sound p hp).1)

/-- The part of `BuildTable` before the purge loop. -/
theorem DialogReachable.updateTable (h : s.DialogReachable host) (hkept : s.DialogKept)
    (f : Frame) : (s.updateTable host f).DialogReachable host := by
  have hspace : (if f.space then s.onView ProcessesView.togglePause else s).DialogReachable host ∧
      (if f.space then s.onView ProcessesView.togglePause else s).DialogKept := by
    split
    · have hrows := (Quiet.togglePause s).view.perm
      exact ⟨h.sameDialog (.togglePause s) (congrArg Prod.fst s.view.entries_togglePause)
        fun p _ _ hrow => hrows.mem_iff.mpr hrow,
        hkept.sameRows (.togglePause s) fun p hrow => hrows.mem_iff.mp hrow⟩
    · exact ⟨h, hkept⟩
  unfold Session.updateTable refreshIfDue
  dsimp only
  generalize (if f.space then s.onView ProcessesView.togglePause else s) = s₁ at hspace ⊢
  have hclock : ∀ clock : Clock, ({ s₁ with clock := clock } : Session).DialogReachable host :=
    fun clock => hspace.1
  have hclock' : ∀ clock : Clock, ({ s₁ with clock := clock } : Session).DialogKept :=
    fun clock => hspace.2.sameRows ⟨.refl _, rfl⟩ fun _ hrow => hrow
  split
  · split
    · exact (hclock _).refresh (hclock' _) f.refresh
    · exact hclock _
  · exact hspace.1

/-- The purge loop, if no round takes out the row of the selected process while the
dialog is open. -/
theorem DialogReachable.purge (h : s.DialogReachable host)
    (hpurge : s.view.modalOpen = true → s.EachRound host fun s' p =>
      s.view.selectedProcess = some p → ¬ s'.HighlightOver host p) :
    (s.purge host).session.DialogReachable host := by
  refine h.sameDialog (.purge host s) (filterText_eq (notes_purge host s))
    fun p hopen hp hrow => ?_
  refine (purge_rounds host s (P := fun l => p ∈ l.session.view.processes) hrow ?_ ?_).1
  · intro n hn q l' hq hmem hover he
    refine he.mem_of_ne hq hmem ?_
    rintro rfl
    exact hpurge hopen n hn p hq hp hover
  · intro n _ q l' _ hmem _ hk
    rwa [hk.processes_eq]

/-- Between the purge loop and the rows. -/
theorem DialogReachable.beforeRows (f : Frame)
    (h : (s.afterPurge host f).DialogReachable host) :
    (s.beforeRows host f).DialogReachable host := by
  have hsort : ((s.afterPurge host f).sortIfDirty host f.specs).DialogReachable host :=
    h.sameDialog (.sortIfDirty host _ f.specs) (filterText_eq (notes_sortIfDirty host _ _))
      fun p _ _ hrow => (Quiet.sortIfDirty host _ f.specs).view.perm.mem_iff.mpr hrow
  refine hsort.sameDialog (.failureBox _ f.failureResult) ?_ fun p _ _ hrow =>
    (Quiet.failureBox _ f.failureResult).view.perm.mem_iff.mpr hrow
  unfold Session.beforeRows failureBox
  split <;> rfl

section Row

variable {p : Ref ProcessInfo}

/-- The context menu selects its row, and opens the dialog if Kill is chosen. -/
theorem contextMenu_dialog (host : Host) (s : Session) (p : Ref ProcessInfo) (c : PopupChoice) :
    (s.contextMenu host p c).view.selectedProcess = some p ∧
      (s.contextMenu host p c).view.modalOpen = (s.view.modalOpen || c.kill) := by
  have hfile : ∀ s : Session, (s.gotoFileLocation host p).view.selectedProcess =
      s.view.selectedProcess ∧ (s.gotoFileLocation host p).view.modalOpen = s.view.modalOpen := by
    intro s
    have hrecord := ProcessesView.SameSelection.getProcessInfoEx host s.view p
    exact ⟨hrecord.selected_eq, hrecord.modalOpen_eq⟩
  unfold contextMenu
  dsimp only
  cases c.kill <;> cases c.goToFile <;> cases c.properties <;>
    simp [getOrAddProcessProperties, hfile, select, openDialog, onView]

/-- The Delete key and the context menu of a row. -/
theorem DialogReachable.rowMenus (h : s.DialogReachable host) (shiftDelete : Bool)
    (popup : Option PopupChoice)
    (hopens : s.view.modalOpen = false → OpensShown host shiftDelete popup s p) :
    (s.rowMenus host shiftDelete p popup).DialogReachable host := by
  have hentries := (notes_rowMenus host s shiftDelete p popup).1
  unfold Session.rowMenus at hentries ⊢
  cases hopen : s.view.modalOpen with
  | true => exact h
  | false =>
    rw [hopen, if_neg Bool.false_ne_true] at hentries
    have hshown := hopens hopen
    have hdelete : Reselects p s (s.deleteKey shiftDelete) := .ite fun _ => .openDialog s
    have hpressed : (s.deleteKey shiftDelete).view.modalOpen = true →
        shiftDelete = true ∧ s.view.selectedProcess.isSome = true := by
      unfold deleteKey
      split
      · rename_i hkey
        rw [Bool.and_eq_true] at hkey
        exact fun _ => ⟨hkey.2, hkey.1⟩
      · intro hmarked
        rw [hopen] at hmarked
        cases hmarked
    rw [if_neg Bool.false_ne_true]
    cases popup with
    | none =>
      intro hmarked
      obtain ⟨hkey, hsome⟩ := hpressed hmarked
      obtain ⟨q, hq⟩ := Option.isSome_iff_exists.mp hsome
      have hselected : (s.deleteKey shiftDelete).view.selectedProcess = some q := by
        unfold deleteKey
        split <;> exact hq
      exact ⟨q, hselected, (hshown hkey q hq).keep (hdelete.processes_eq ▸ (hshown hkey q hq).row)
        (congrArg Prod.fst hentries) (by rw [hdelete.pm_eq])⟩
    | some c =>
      obtain ⟨hselected, hmodal⟩ := contextMenu_dialog host (s.deleteKey shiftDelete) p c
      have hmenu := hdelete.trans (.contextMenu host _ c)
      intro hmarked
      have hasked : c.kill = true ∨
          shiftDelete = true ∧ s.view.selectedProcess.isSome = true := by
        rw [hmodal, Bool.or_eq_true] at hmarked
        exact hmarked.symm.imp_right hpressed
      have hshow := hshown hasked
      exact ⟨p, hselected, hshow.keep (hmenu.processes_eq ▸ hshow.row)
        (congrArg Prod.fst hentries) (by rw [hmenu.pm_eq])⟩

/-- The dialog of a row keeps itself within reach, whatever is answered. -/
theorem DialogReachable.rowDialog (h : s.DialogReachable host) (answer : DialogAnswer) :
    (s.rowDialog p answer).DialogReachable host := by
  unfold Session.rowDialog
  split
  · rename_i hshown
    obtain ⟨hopen, hselected⟩ := hshown
    obtain ⟨q, hq, hshow⟩ := h hopen
    obtain rfl : q = p := Option.some.inj (hq.symm.trans hselected)
    have hkill := DialogReachable.tryKillProcess answer hselected fun _ => hshow
    dsimp only
    split
    · exact hkill.sameDialog ⟨⟨rfl, rfl, rfl⟩, rfl⟩ rfl fun _ _ _ hrow => hrow
    · exact hkill
  · exact h

end Row

/-- The body of the row loop keeps the dialog within reach, if it opens one for a shown row only.
-/
theorem DialogReachable.drawRow (h : s.DialogReachable host) (shiftDelete : Bool)
    (indices : List ℕ) (visit : RowVisit)
    (hopens : ∀ s' p, drawnRow host indices s visit = some (s', p) →
      s'.view.modalOpen = false → OpensShown host shiftDelete visit.popup s' p) :
    (s.drawRow host shiftDelete indices visit).DialogReachable host := by
  rcases drawRow_cases host s shiftDelete indices visit with
    ⟨_, hquiet, hsame, hnotes⟩ | ⟨s₁, p, hsome, hdrawn, hdraw⟩
  · exact h.sameDialog hsame (filterText_eq hnotes)
      fun q _ _ hrow => hquiet.view.perm.mem_iff.mpr hrow
  · have hfirst : s₁.DialogReachable host := by
      intro hopen
      rw [hdrawn.modalOpen_eq] at hopen
      obtain ⟨q, hq, hshow⟩ := h hopen
      exact ⟨q, (hdrawn.selected_eq hopen).trans hq,
        hshow.keep (hdrawn.processes_eq ▸ hshow.row) (filterText_eq hdrawn.notes_eq)
          (by rw [hdrawn.pm_eq])⟩
    rw [hdraw]
    exact (hfirst.rowMenus shiftDelete visit.popup (hopens s₁ p hsome)).rowDialog visit.answer

/-- The row loop keeps the dialog within reach, if it opens one for a shown row only at every
position. -/
theorem DialogReachable.afterRows (f : Frame) (visits : List RowVisit)
    (h : (s.beforeRows host f).DialogReachable host)
    (hopens : AtEach (fun visited visit => ∀ s' p,
      drawnRow host (s.rowIndices host f) (s.afterRows host f visited) visit = some (s', p) →
        s'.view.modalOpen = false → OpensShown host f.shiftDelete visit.popup s' p) visits) :
    (s.afterRows host f visits).DialogReachable host := by
  induction visits using List.reverseRecOn with
  | nil => exact h
  | append_singleton visits visit ih =>
    obtain ⟨hbefore, hlast⟩ := AtEach.concat_iff.mp hopens
    rw [afterRows_concat]
    exact (ih hbefore).drawRow f.shiftDelete _ visit hlast

/-- **One frame** keeps the dialog within reach, if each of its steps that could lose it does not.
-/
theorem DialogReachable.buildWindow (h : s.DialogReachable host) (hkept : s.DialogKept)
    (f : Frame) (hf : KeepsReachable host s f) : (s.buildWindow host f).DialogReachable host := by
  have hbar := h.buildToolBar f.toolBar hf.tool_bar
  cases hopen : f.tableOpen with
  | false =>
    rw [buildWindow_closed host s hopen]
    exact hbar
  | true =>
    have hbefore := hbar.updateTable (hkept.buildToolBar f.toolBar) f
    have hpurge := DialogReachable.purge hbefore (hf.purge hopen)
    rw [buildWindow_eq host s hopen]
    exact (DialogReachable.beforeRows f hpurge).afterRows f f.visits (hf.menus hopen)

/-- **Reachable dialogs.** In every run of frames none of which leaves the dialog open
for a process without a row that passes the filter, the selected process has such a row
at the end of every frame at which the dialog is marked open. -/
theorem run_dialogReachable (host : Host) (readings : ℕ → UInt64) (frames : List Frame)
    (hframes : AtEach (fun before f => KeepsReachable host (run host readings before) f) frames) :
    AtEach (fun before f => (run host readings (before ++ [f])).DialogReachable host) frames := by
  have hrun : ∀ frames : List Frame,
      AtEach (fun before f => KeepsReachable host (run host readings before) f) frames →
        (run host readings frames).DialogReachable host := by
    intro frames hframes
    induction frames using List.reverseRecOn with
    | nil => exact fun hopen => absurd hopen Bool.false_ne_true
    | append_singleton frames f ih =>
      obtain ⟨hbefore, hlast⟩ := AtEach.concat_iff.mp hframes
      rw [run_concat]
      exact (ih hbefore).buildWindow (run_dialogKept host readings frames) f hlast
  rintro before f after rfl
  rw [← List.singleton_append, ← List.append_assoc] at hframes
  exact hrun (before ++ [f]) hframes.of_append

/-- The dialog is opened by the context menu, and stays open in the next frame. -/
theorem run_dialogReachable_two_frames :
    let world := (Call.answered .enumProcesses 100 (.bare 1 8) []).toEnumWorld
    let row (popup : Option PopupChoice) : RowVisit :=
      ⟨0, false, popup, ⟨.stillOpen, .of [⟨1, 8⟩], false⟩⟩
    let opened := { Frame.idle world with visits := [row (some ⟨true, false, false⟩)] }
    let shown := { Frame.idle world with visits := [row none] }
    let readings := fun n => 1000 * (UInt64.ofNat n + 1)
    AtEach (fun before f => (run .plain readings (before ++ [f])).DialogReachable .plain)
      [opened, shown] := by
  intro world row opened shown readings
  refine run_dialogReachable .plain readings [opened, shown] ?_
  have hopened : KeepsReachable .plain (run .plain readings []) opened := by
    refine ⟨fun p hp => ?_, fun _ hopen => ?_, fun _ => ?_⟩
    · cases (show none = some p from hp)
    · have hclosed : ((run .plain readings []).beforePurge .plain opened).view.modalOpen =
          false := by decide +kernel
      rw [hclosed] at hopen
      cases hopen
    · refine AtEach.singleton_iff.mpr fun s' p hdrawn _ _ => ?_
      have hshown : (drawnRow .plain ((run .plain readings []).rowIndices .plain opened)
          ((run .plain readings []).afterRows .plain opened [])
          (row (some ⟨true, false, false⟩))).all
            (fun q => decide (q.1.view.Shows .plain q.2)) = true := by decide +kernel
      rw [hdrawn] at hshown
      simpa using hshown
  have hshown : KeepsReachable .plain (run .plain readings [opened]) shown := by
    refine ⟨fun p hp _ => ?_, fun _ _ n hn p _ hp hover => ?_, fun _ => ?_⟩
    · have hselected : (run .plain readings [opened]).view.selectedProcess = some ⟨0⟩ := by
        decide +kernel
      obtain rfl := Option.some.inj (hselected.symm.trans hp)
      decide +kernel
    · have hselected : ((run .plain readings [opened]).beforePurge .plain
          shown).view.selectedProcess = some ⟨0⟩ := by decide +kernel
      have hcount : ((run .plain readings [opened]).beforePurge .plain
          shown).view.processes.length = 1 := by decide +kernel
      have hmark : (((run .plain readings [opened]).beforePurge .plain shown).view.infoEx .plain
          ⟨0⟩).isTerminated = false := by decide +kernel
      obtain rfl := Option.some.inj (hselected.symm.trans hp)
      obtain rfl : n = 0 := by omega
      exact absurd (hover.1.symm.trans hmark) (by decide)
    · refine AtEach.singleton_iff.mpr fun s' p hdrawn hclosed => ?_
      have hopen : (drawnRow .plain ((run .plain readings [opened]).rowIndices .plain shown)
          ((run .plain readings [opened]).afterRows .plain shown []) (row none)).all
            (fun q => q.1.view.modalOpen) = true := by decide +kernel
      rw [hdrawn] at hopen
      exact absurd (hclosed.symm.trans (by simpa using hopen)) (by decide)
  exact AtEach.pair_iff.mpr ⟨hopened, hshown⟩

/-- The process of an open dialog ends, and its row is purged. -/
theorem purged_row_dialog_open :
    let world := (Call.answered .enumProcesses 100 (.bare 1 8) [.bare 1 12]).toEnumWorld
    let world' := (Call.answered .enumProcesses 200 (.bare 1 12) []).toEnumWorld
    let row (clicked : Bool) : RowVisit := ⟨0, clicked, none, ⟨.stillOpen, .of [], false⟩⟩
    let opened := { Frame.idle world with shiftDelete := true, visits := [row true] }
    let shown := { Frame.idle world' with visits := [row false] }
    let readings := fun n => 1000 * (UInt64.ofNat n + 1)
    ¬ AtEach (fun before f => (run .plain readings (before ++ [f])).DialogReachable .plain)
      [opened, shown, shown] := by
  intro world world' row opened shown readings h
  have hopen : (run .plain readings [opened, shown, shown]).view.modalOpen = true := by
    decide +kernel
  have hselected : (run .plain readings [opened, shown, shown]).view.selectedProcess =
      some ⟨0⟩ := by decide +kernel
  have hrows : (run .plain readings [opened, shown, shown]).view.processes = [⟨1⟩] := by
    decide +kernel
  have hlast : (run .plain readings [opened, shown, shown]).DialogReachable .plain :=
    h [opened, shown] shown [] rfl
  obtain ⟨p, hp, hshow⟩ := hlast hopen
  obtain rfl := Option.some.inj (hselected.symm.trans hp)
  have hrow := hshow.row
  rw [hrows] at hrow
  exact absurd hrow (by decide)

end Session

end ProcExpX
