import ProcExpX.App.DrawnRows

/-!
# When a failed kill is reported

A failed kill is marked where a row shows the kill dialog. `TryKillProcess` returns
true for every answer but assigns `success` only when OK is answered, so after any
other answer the mark depends on what the variable of the caller held before.
-/

namespace ProcExpX.Session

open Library WinSys

variable (host : Host)

section Visit

variable (shiftDelete : Bool) (indices : List ℕ) (s : Session) (visit : RowVisit)

/-- The session in which a visited row shows the kill dialog, and its process. -/
def dialogShown : Option (Session × Ref ProcessInfo) :=
  (drawnRow host indices s visit).bind fun (s, p) =>
    let s := s.rowMenus host shiftDelete p visit.popup
    if s.view.modalOpen ∧ s.view.selectedProcess = some p then some (s, p) else none

/-- A visited row shows the dialog, OK is answered, and `KillProcess` returns false. -/
def KillsInVain : Prop :=
  ∃ s' p, dialogShown host shiftDelete indices s visit = some (s', p) ∧
    visit.answer.result = .ok ∧
    (killProcess visit.answer.os (s'.view.pm.process p).id).2 = false

/-- A visit marks a failed kill. -/
def MarksFailure : Prop :=
  s.view.killFailed = false ∧ (s.drawRow host shiftDelete indices visit).view.killFailed = true

/-- If a visited row shows the dialog while no failed kill is marked, then OK is
answered, or there is no answer yet, or the variable `success` holds true anyway. -/
def SuccessKnown : Prop :=
  s.view.killFailed = false → (dialogShown host shiftDelete indices s visit).isSome = true →
    visit.answer.result = .ok ∨ visit.answer.result = .stillOpen ∨ visit.answer.rawSuccess = true

/-- The value that `success` has after `TryKillProcess`. -/
theorem tryKillProcess_snd (answer : DialogAnswer) (p : Ref ProcessInfo) :
    (s.tryKillProcess answer p).2 = if answer.result = .stillOpen then none
      else if answer.result = .ok then
        some (killProcess answer.os (s.view.pm.process p).id).2
      else some answer.rawSuccess := by
  unfold tryKillProcess
  cases answer.result <;> rfl

/-- A row that is not the selected one, or has no dialog to show, marks nothing. -/
theorem killFailed_rowDialog_closed {p : Ref ProcessInfo} (answer : DialogAnswer)
    (hclosed : ¬(s.view.modalOpen = true ∧ s.view.selectedProcess = some p)) :
    (s.rowDialog p answer).view.killFailed = s.view.killFailed := by
  unfold rowDialog
  rw [if_neg hclosed]

/-- A row that shows the dialog marks a failed kill when `success` is false afterwards. -/
theorem killFailed_rowDialog {p : Ref ProcessInfo} (answer : DialogAnswer)
    (hshown : s.view.modalOpen = true ∧ s.view.selectedProcess = some p) :
    (s.rowDialog p answer).view.killFailed =
      (s.view.killFailed || (s.tryKillProcess answer p).2 == some false) := by
  have hkept := killFailed_eq (notes_tryKillProcess s answer p)
  unfold rowDialog
  rw [if_pos hshown]
  dsimp only
  by_cases hfalse : (s.tryKillProcess answer p).2 = some false
  · rw [if_pos hfalse, hfalse]
    simp [onView]
  · rw [if_neg hfalse, beq_eq_false_iff_ne.mpr hfalse, Bool.or_false]
    exact hkept

/-- **One visit** marks a failed kill only for a kill in vain precisely when
`success` is known. -/
theorem marksFailure_iff :
    (MarksFailure host shiftDelete indices s visit → KillsInVain host shiftDelete indices s visit) ↔
      SuccessKnown host shiftDelete indices s visit := by
  unfold MarksFailure KillsInVain SuccessKnown dialogShown
  rcases drawRow_cases host s shiftDelete indices visit with
    ⟨hnone, _, _, hnotes⟩ | ⟨s₁, p, hsome, hdrawn, hdraw⟩
  · have hkept : (s.drawRow host shiftDelete indices visit).view.killFailed = s.view.killFailed :=
      killFailed_eq hnotes
    rw [hnone, hkept]
    simp
  · have hmenus := congrArg Prod.snd (notes_rowMenus host s₁ shiftDelete p visit.popup).1
    rw [hsome, hdraw, Option.bind_some]
    dsimp only
    set s₂ := s₁.rowMenus host shiftDelete p visit.popup
    have hsame : s₂.view.killFailed = s.view.killFailed :=
      hmenus.trans (killFailed_eq hdrawn.notes_eq)
    by_cases hshown : s₂.view.modalOpen = true ∧ s₂.view.selectedProcess = some p
    · rw [killFailed_rowDialog s₂ _ hshown, tryKillProcess_snd, hsame, if_pos hshown]
      cases s.view.killFailed with
      | true => simp
      | false => cases visit.answer.result <;> simp
    · rw [killFailed_rowDialog_closed s₂ _ hshown, hsame, if_neg hshown]
      simp

end Visit

section Frame

variable (s : Session) (f : Frame)

/-- A failed kill becomes marked in a frame only when a row's dialog is answered OK
and `KillProcess` returns false. -/
structure ReportsFailures : Prop where
  /-- A visit that marks a failed kill has just seen one. -/
  visits : f.tableOpen = true → AtEach (fun visited visit =>
    MarksFailure host f.shiftDelete (s.rowIndices host f) (s.afterRows host f visited) visit →
      KillsInVain host f.shiftDelete (s.rowIndices host f) (s.afterRows host f visited) visit)
    f.visits
  /-- A mark at the end of the frame was there at its start, or a visit has set it. -/
  at_end : (s.buildWindow host f).view.killFailed = true → s.view.killFailed = true ∨
    ∃ visited visit rest, f.visits = visited ++ visit :: rest ∧
      KillsInVain host f.shiftDelete (s.rowIndices host f) (s.afterRows host f visited) visit

/-- `success` is known at each visit of a frame. -/
def SuccessKnownThroughout : Prop :=
  f.tableOpen = true → AtEach (fun visited visit =>
    SuccessKnown host f.shiftDelete (s.rowIndices host f) (s.afterRows host f visited) visit)
    f.visits

/-- The tool bar marks no failed kill. -/
theorem killFailed_buildToolBar (t : ToolBar) :
    (s.buildToolBar t).view.killFailed = s.view.killFailed :=
  killFailed_eq (s := s.editFilter t) ((notes_intervalMenu _ t).trans (notes_killButton _ t))

/-- Nothing before the rows marks a failed kill. -/
theorem killFailed_of_beforeRows (hmark : (s.beforeRows host f).view.killFailed = true) :
    s.view.killFailed = true := by
  have hbefore := killFailed_eq ((notes_sortIfDirty host _ f.specs).trans
    ((notes_purge host _).trans (notes_updateTable host (s.buildToolBar f.toolBar) f)))
  rw [← killFailed_buildToolBar s f.toolBar]
  refine Eq.trans hbefore.symm ?_
  unfold beforeRows failureBox at hmark
  split at hmark
  · cases hmark
  · exact hmark

/-- A mark that the row loop leaves was there before it or has been set by a visit. -/
theorem marked_by_visit (visits : List RowVisit)
    (hmark : (s.afterRows host f visits).view.killFailed = true) :
    (s.beforeRows host f).view.killFailed = true ∨
      ∃ visited visit rest, visits = visited ++ visit :: rest ∧
        MarksFailure host f.shiftDelete (s.rowIndices host f) (s.afterRows host f visited)
          visit := by
  induction visits using List.reverseRecOn with
  | nil => exact Or.inl hmark
  | append_singleton visits visit ih =>
    cases hbefore : (s.afterRows host f visits).view.killFailed with
    | true =>
      refine (ih hbefore).imp_right ?_
      rintro ⟨visited, visit', rest, rfl, hmarks⟩
      exact ⟨visited, visit', rest ++ [visit], by simp, hmarks⟩
    | false =>
      rw [afterRows_concat] at hmark
      exact Or.inr ⟨visits, visit, [], rfl, hbefore, hmark⟩

/-- **One frame.** -/
theorem reportsFailures_iff :
    ReportsFailures host s f ↔ SuccessKnownThroughout host s f := by
  constructor
  · intro h hopen visited visit rest heq
    exact (marksFailure_iff host _ _ _ visit).mp (h.visits hopen visited visit rest heq)
  · intro h
    have hvisits : f.tableOpen = true → AtEach (fun visited visit =>
        MarksFailure host f.shiftDelete (s.rowIndices host f) (s.afterRows host f visited) visit →
          KillsInVain host f.shiftDelete (s.rowIndices host f) (s.afterRows host f visited) visit)
        f.visits := fun hopen visited visit rest heq =>
      (marksFailure_iff host _ _ _ visit).mpr (h hopen visited visit rest heq)
    refine ⟨hvisits, fun hmark => ?_⟩
    cases hopen : f.tableOpen with
    | false =>
      rw [buildWindow_closed host s hopen, killFailed_buildToolBar] at hmark
      exact Or.inl hmark
    | true =>
      rw [buildWindow_eq host s hopen] at hmark
      refine (marked_by_visit host s f f.visits hmark).imp (killFailed_of_beforeRows host s f) ?_
      rintro ⟨visited, visit, rest, heq, hmarks⟩
      exact ⟨visited, visit, rest, heq, hvisits hopen visited visit rest heq hmarks⟩

end Frame

/-- **Reported kills.** In every run of frames a failed kill becomes marked only when
a row's dialog is answered OK and `KillProcess` returns false precisely when, each
time a row's dialog is answered otherwise while no failed kill is marked, the
variable `success` of the caller happens to hold true. -/
theorem run_reportsFailures_iff (readings : ℕ → UInt64) (frames : List Frame) :
    AtEach (fun before f => ReportsFailures host (run host readings before) f) frames ↔
      AtEach (fun before f => SuccessKnownThroughout host (run host readings before) f) frames :=
  forall₃_congr fun _ f _ => imp_congr_right fun _ => reportsFailures_iff host _ f

/-- Cancel is answered while the variable `success` holds false. -/
theorem cancel_marks_failure :
    let world := (Call.answered .enumProcesses 100 (.bare 1 8) []).toEnumWorld
    let row (result : MessageBoxResult) : RowVisit := ⟨0, true, none, ⟨result, .of [⟨1, 8⟩], false⟩⟩
    let opened := { Frame.idle world with shiftDelete := true, visits := [row .stillOpen] }
    let cancelled := { Frame.idle world with visits := [row .cancel] }
    let readings := fun n => 1000 + UInt64.ofNat n
    ¬ AtEach (fun before f => ReportsFailures .plain (run .plain readings before) f)
      [opened, cancelled] := by
  intro world row opened cancelled readings h
  have hmark : ((run .plain readings [opened]).buildWindow .plain cancelled).view.killFailed =
      true := by decide +kernel
  rcases (h [opened] cancelled [] rfl).at_end hmark with
    hbefore | ⟨visited, visit, rest, heq, hvain⟩
  · have hnone : (run .plain readings [opened]).view.killFailed = false := by decide +kernel
    rw [hnone] at hbefore
    cases hbefore
  · have hmem : visit ∈ cancelled.visits := heq ▸ by simp
    obtain ⟨_, _, _, hok, _⟩ := hvain
    rw [List.mem_singleton.mp hmem] at hok
    cases hok

end ProcExpX.Session
