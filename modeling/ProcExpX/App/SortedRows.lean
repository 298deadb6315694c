import ProcExpX.App.RowsExact
import ProcExpX.App.TableSteps

/-!
# The rows stay sorted

`BuildTable` sorts the rows when the user has changed the column or direction, and once
more after each update. Between two sorts the rows lose members only. So at the end of
every frame they stand in the order that the user has chosen last, provided that a sort
specification changes only together with its dirty flag, as ImGui says it does.
-/

namespace ProcExpX

open Library WinSys

namespace ProcessesView

/-- Comparisons only look at the manager. -/
theorem sortsBefore_congr {v v' : ProcessesView} (hpm : v'.pm = v.pm) (host : Host) :
    v'.sortsBefore host = v.sortsBefore host := by
  funext answers col asc r1 r2
  unfold sortsBefore sortsBeforeBy
  rw [hpm]

/-- No row stands before one that the column and direction put before it. -/
def SortedBy (host : Host) (v : ProcessesView) (answers : SortAnswers) (spec : SortSpec) : Prop :=
  v.processes.Pairwise fun r1 r2 =>
    v.sortsBefore host answers spec.columnIndex spec.ascending r2 r1 = false

/-- The rows are sorted by the chosen column and direction, with answers among the given
ones. -/
def SortedAs (host : Host) (v : ProcessesView) (chosen : Option SortSpec)
    (given : List SortAnswers) : Prop :=
  v.specs = chosen.isSome ∧
    ∀ spec ∈ chosen, ∃ answers ∈ given, v.SortedBy host answers spec

namespace SortedAs

variable {host : Host} {v v' : ProcessesView} {chosen : Option SortSpec} {given : List SortAnswers}

/-- Rows may be taken out, and more answers be given. -/
theorem sublist (h : v.SortedAs host chosen given) (hpm : v'.pm = v.pm)
    (hspecs : v'.specs = v.specs) (hrows : v'.processes.Sublist v.processes)
    {more : List SortAnswers}
    (hgiven : ∀ answers ∈ given, answers ∈ more) : v'.SortedAs host chosen more := by
  refine ⟨hspecs.trans h.1, fun spec hspec => ?_⟩
  obtain ⟨answers, hanswers, hsorted⟩ := h.2 spec hspec
  refine ⟨answers, hgiven answers hanswers, ?_⟩
  unfold SortedBy
  rw [sortsBefore_congr hpm]
  exact hsorted.sublist hrows

/-- A sort by the chosen column and direction. -/
theorem of_sort {spec : SortSpec} {answers : SortAnswers} (hanswers : answers ∈ given)
    (hpm : v'.pm = v.pm) (hspecs : v'.specs = true)
    (hrows : v'.processes = host.stdSort.sort
      (v.sortsBefore host answers spec.columnIndex spec.ascending) v.processes) :
    v'.SortedAs host (some spec) given := by
  refine ⟨hspecs, fun spec' hspec => ⟨answers, hanswers, ?_⟩⟩
  obtain rfl : spec = spec' := Option.some.inj hspec
  unfold SortedBy
  rw [sortsBefore_congr hpm, hrows]
  exact host.stdSort.sorted _ (sortsBefore_strictWeak host v answers spec.columnIndex
    spec.ascending)

end SortedAs

end ProcessesView

/-- What the user chooses in a frame: the specification that comes with its flag set. -/
def Frame.chosen (f : Frame) : Option SortSpec :=
  if f.tableOpen then (f.specs.filter (·.dirty)).map (·.toSortSpec) else none

/-- The answers that the sorts of a frame may use. -/
def Frame.answers (f : Frame) : List SortAnswers :=
  f.refresh.answers :: (f.specs.map (·.answers)).toList

/-- What the user has chosen last. -/
def lastChosen (frames : List Frame) : Option SortSpec :=
  frames.foldl (fun chosen f => f.chosen.or chosen) none

/-- The answers that the sorts of a run may use. -/
def givenAnswers (frames : List Frame) : List SortAnswers := frames.flatMap Frame.answers

/-- In a frame in which the user chooses nothing new, the specification that the last
sort used is still what it was. -/
def SpecsSteady (frames : List Frame) : Prop :=
  AtEach (fun before f => f.tableOpen = true → f.chosen = none →
    ∀ spec ∈ lastChosen before, f.refresh.specs = spec) frames

namespace Session

variable {host : Host} {s s' : Session} {chosen : Option SortSpec} {given : List SortAnswers}

/-- A step that leaves manager, rows and sort specification alone keeps the order. -/
theorem sortedAs_of_eq (h : s.view.SortedAs host chosen given) (hpm : s'.view.pm = s.view.pm)
    (hspecs : s'.view.specs = s.view.specs) (hrows : s'.view.processes = s.view.processes) :
    s'.view.SortedAs host chosen given :=
  h.sublist hpm hspecs (hrows ▸ .refl _) fun _ => id

/-- Choosing an interval leaves the rows in the order chosen last. -/
theorem sortedAs_chooseInterval (h : s.view.SortedAs host chosen given) (item : IntervalItem) :
    (s.onView (chooseInterval item)).view.SortedAs host chosen given := by
  cases item with
  | paused =>
    refine sortedAs_of_eq h ?_ ?_ ?_ <;>
    · show _ = _
      unfold onView chooseInterval ProcessesView.togglePause
      dsimp only
      split <;> rfl
  | _ => exact sortedAs_of_eq h rfl rfl rfl

/-- The tool bar keeps the order. -/
theorem sortedAs_buildToolBar (h : s.view.SortedAs host chosen given) (t : ToolBar) :
    (s.buildToolBar t).view.SortedAs host chosen given := by
  have hbutton := SameTable.killButton s t
  have hsorted := sortedAs_of_eq h hbutton.pm_eq hbutton.specs_eq hbutton.processes_eq
  unfold buildToolBar intervalMenu
  split
  · exact sortedAs_chooseInterval hsorted _
  · exact hsorted

/-- **An update** sorts the rows if there is a specification. -/
theorem sortedAs_refresh (h : s.view.specs = chosen.isSome) (r : Refresh)
    (hspecs : ∀ spec ∈ chosen, r.specs = spec) (hgiven : r.answers ∈ given) :
    (s.refresh host r).view.SortedAs host chosen given := by
  have htaken := takeRows_table host (s.enumProcesses host r.world) s.view.processes.isEmpty
  have hflag : ((s.enumProcesses host r.world).takeRows host s.view.processes.isEmpty).view.specs =
      s.view.specs := congrArg Table.specs htaken
  show (((s.enumProcesses host r.world).takeRows host s.view.processes.isEmpty).sortAgain host
    r).view.SortedAs host chosen given
  unfold sortAgain
  rw [hflag, h]
  cases chosen with
  | none => exact ⟨hflag.trans h, fun spec hspec => absurd hspec (Option.not_mem_none spec)⟩
  | some spec =>
    rw [if_pos (Option.isSome_some)]
    obtain rfl := hspecs spec rfl
    have htable := ProcessesView.table_doSort host ((s.enumProcesses host r.world).takeRows host
      s.view.processes.isEmpty).view r.answers r.specs.columnIndex r.specs.ascending
    exact .of_sort hgiven (congrArg Table.pm htable)
      ((congrArg Table.specs htable).trans (hflag.trans h)) (congrArg Table.processes htable)

/-- **Before the purge loop** the rows are sorted. -/
theorem sortedAs_updateTable (h : s.view.SortedAs host chosen given) (f : Frame)
    (hspecs : ∀ spec ∈ chosen, f.refresh.specs = spec) :
    (s.updateTable host f).view.SortedAs host chosen (given ++ f.answers) := by
  have hspace : (if f.space then s.onView ProcessesView.togglePause else s).view.SortedAs host
      chosen given := by
    split
    · exact sortedAs_chooseInterval h .paused
    · exact h
  unfold updateTable refreshIfDue
  dsimp only
  generalize (if f.space then s.onView ProcessesView.togglePause else s) = s₁ at hspace ⊢
  have hgiven : f.refresh.answers ∈ given ++ f.answers := by simp [Frame.answers]
  have hmore : s₁.view.SortedAs host chosen (given ++ f.answers) :=
    hspace.sublist rfl rfl (.refl _) fun _ => List.mem_append_left _
  split
  · split
    · refine sortedAs_refresh ?_ f.refresh hspecs hgiven
      exact hspace.1
    · exact hmore
  · exact hmore

/-- **One frame** leaves the rows sorted by what the user has chosen last. -/
theorem sortedAs_buildWindow (h : s.view.SortedAs host chosen given) (f : Frame)
    (hsteady : f.tableOpen = true → f.chosen = none → ∀ spec ∈ chosen, f.refresh.specs = spec) :
    (s.buildWindow host f).view.SortedAs host (f.chosen.or chosen) (given ++ f.answers) := by
  have hbar := sortedAs_buildToolBar h f.toolBar
  cases hopen : f.tableOpen with
  | false =>
    rw [buildWindow, buildTable, if_neg (by simp [hopen]), Frame.chosen,
      if_neg (by simp [hopen]), Option.none_or]
    exact hbar.sublist rfl rfl (.refl _) fun _ => List.mem_append_left _
  | true =>
    rw [buildWindow, buildTable, if_pos hopen]
    have hdrawn := SameTable.drawTable host f
      (((s.buildToolBar f.toolBar).updateTable host f).purge host)
    obtain ⟨hrows, hrest⟩ := purge_table host ((s.buildToolBar f.toolBar).updateTable host f)
    refine sortedAs_of_eq ?_ hdrawn.pm_eq hdrawn.specs_eq hdrawn.processes_eq
    have hsort := sortIfDirty_table host
      (((s.buildToolBar f.toolBar).updateTable host f).purge host).session f.specs
    cases hdirty : f.specs.filter (·.dirty) with
    | none =>
      have hnone : f.chosen = none := by rw [Frame.chosen, if_pos hopen, hdirty, Option.map_none]
      have hupdated := sortedAs_updateTable hbar f (hsteady hopen hnone)
      rw [hdirty] at hsort
      rw [hnone, Option.none_or]
      have hpurged : (((s.buildToolBar f.toolBar).updateTable host f).purge
          host).session.view.SortedAs host chosen (given ++ f.answers) :=
        hupdated.sublist (congrArg Table.pm hrest) (congrArg Table.specs hrest) hrows fun _ => id
      exact sortedAs_of_eq hpurged (congrArg Table.pm hsort) (congrArg Table.specs hsort)
        (congrArg Table.processes hsort)
    | some t =>
      have hsome : f.chosen = some t.toSortSpec := by
        rw [Frame.chosen, if_pos hopen, hdirty, Option.map_some]
      have hanswers : t.answers ∈ given ++ f.answers := by
        have ht : f.specs = some t := (Option.filter_eq_some_iff.mp hdirty).1
        simp [Frame.answers, ht]
      rw [hdirty] at hsort
      rw [hsome, Option.some_or]
      exact .of_sort hanswers (congrArg Table.pm hsort) (congrArg Table.specs hsort)
        (congrArg Table.processes hsort)

/-- **The rows stay sorted.** In every run in which the sort specification changes only
together with its flag, the rows stand at the end of each frame in the order of the column
and direction that the user has chosen last. -/
theorem run_sorted (host : Host) (readings : ℕ → UInt64) (frames : List Frame)
    (hsteady : SpecsSteady frames) :
    (run host readings frames).view.SortedAs host (lastChosen frames) (givenAnswers frames) := by
  induction frames using List.reverseRecOn with
  | nil => exact ⟨rfl, fun spec hspec => absurd hspec (Option.not_mem_none spec)⟩
  | append_singleton frames f ih =>
    obtain ⟨hfirst, hlast⟩ := AtEach.concat_iff.mp hsteady
    have hframe := sortedAs_buildWindow (ih hfirst) f hlast
    rw [run_concat]
    rwa [lastChosen, List.foldl_append, givenAnswers, List.flatMap_append, List.flatMap_singleton]

/-- The user sorts by descending ids, and a process with a lower id comes after that. -/
theorem run_sorted_new_process :
    let answers : SortAnswers := ⟨fun _ => [], fun _ => [], fun _ => 0⟩
    let byId : SortSpec := ⟨1, false⟩
    let idle := Frame.idle (Call.answered .enumProcesses 100 (.bare 1 8) [.bare 1 12]).toEnumWorld
    let click := { idle with specs := some ⟨byId, true, answers⟩ }
    let later := Frame.idle
      (Call.answered .enumProcesses 200 (.bare 1 8) [.bare 1 12, .bare 2 10]).toEnumWorld
    let update := { later with refresh := { later.refresh with specs := byId } }
    let host := { Host.plain with stdSort := .insertion }
    let s := run host (fun n => 1000 * (UInt64.ofNat n + 1)) [click, update]
    s.view.processes.map s.view.key = [⟨1, 12⟩, ⟨2, 10⟩, ⟨1, 8⟩] ∧
      s.view.SortedAs host (some byId) (givenAnswers [click, update]) := by
  intro answers byId idle click later update host s
  refine ⟨by decide +kernel, run_sorted host _ [click, update] ?_⟩
  rw [SpecsSteady, AtEach.pair_iff]
  refine ⟨fun _ _ spec hspec => absurd hspec (Option.not_mem_none spec),
    fun _ _ spec hspec => ?_⟩
  obtain rfl : byId = spec := Option.some.inj hspec
  rfl

end Session

end ProcExpX
