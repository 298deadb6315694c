import ProcExpX.App.DrawnRows
import ProcExpX.WinSys.Lookups

/-!
# The processes whose properties are asked for

Properties are asked for in the menu of a row, and every row shows an object that the
manager has listed at some time. The creation time and the id of such an object make
up its key, and no later enumeration changes them.
-/

namespace ProcExpX.Session

open Library WinSys

variable {host : Host} {s s' s'' : Session}

/-- A process object of the manager: it is allocated and its key is made up of its
creation time and id. -/
def Identified (s : Session) (pi : Ref ProcessInfo) : Prop :=
  s.view.pm.processHeap.Live pi ∧ (s.view.pm.process pi).KeyMade

/-- Objects of the manager remain what they are. -/
def Retains (s s' : Session) : Prop :=
  ∀ pi, s.Identified pi → s'.Identified pi ∧ s'.view.key pi = s.view.key pi

/-- What is retained by two steps one after the other is retained by both together. -/
theorem Retains.trans (h : s.Retains s') (h' : s'.Retains s'') : s.Retains s'' := by
  intro pi hpi
  obtain ⟨hpi', hkey⟩ := h pi hpi
  obtain ⟨hpi'', hkey'⟩ := h' pi hpi'
  exact ⟨hpi'', hkey'.trans hkey⟩

/-- A step without an enumeration retains all processes. -/
theorem Retains.of_pm (hpm : s'.view.pm = s.view.pm) : s.Retains s' := by
  intro pi hpi
  rw [Identified, ProcessesView.key_congr hpm, hpm]
  exact ⟨hpi, rfl⟩

/-- An enumeration retains the objects that the manager has. -/
theorem Retains.of_step {ks ts : List ProcessOrThreadKey} (hm : s.view.pm.Tracks ks ts)
    {world : EnumWorld} (hpm : s'.view.pm = s.view.pm.step host.env (enumCall world)) :
    s.Retains s' := by
  rintro pi ⟨hlive, hmade⟩
  obtain ⟨recs, thr, hreb⟩ := Impl.step_rebuilt host.env hm.keyed (enumCall world)
  have hkey := Impl.step_constant host.env hm.keyed (enumCall world) (f := ProcessInfo.key)
    (fun _ _ => rfl) hlive
  have hmade' := Impl.step_constant host.env hm.keyed (enumCall world)
    (f := ProcessInfo.KeyMade) (fun _ _ => rfl) hlive
  rw [Identified, ProcessesView.key, ProcessesView.key, hpm]
  exact ⟨⟨(hreb.processSide hm.keyed).live hlive, hmade' ▸ hmade⟩, hkey⟩

/-- The processes that a manager lists are its objects. -/
theorem identified_of_listed
    (hpm : s.view.pm = Impl.run host.env host.rawProcesses host.rawThreads s.history.calls)
    {pi : Ref ProcessInfo} (hpi : pi ∈ s.view.pm.processes) : s.Identified pi := by
  have hm := Impl.run_tracks host.env host.rawProcesses host.rawThreads s.history.calls
  have hmade := (Impl.run_keyMade host.env host.rawProcesses host.rawThreads s.history.calls).1
  rw [← hpm] at hm hmade
  exact ⟨hm.processes.all_live pi hpi, hmade pi hpi⟩

/-- **The invariant.** The rows and the processes whose properties were asked for are
objects of the manager. -/
structure Identifies (host : Host) (s : Session) : Prop where
  /-- The view made all calls of the manager. -/
  pm_eq : s.view.pm = Impl.run host.env host.rawProcesses host.rawThreads s.history.calls
  /-- The rows. -/
  rows : ∀ pi ∈ s.view.processes, s.Identified pi
  /-- The requests. -/
  requests : ∀ pi ∈ s.history.properties, s.Identified pi

namespace Identifies

/-- A session starts without rows and requests, so the invariant holds of it. -/
theorem initial (host : Host) (readings : ℕ → UInt64) :
    (Session.initial host readings).Identifies host :=
  ⟨rfl, by simp [Session.initial], by simp [Session.initial]⟩

/-- The manager tracks what it lists. -/
theorem tracks (h : s.Identifies host) : ∃ ks ts, s.view.pm.Tracks ks ts :=
  ⟨_, _, h.pm_eq ▸ Impl.run_tracks host.env host.rawProcesses host.rawThreads s.history.calls⟩

/-- Without an enumeration what is left to show is where rows and requests come from. -/
theorem samePm (h : s.Identifies host) (hpm : s'.view.pm = s.view.pm)
    (hcalls : s'.history.calls = s.history.calls)
    (hrows : ∀ pi ∈ s'.view.processes, pi ∈ s.view.processes)
    (hrequests : ∀ pi ∈ s'.history.properties,
      pi ∈ s.history.properties ∨ pi ∈ s.view.processes) :
    s'.Identifies host ∧ s.Retains s' := by
  have hretains : s.Retains s' := .of_pm hpm
  refine ⟨⟨?_, ?_, ?_⟩, hretains⟩
  · rw [hpm, h.pm_eq, hcalls]
  · exact fun pi hpi => (hretains pi (h.rows pi (hrows pi hpi))).1
  · intro pi hpi
    rcases hrequests pi hpi with hold | hrow
    · exact (hretains pi (h.requests pi hold)).1
    · exact (hretains pi (h.rows pi hrow)).1

/-- A step that leaves the rows alone keeps the invariant, if it asks for the properties of rows
only. -/
theorem quiet (h : s.Identifies host) (hq : s.Quiet s')
    (hrequests : ∀ pi ∈ s'.history.properties,
      pi ∈ s.history.properties ∨ pi ∈ s.view.processes) :
    s'.Identifies host ∧ s.Retains s' :=
  h.samePm hq.view.pm_eq hq.calls_eq (fun _ hpi => hq.view.perm.mem_iff.mp hpi) hrequests

/-- **An update** keeps the invariant and retains the processes handed out before. -/
theorem refresh (h : s.Identifies host) (r : Refresh) :
    (s.refresh host r).Identifies host ∧ s.Retains (s.refresh host r) := by
  obtain ⟨ks, ts, hm⟩ := h.tracks
  have hpm := refresh_pm host s r
  have hretains : s.Retains (s.refresh host r) := .of_step hm hpm
  have hrun : (s.refresh host r).view.pm = Impl.run host.env host.rawProcesses host.rawThreads
      (s.refresh host r).history.calls := by
    rw [hpm, refresh_calls, Impl.run_concat, ← h.pm_eq]
  refine ⟨⟨hrun, fun pi hpi => ?_, fun pi hpi => ?_⟩, hretains⟩
  · have hrow := (Quiet.refresh host s r).view.perm.mem_iff.mp hpi
    rcases mem_takeRows host _ hrow with hold | hlisted | hnew
    · exact (hretains pi (h.rows pi hold)).1
    · exact identified_of_listed hrun (hpm ▸ hlisted)
    · exact identified_of_listed hrun (hpm ▸ Impl.step_new_listed host.env hm.keyed _ hnew)
  · rw [properties_eq (notes_refresh host s r)] at hpi
    exact (hretains pi (h.requests pi hpi)).1

/-- The part of `BuildTable` before the purge loop. -/
theorem updateTable (h : s.Identifies host) (f : Frame) :
    (s.updateTable host f).Identifies host ∧ s.Retains (s.updateTable host f) := by
  have hnotes := properties_eq (notes_updateTable host s f)
  rcases updateTable_cases host s f with hquiet | ⟨s₁, hquiet, heq⟩
  · exact h.quiet hquiet fun pi hpi => Or.inl (hnotes ▸ hpi)
  · have hrequests := properties_eq (notes_refresh host s₁ f.refresh)
    rw [heq] at hnotes ⊢
    obtain ⟨h₁, hretains⟩ := h.quiet hquiet fun pi hpi =>
      Or.inl (hnotes ▸ hrequests.symm ▸ hpi)
    obtain ⟨h₂, hretains'⟩ := h₁.refresh f.refresh
    exact ⟨h₂, hretains.trans hretains'⟩

end Identifies

/-- The dialog of a row asks for no properties. -/
theorem properties_rowDialog (s : Session) (p : Ref ProcessInfo) (answer : DialogAnswer) :
    (s.rowDialog p answer).history.properties = s.history.properties := by
  have hkill := properties_eq (notes_tryKillProcess s answer p)
  unfold rowDialog
  split
  · dsimp only
    split
    · exact hkill
    · exact hkill
  · rfl

/-- The row loop asks for properties of rows only. -/
theorem properties_drawRows (host : Host) (shiftDelete : Bool) (indices : List ℕ)
    (visits : List RowVisit) (s : Session) :
    ∀ pi ∈ (visits.foldl (drawRow host shiftDelete indices) s).history.properties,
      pi ∈ s.history.properties ∨ pi ∈ s.view.processes := by
  induction visits generalizing s with
  | nil => exact fun _ => Or.inl
  | cons visit visits ih =>
    intro pi hpi
    have hquiet := Quiet.drawRow host shiftDelete indices s visit
    rcases ih _ pi hpi with hfirst | hrow
    · rcases drawRow_cases host s shiftDelete indices visit with
        ⟨_, _, _, hnotes⟩ | ⟨s₁, p, _, hdrawn, hdraw⟩
      · exact Or.inl (properties_eq hnotes ▸ hfirst)
      · rw [hdraw, properties_rowDialog] at hfirst
        rcases (notes_rowMenus host s₁ shiftDelete p visit.popup).2 pi hfirst with hold | rfl
        · exact Or.inl (properties_eq hdrawn.notes_eq ▸ hold)
        · exact Or.inr hdrawn.row
    · exact Or.inr (hquiet.view.perm.mem_iff.mp hrow)

/-- From the purge loop to the end of the table the invariant is kept and all processes are
retained. -/
theorem Identifies.drawTable {l : Purge} (h : l.session.Identifies host) (f : Frame) :
    (drawTable host f l).Identifies host ∧ l.session.Retains (drawTable host f l) := by
  refine h.quiet (Quiet.drawTable host f l) fun pi hpi => ?_
  have hsort := Quiet.sortIfDirty host l.session f.specs
  have hbox := Quiet.failureBox (l.session.sortIfDirty host f.specs) f.failureResult
  have hrequests : ((l.session.sortIfDirty host f.specs).failureBox
      f.failureResult).history.properties = l.session.history.properties := by
    rw [← properties_eq (notes_sortIfDirty host l.session f.specs)]
    unfold failureBox
    split <;> rfl
  rcases properties_drawRows host f.shiftDelete l.indices f.visits _ pi hpi with hold | hrow
  · exact Or.inl (hrequests ▸ hold)
  · exact Or.inr ((hsort.trans hbox).view.perm.mem_iff.mp hrow)

/-- **One frame** keeps the invariant, and the objects of the manager. -/
theorem Identifies.buildWindow (h : s.Identifies host) (f : Frame) :
    (s.buildWindow host f).Identifies host ∧ s.Retains (s.buildWindow host f) := by
  have hrequests := properties_eq (s := s.editFilter f.toolBar)
    ((notes_intervalMenu _ f.toolBar).trans (notes_killButton _ f.toolBar))
  obtain ⟨hbar, hretains⟩ := h.quiet (Quiet.buildToolBar s f.toolBar)
    fun pi hpi => Or.inl (hrequests ▸ hpi)
  cases hopen : f.tableOpen with
  | false =>
    rw [buildWindow_closed host s hopen]
    exact ⟨hbar, hretains⟩
  | true =>
    obtain ⟨hupdate, hretains₁⟩ := hbar.updateTable f
    obtain ⟨hpurge, hretains₂⟩ := hupdate.samePm (SameDialog.purge host _).view.pm_eq
      (purge_calls host _) (fun pi hpi => mem_of_mem_purge host _ hpi)
      fun pi hpi => Or.inl (properties_eq (notes_purge host _) ▸ hpi)
    obtain ⟨hdraw, hretains₃⟩ := Identifies.drawTable hpurge f
    rw [Session.buildWindow, buildTable, if_pos hopen]
    exact ⟨hdraw, ((hretains.trans hretains₁).trans hretains₂).trans hretains₃⟩

end ProcExpX.Session
