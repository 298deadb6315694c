import Mathlib.Data.List.Induction
import ProcExpX.App.RowSteps
import ProcExpX.Library.Ledger

/-!
# What an update does to the rows and their records

The two loops of `DoUpdate` as functions of the lists they run over: the first adds
rows with records that are not marked terminated, the second marks the records of
rows. Neither touches the manager or the history.
-/

namespace ProcExpX.Session

open Library WinSys

variable {host : Host} {s s' : Session}

/-- What both loops leave alone. -/
structure SameWorld (s s' : Session) : Prop where
  /-- The manager. -/
  pm_eq : s'.view.pm = s.view.pm
  /-- The history. -/
  history_eq : s'.history = s.history

/-- The keys are the same. -/
theorem SameWorld.key_eq (h : s.SameWorld s') : s'.view.key = s.view.key :=
  ProcessesView.key_congr h.pm_eq

/-- The effect of the first loop of `DoUpdate` over a list of processes. -/
structure Added (s : Session) (pis : List (Ref ProcessInfo)) (s' : Session) : Prop
    extends s.SameWorld s' where
  /-- The processes are appended. -/
  processes_eq : s'.view.processes = s.view.processes ++ pis
  /-- Each of them has a record of its own that is not marked terminated. -/
  made : ∀ pi ∈ pis, ∃ px, s'.view.processesEx.lookup (s.view.key pi) = some px ∧ px.pi = pi ∧
    px.isTerminated = false
  /-- The other records are the same. -/
  same : ∀ k ∉ pis.map s.view.key, s'.view.processesEx.lookup k = s.view.processesEx.lookup k

/-- One round of the first loop adds a row for the process, with a record that is marked as new.
-/
theorem added_addNew (host : Host) (s : Session) {pi : Ref ProcessInfo}
    (hnone : s.view.processesEx.lookup (s.view.key pi) = none) :
    s.Added [pi] (s.addNew host pi) := by
  let v := { s.view with processes := s.view.processes ++ [pi] }
  have hinfo : v.infoEx host pi = .make (host.rawExpiry pi) pi := by
    rw [ProcessesView.infoEx, show v.processesEx.lookup (v.key pi) = none from hnone,
      Option.getD_none]
  have hlookup : ∀ k, (s.addNew host pi).view.processesEx.lookup k =
      if k = s.view.key pi then some ((v.infoEx host pi).new 2000 s.clock).1
      else s.view.processesEx.lookup k := by
    intro k
    have hfst : (v.getProcessInfoEx host pi).1 = v.infoEx host pi := by
      rw [ProcessesView.getProcessInfoEx_eq]
    rw [← hfst]
    exact v.lookup_set_getProcessInfoEx host pi _ k
  have hview : (s.addNew host pi).view.pm = s.view.pm ∧
      (s.addNew host pi).view.processes = s.view.processes ++ [pi] := by
    simp only [addNew, ProcessesView.getProcessInfoEx_eq]
    exact ⟨rfl, rfl⟩
  refine ⟨⟨hview.1, rfl⟩, hview.2, ?_, ?_⟩
  · intro pi' hpi'
    rw [List.mem_singleton.mp hpi', hlookup, if_pos rfl, hinfo]
    exact ⟨_, rfl, rfl, rfl⟩
  · intro k hk
    rw [hlookup, if_neg (by simpa using hk)]

/-- **The first loop.** Processes with distinct keys that have no records yet are
appended with new records. -/
theorem added_foldl (host : Host) (s : Session) (pis : List (Ref ProcessInfo))
    (hnone : ∀ pi ∈ pis, s.view.processesEx.lookup (s.view.key pi) = none)
    (hkeys : (pis.map s.view.key).Nodup) : s.Added pis (pis.foldl (addNew host) s) := by
  induction pis generalizing s with
  | nil => exact ⟨⟨rfl, rfl⟩, by simp, by simp, fun _ _ => rfl⟩
  | cons pi pis ih =>
    have hfirst := added_addNew host s (hnone pi (by simp))
    rw [List.map_cons, List.nodup_cons] at hkeys
    have hother : ∀ pi' ∈ pis, s.view.key pi' ∉ [pi].map s.view.key := by
      intro pi' hpi' hmem
      have heq : s.view.key pi' = s.view.key pi := by simpa using hmem
      exact hkeys.1 (heq ▸ List.mem_map_of_mem hpi')
    have hrest := ih (s.addNew host pi)
      (fun pi' hpi' => by
        rw [hfirst.key_eq, hfirst.same _ (hother pi' hpi')]
        exact hnone pi' (by simp [hpi']))
      (by rw [hfirst.key_eq]; exact hkeys.2)
    have hmade := hrest.made
    have hsame := hrest.same
    rw [hfirst.key_eq] at hmade hsame
    refine ⟨⟨hrest.pm_eq.trans hfirst.pm_eq, hrest.history_eq.trans hfirst.history_eq⟩, ?_, ?_, ?_⟩
    · rw [List.foldl_cons, hrest.processes_eq, hfirst.processes_eq, List.append_assoc,
        List.singleton_append]
    · intro pi' hpi'
      rcases List.mem_cons.mp hpi' with rfl | hmem
      · obtain ⟨px, hpx, hown⟩ := hfirst.made pi' (by simp)
        exact ⟨px, by rw [List.foldl_cons, hsame _ hkeys.1, hpx], hown⟩
      · exact hmade pi' hmem
    · intro k hk
      rw [List.map_cons, List.mem_cons, not_or] at hk
      rw [List.foldl_cons, hsame k hk.2, hfirst.same k (by simpa using hk.1)]

/-- The records stand beside the longer list of rows. -/
theorem Added.beside {pis : List (Ref ProcessInfo)} (h : s.Added pis s')
    (hbeside : Beside s.view.key ProcessInfoEx.pi s.view.processes s.view.processesEx) :
    Beside s.view.key ProcessInfoEx.pi (s.view.processes ++ pis) s'.view.processesEx := by
  intro k px hlookup
  by_cases hk : k ∈ pis.map s.view.key
  · obtain ⟨pi, hpi, rfl⟩ := List.mem_map.mp hk
    obtain ⟨px', hpx', hown, _⟩ := h.made pi hpi
    obtain rfl : px = px' := Option.some.inj (hlookup.symm.trans hpx')
    exact ⟨List.mem_append_right _ (hown.symm ▸ hpi), by rw [hown]⟩
  · rw [h.same k hk] at hlookup
    exact ⟨List.mem_append_left _ (hbeside k px hlookup).1, (hbeside k px hlookup).2⟩

/-- The effect of the second loop of `DoUpdate` over a list of rows. -/
structure Marked (s : Session) (pis : List (Ref ProcessInfo)) (s' : Session) : Prop
    extends s.SameWorld s' where
  /-- The rows are the same. -/
  processes_eq : s'.view.processes = s.view.processes
  /-- The records still stand beside the rows. -/
  beside : Beside s.view.key ProcessInfoEx.pi s.view.processes s'.view.processesEx
  /-- The records of the rows are marked terminated. -/
  marked : ∀ pi ∈ pis, ∃ px, s'.view.processesEx.lookup (s.view.key pi) = some px ∧
    px.isTerminated = true
  /-- The other records are the same. -/
  same : ∀ k ∉ pis.map s.view.key, s'.view.processesEx.lookup k = s.view.processesEx.lookup k

/-- The record of a row belongs to that row, whether or not it has to be made. -/
theorem infoEx_pi (host : Host) {v : ProcessesView}
    (hbeside : Beside v.key ProcessInfoEx.pi v.processes v.processesEx)
    (hkeys : (v.processes.map v.key).Nodup) {pi : Ref ProcessInfo} (hpi : pi ∈ v.processes) :
    (v.infoEx host pi).pi = pi := by
  unfold ProcessesView.infoEx
  cases hlookup : v.processesEx.lookup (v.key pi) with
  | none => rfl
  | some px => exact hbeside.owner_eq hkeys hpi hlookup

/-- One round of the second loop marks the record of the process as terminated, and no other. -/
theorem marked_markTerminated (host : Host) (s : Session)
    (hbeside : Beside s.view.key ProcessInfoEx.pi s.view.processes s.view.processesEx)
    (hkeys : (s.view.processes.map s.view.key).Nodup) {pi : Ref ProcessInfo}
    (hpi : pi ∈ s.view.processes) : s.Marked [pi] (s.markTerminated host pi) := by
  have hlookup : ∀ k, (s.markTerminated host pi).view.processesEx.lookup k =
      if k = s.view.key pi then some ((s.view.infoEx host pi).term 2000 s.clock).1
      else s.view.processesEx.lookup k := by
    intro k
    have hfst : (s.view.getProcessInfoEx host pi).1 = s.view.infoEx host pi := by
      rw [ProcessesView.getProcessInfoEx_eq]
    rw [← hfst]
    exact s.view.lookup_set_getProcessInfoEx host pi _ k
  have hview : (s.markTerminated host pi).view.pm = s.view.pm ∧
      (s.markTerminated host pi).view.processes = s.view.processes := by
    simp only [markTerminated, ProcessesView.getProcessInfoEx_eq]
    exact ⟨rfl, rfl⟩
  refine ⟨⟨hview.1, rfl⟩, hview.2, hbeside.write hpi ?_ hlookup, ?_, ?_⟩
  · rw [ProcessInfoEx.term_pi, infoEx_pi host hbeside hkeys hpi]
  · intro pi' hpi'
    rw [List.mem_singleton.mp hpi', hlookup, if_pos rfl]
    exact ⟨_, rfl, rfl⟩
  · intro k hk
    rw [hlookup, if_neg (by simpa using hk)]

/-- **The second loop.** The records of the given rows are marked terminated. -/
theorem marked_foldl (host : Host) (s : Session)
    (hbeside : Beside s.view.key ProcessInfoEx.pi s.view.processes s.view.processesEx)
    (hkeys : (s.view.processes.map s.view.key).Nodup) (pis : List (Ref ProcessInfo))
    (hpis : ∀ pi ∈ pis, pi ∈ s.view.processes) :
    s.Marked pis (pis.foldl (markTerminated host) s) := by
  induction pis using List.reverseRecOn with
  | nil => exact ⟨⟨rfl, rfl⟩, rfl, hbeside, by simp, fun _ _ => rfl⟩
  | append_singleton pis pi ih =>
    have hfirst := ih fun pi' hpi' => hpis pi' (by simp [hpi'])
    have hpi : pi ∈ (pis.foldl (markTerminated host) s).view.processes := by
      rw [hfirst.processes_eq]
      exact hpis pi (by simp)
    have hlast := marked_markTerminated host (pis.foldl (markTerminated host) s)
      (by rw [hfirst.key_eq, hfirst.processes_eq]; exact hfirst.beside)
      (by rw [hfirst.key_eq, hfirst.processes_eq]; exact hkeys) hpi
    rw [List.foldl_append, List.foldl_cons, List.foldl_nil]
    obtain ⟨hworld, hrows, hbeside', hmarked, hsame⟩ := hlast
    rw [hfirst.key_eq] at hbeside' hmarked hsame
    rw [hfirst.processes_eq] at hbeside' hrows
    refine ⟨⟨hworld.pm_eq.trans hfirst.pm_eq, hworld.history_eq.trans hfirst.history_eq⟩, hrows,
      hbeside', ?_, ?_⟩
    · intro pi' hpi'
      by_cases hkey : s.view.key pi' ∈ [pi].map s.view.key
      · have heq : s.view.key pi' = s.view.key pi := by simpa using hkey
        rw [heq]
        exact hmarked pi (by simp)
      · have hmem : pi' ∈ pis := by
          rcases List.mem_append.mp hpi' with hmem | hmem
          · exact hmem
          · exact absurd (List.mem_map_of_mem hmem) hkey
        rw [hsame _ hkey]
        exact hfirst.marked pi' hmem
    · intro k hk
      rw [List.map_append, List.mem_append, not_or] at hk
      rw [hsame k hk.2, hfirst.same k hk.1]

/-- The effect of `DoUpdate`. -/
structure Merged (s s' : Session) : Prop extends s.SameWorld s' where
  /-- The new processes are appended to the rows. -/
  processes_eq : s'.view.processes = s.view.processes ++ s.view.pm.newProcesses
  /-- The records stand beside the rows. -/
  beside : Beside s.view.key ProcessInfoEx.pi s'.view.processes s'.view.processesEx
  /-- The records of the terminated processes are marked terminated. -/
  marked : ∀ pi ∈ s.view.pm.terminatedProcesses, ∃ px,
    s'.view.processesEx.lookup (s.view.key pi) = some px ∧ px.isTerminated = true
  /-- The records of the other new processes are not. -/
  made : ∀ pi ∈ s.view.pm.newProcesses,
    s.view.key pi ∉ s.view.pm.terminatedProcesses.map s.view.key → ∃ px,
      s'.view.processesEx.lookup (s.view.key pi) = some px ∧ px.isTerminated = false
  /-- The other records are the same. -/
  same : ∀ k, k ∉ s.view.pm.newProcesses.map s.view.key →
    k ∉ s.view.pm.terminatedProcesses.map s.view.key →
      s'.view.processesEx.lookup k = s.view.processesEx.lookup k

/-- **Both loops** of `DoUpdate`, when the new processes have keys of their own and
the terminated ones have rows. -/
theorem merged_doUpdate (host : Host) (s : Session)
    (hbeside : Beside s.view.key ProcessInfoEx.pi s.view.processes s.view.processesEx)
    (hkeys : ((s.view.processes ++ s.view.pm.newProcesses).map s.view.key).Nodup)
    (hrows : ∀ pi ∈ s.view.pm.terminatedProcesses, pi ∈ s.view.processes) :
    s.Merged (s.doUpdate host) := by
  have hapart : ∀ pi ∈ s.view.pm.newProcesses, s.view.key pi ∉ s.view.processes.map s.view.key := by
    intro pi hpi hmem
    rw [List.map_append] at hkeys
    exact List.disjoint_of_nodup_append hkeys hmem (List.mem_map_of_mem hpi)
  have hadded := added_foldl host s s.view.pm.newProcesses
    (fun pi hpi => hbeside.lookup_none (hapart pi hpi))
    (by rw [List.map_append] at hkeys; exact hkeys.of_append_right)
  change s.Merged ((s.view.pm.newProcesses.foldl (addNew host) s).view.pm.terminatedProcesses.foldl
    (markTerminated host) (s.view.pm.newProcesses.foldl (addNew host) s))
  rw [hadded.pm_eq]
  set s₂ := s.view.pm.newProcesses.foldl (addNew host) s
  have hmarked := marked_foldl host s₂
    (by rw [hadded.key_eq, hadded.processes_eq]; exact hadded.beside hbeside)
    (by rw [hadded.key_eq, hadded.processes_eq]; exact hkeys) s.view.pm.terminatedProcesses
    fun pi hpi => hadded.processes_eq ▸ List.mem_append_left _ (hrows pi hpi)
  have hbeside' := hmarked.beside
  have hmarks := hmarked.marked
  have hsame := hmarked.same
  rw [hadded.key_eq] at hbeside' hmarks hsame
  refine ⟨⟨hmarked.pm_eq.trans hadded.pm_eq, hmarked.history_eq.trans hadded.history_eq⟩,
    hmarked.processes_eq.trans hadded.processes_eq, ?_, hmarks, ?_, ?_⟩
  · rw [hmarked.processes_eq]
    exact hbeside'
  · intro pi hpi hspared
    obtain ⟨px, hpx, _, hmark⟩ := hadded.made pi hpi
    exact ⟨px, (hsame _ hspared).trans hpx, hmark⟩
  · exact fun k hnew hspared => (hsame k hspared).trans (hadded.same k hnew)

/-- Taking over rows is not recorded. -/
theorem takeRows_history (host : Host) (s : Session) (empty : Bool) :
    (s.takeRows host empty).history = s.history := by
  cases empty with
  | true => rfl
  | false =>
    have hmark : ∀ (s : Session) pi, (s.markTerminated host pi).history = s.history :=
      fun _ _ => rfl
    have hadd : ∀ (s : Session) pi, (s.addNew host pi).history = s.history := fun _ _ => rfl
    exact (foldl_keeps history hmark _ _).trans (foldl_keeps history hadd _ s)

/-- `DoUpdate` appends the new processes to the rows. -/
theorem doUpdate_processes (host : Host) (s : Session) :
    (s.doUpdate host).view.processes = s.view.processes ++ s.view.pm.newProcesses := by
  have hadd : ∀ (pis : List (Ref ProcessInfo)) (s : Session),
      (pis.foldl (addNew host) s).view.processes = s.view.processes ++ pis := by
    intro pis
    induction pis with
    | nil => simp
    | cons pi pis ih =>
      intro s
      rw [List.foldl_cons, ih]
      simp [addNew, ProcessesView.getProcessInfoEx_eq, ProcessesView.setProcessInfoEx]
  have hmark : ∀ (s : Session) pi,
      (s.markTerminated host pi).view.processes = s.view.processes := by
    intro s pi
    simp [markTerminated, ProcessesView.getProcessInfoEx_eq, ProcessesView.setProcessInfoEx]
  exact (foldl_keeps (fun s : Session => s.view.processes) hmark _ _).trans (hadd _ s)

/-- The rows after an enumeration are old ones or processes of the manager. -/
theorem mem_takeRows (host : Host) (s : Session) {empty : Bool} {pi : Ref ProcessInfo}
    (hpi : pi ∈ (s.takeRows host empty).view.processes) :
    pi ∈ s.view.processes ∨ pi ∈ s.view.pm.processes ∨ pi ∈ s.view.pm.newProcesses := by
  cases empty with
  | true => exact Or.inr (Or.inl hpi)
  | false =>
    rcases List.mem_append.mp (doUpdate_processes host s ▸ hpi) with hold | hnew
    · exact Or.inl hold
    · exact Or.inr (Or.inr hnew)

/-- Once the rows are taken over, an update only sorts them and looks at the clock. -/
theorem Quiet.refresh (host : Host) (s : Session) (r : Refresh) :
    ((s.enumProcesses host r.world).takeRows host s.view.processes.isEmpty).Quiet
      (s.refresh host r) :=
  (Quiet.sortAgain host _ r).trans (Quiet.stampTick _)

/-- An update keeps the rows. -/
theorem mem_refresh (host : Host) (s : Session) (r : Refresh) {pi : Ref ProcessInfo}
    (hpi : pi ∈ s.view.processes) : pi ∈ (s.refresh host r).view.processes := by
  refine (Quiet.refresh host s r).view.perm.mem_iff.mpr ?_
  rw [List.isEmpty_eq_false_iff.mpr (List.ne_nil_of_mem hpi)]
  have hrows := doUpdate_processes host (s.enumProcesses host r.world)
  exact hrows ▸ List.mem_append_left _ hpi

/-- An update makes one call. -/
theorem refresh_calls (host : Host) (s : Session) (r : Refresh) :
    (s.refresh host r).history.calls = s.history.calls ++ [enumCall r.world] := by
  have htaken := takeRows_history host (s.enumProcesses host r.world) s.view.processes.isEmpty
  exact (Quiet.refresh host s r).calls_eq.trans (congrArg History.calls htaken)

/-- A refresh that is not due only looks at the clock. -/
theorem refreshIfDue_cases (host : Host) (s : Session) (r : Refresh) :
    s.Quiet (s.refreshIfDue host r) ∨
      ∃ s₁, s.Quiet s₁ ∧ s.refreshIfDue host r = s₁.refresh host r := by
  have hclock : ∀ clock : Clock, s.Quiet { s with clock := clock } := fun _ => ⟨.refl _, rfl, rfl⟩
  unfold refreshIfDue
  dsimp only
  split
  · split
    · exact Or.inr ⟨_, hclock _, rfl⟩
    · exact Or.inl (hclock _)
  · exact Or.inl (.refl s)

/-- Before the purge loop `BuildTable` keeps the rows or updates them. -/
theorem updateTable_cases (host : Host) (s : Session) (f : Frame) :
    s.Quiet (s.updateTable host f) ∨
      ∃ s₁, s.Quiet s₁ ∧ s.updateTable host f = s₁.refresh host f.refresh := by
  have hspace : s.Quiet (if f.space then s.onView ProcessesView.togglePause else s) :=
    .ite fun _ => .togglePause s
  rcases refreshIfDue_cases host (if f.space then s.onView ProcessesView.togglePause else s)
    f.refresh with hquiet | ⟨s₁, hquiet, heq⟩
  · exact Or.inl (hspace.trans hquiet)
  · exact Or.inr ⟨s₁, hspace.trans hquiet, heq⟩

end ProcExpX.Session
