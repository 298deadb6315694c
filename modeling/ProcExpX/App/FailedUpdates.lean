import ProcExpX.App.DialogSteps
import ProcExpX.App.PurgeRounds
import ProcExpX.App.RowsExact

/-!
# Rows after failed enumerations

A failed enumeration gives up all processes, and a later one lists them again as new
objects while the rows of the old ones are still highlighted. Old and new rows then
share one record. Its highlight ends with the erasure of a single row, so the rows
come out right only if that row is the one old row with its key.
-/

namespace ProcExpX

open Library WinSys

namespace ProcessesView

/-- The record under a key is marked terminated. -/
def Marked (v : ProcessesView) (k : ProcessOrThreadKey) : Prop :=
  ∃ px, v.processesEx.lookup k = some px ∧ px.isTerminated = true

/-- The record under a key is there and not marked terminated. -/
def Unmarked (v : ProcessesView) (k : ProcessOrThreadKey) : Prop :=
  ∃ px, v.processesEx.lookup k = some px ∧ px.isTerminated = false

variable {v v' : ProcessesView} {k : ProcessOrThreadKey}

/-- A record is not both. -/
theorem Unmarked.not_marked (h : v.Unmarked k) : ¬ v.Marked k := by
  rintro ⟨px, hpx, hmark⟩
  obtain ⟨px', hpx', hmark'⟩ := h
  obtain rfl := Option.some.inj (hpx.symm.trans hpx')
  exact absurd (hmark.symm.trans hmark') (by decide)

/-- Where there is a mark there is a record that shows it. -/
theorem Marked.infoEx (host : Host) {pi : Ref ProcessInfo} (h : v.Marked (v.key pi)) :
    (v.infoEx host pi).isTerminated = true := by
  obtain ⟨px, hpx, hmark⟩ := h
  rw [ProcessesView.infoEx, hpx]
  exact hmark

/-- A record that is not marked shows that. -/
theorem Unmarked.infoEx (host : Host) {pi : Ref ProcessInfo} (h : v.Unmarked (v.key pi)) :
    (v.infoEx host pi).isTerminated = false := by
  obtain ⟨px, hpx, hmark⟩ := h
  rw [ProcessesView.infoEx, hpx]
  exact hmark

/-- A rearrangement keeps the records there are. -/
theorem Rearranged.lookup_some (h : v.Rearranged v') {px : ProcessInfoEx}
    (hpx : v.processesEx.lookup k = some px) : v'.processesEx.lookup k = some px := by
  rcases h.records k with hsame | ⟨hnone, _⟩
  · rw [hsame, hpx]
  · rw [hpx] at hnone
    cases hnone

/-- A rearrangement keeps the marks. -/
theorem Rearranged.marked (h : v.Rearranged v') (hk : v.Marked k) : v'.Marked k :=
  hk.imp fun _ hpx => ⟨h.lookup_some hpx.1, hpx.2⟩

/-- A rearrangement marks no process that was not marked before. -/
theorem Rearranged.unmarked (h : v.Rearranged v') (hk : v.Unmarked k) : v'.Unmarked k :=
  hk.imp fun _ hpx => ⟨h.lookup_some hpx.1, hpx.2⟩

end ProcessesView

namespace Session

variable {host : Host} {s s' : Session}

/-- A new row leaves the marks of all records as they are. -/
theorem marked_addNew (host : Host) (s : Session) (pi : Ref ProcessInfo)
    {k : ProcessOrThreadKey} (hk : s.view.Marked k) : (s.addNew host pi).view.Marked k := by
  let v := { s.view with processes := s.view.processes ++ [pi] }
  obtain ⟨px, hpx, hmark⟩ := hk
  have hlookup := v.lookup_set_getProcessInfoEx host pi
    ((v.getProcessInfoEx host pi).1.new 2000 s.clock).1 k
  rw [ProcessesView.Marked, show (s.addNew host pi).view.processesEx.lookup k = _ from hlookup]
  by_cases heq : k = v.key pi
  · rw [if_pos heq]
    refine ⟨_, rfl, ?_⟩
    have hinfo : (v.getProcessInfoEx host pi).1 = px := by
      rw [ProcessesView.getProcessInfoEx_eq, ProcessesView.infoEx,
        show v.processesEx.lookup (v.key pi) = some px from heq ▸ hpx]
      rfl
    rw [ProcessInfoEx.new_isTerminated, hinfo, hmark]
  · rw [if_neg heq]
    exact ⟨px, hpx, hmark⟩

/-- A terminated process leaves its record marked, and no other mark is taken off. -/
theorem marked_markTerminated_iff (host : Host) (s : Session) (pi : Ref ProcessInfo)
    (k : ProcessOrThreadKey) :
    (s.markTerminated host pi).view.Marked k ↔ k = s.view.key pi ∨ s.view.Marked k := by
  have hlookup := s.view.lookup_set_getProcessInfoEx host pi
    ((s.view.getProcessInfoEx host pi).1.term 2000 s.clock).1 k
  rw [ProcessesView.Marked,
    show (s.markTerminated host pi).view.processesEx.lookup k = _ from hlookup]
  by_cases heq : k = s.view.key pi
  · rw [if_pos heq]
    exact ⟨fun _ => Or.inl heq, fun _ => ⟨_, rfl, rfl⟩⟩
  · rw [if_neg heq, or_iff_right heq]
    rfl

/-- Neither loop of `DoUpdate` touches the manager. -/
theorem doUpdate_pm (host : Host) (s : Session) : (s.doUpdate host).view.pm = s.view.pm :=
  (SameDialog.takeRows host s false).view.pm_eq

/-- **Marks after `DoUpdate`.** The terminated processes are marked, and no mark is
taken off. -/
theorem marked_doUpdate (host : Host) (s : Session) {k : ProcessOrThreadKey}
    (hk : s.view.Marked k ∨ k ∈ s.view.pm.terminatedProcesses.map s.view.key) :
    (s.doUpdate host).view.Marked k := by
  have hadd : ∀ (pis : List (Ref ProcessInfo)) (s : Session),
      (s.view.Marked k → (pis.foldl (addNew host) s).view.Marked k) ∧
        (pis.foldl (addNew host) s).view.pm = s.view.pm := by
    intro pis
    induction pis with
    | nil => exact fun _ => ⟨id, rfl⟩
    | cons pi pis ih =>
      intro s
      have hpm : (s.addNew host pi).view.pm = s.view.pm := by
        simp only [addNew, ProcessesView.getProcessInfoEx_eq]
        rfl
      exact ⟨fun hk => (ih _).1 (marked_addNew host s pi hk), (ih _).2.trans hpm⟩
  have hmark : ∀ (pis : List (Ref ProcessInfo)) (s : Session),
      s.view.Marked k ∨ k ∈ pis.map s.view.key →
        (pis.foldl (markTerminated host) s).view.Marked k := by
    intro pis
    induction pis with
    | nil => exact fun s hk => hk.resolve_right (by simp)
    | cons pi pis ih =>
      intro s hk
      have hpm : (s.markTerminated host pi).view.pm = s.view.pm := by
        simp only [markTerminated, ProcessesView.getProcessInfoEx_eq]
        rfl
      refine ih _ ?_
      rw [marked_markTerminated_iff, ProcessesView.key_congr hpm]
      rw [List.map_cons, List.mem_cons] at hk
      tauto
  have hfirst := hadd s.view.pm.newProcesses s
  refine hmark _ _ ?_
  rw [ProcessesView.key_congr hfirst.2, hfirst.2]
  exact hk.imp_left hfirst.1

/-- **The invariant.** Every process of the manager has a row, and the rows that the
manager has given up are marked terminated. Old rows may share keys with new ones. -/
structure Covers (host : Host) (s : Session) : Prop where
  /-- The view made all calls of the manager. -/
  pm_eq : s.view.pm = Impl.run host.env host.rawProcesses host.rawThreads s.history.calls
  /-- It asked for all processes. -/
  unfiltered : ∀ c ∈ s.history.calls, c.Unfiltered
  /-- The rows are allocated. -/
  live : ∀ pi ∈ s.view.processes, s.view.pm.processHeap.Live pi
  /-- No row is there twice. -/
  nodup : s.view.processes.Nodup
  /-- Every process of the manager has a row. -/
  listed : ∀ pi ∈ s.view.pm.processes, pi ∈ s.view.processes
  /-- The records of the other rows are marked terminated. -/
  gone : ∀ pi ∈ s.view.processes, pi ∉ s.view.pm.processes → s.view.Marked (s.view.key pi)

namespace Covers

/-- There are no rows at first. -/
theorem initial (host : Host) (readings : ℕ → UInt64) :
    (Session.initial host readings).Covers host where
  pm_eq := rfl
  unfiltered := by simp [Session.initial]
  live := by simp [Session.initial]
  nodup := by simp [Session.initial]
  listed := by simp [Session.initial, Impl.initial]
  gone := by simp [Session.initial]

/-- Steps that keep the rows keep the invariant. -/
theorem quiet (h : s.Covers host) (hq : s.Quiet s') : s'.Covers host := by
  have hmem : ∀ pi, pi ∈ s'.view.processes ↔ pi ∈ s.view.processes :=
    fun pi => hq.view.perm.mem_iff
  refine ⟨?_, ?_, ?_, hq.view.perm.nodup_iff.mpr h.nodup, ?_, ?_⟩
  · rw [hq.view.pm_eq, h.pm_eq, hq.calls_eq]
  · rw [hq.calls_eq]
    exact h.unfiltered
  · rw [hq.view.pm_eq]
    exact fun pi hpi => h.live pi ((hmem pi).mp hpi)
  · rw [hq.view.pm_eq]
    exact fun pi hpi => (hmem pi).mpr (h.listed pi hpi)
  · rw [hq.view.pm_eq, hq.view.key_eq]
    exact fun pi hpi hgone => hq.view.marked (h.gone pi ((hmem pi).mp hpi) hgone)

section Update

variable (h : s.Covers host) (world : EnumWorld)
  (honce : ∀ c ∈ s.history.calls ++ [enumCall world], c.rawKeys.Nodup)
include h honce

/-- **First load.** The rows are taken over from the manager. -/
theorem load : ((s.enumProcesses host world).takeRows host true).Covers host := by
  have hlist := relisted_enumProcesses world h.pm_eq h.unfiltered honce
  exact ⟨hlist.pm_eq, hlist.unfiltered, hlist.all_live, hlist.all_nodup, fun _ hpi => hpi,
    fun pi hpi hgone => absurd hpi hgone⟩

/-- **Later updates.** A view with rows adds the new processes and marks the
terminated ones. -/
theorem update : ((s.enumProcesses host world).takeRows host false).Covers host := by
  have hlist := relisted_enumProcesses world h.pm_eq h.unfiltered honce
  have hrows := doUpdate_processes host (s.enumProcesses host world)
  have hpm := doUpdate_pm host (s.enumProcesses host world)
  have hkey := ProcessesView.key_congr hpm
  have hhistory := takeRows_history host (s.enumProcesses host world) false
  change ((s.enumProcesses host world).doUpdate host).Covers host
  refine ⟨?_, ?_, ?_, ?_, ?_, ?_⟩
  · rw [hpm, show ((s.enumProcesses host world).doUpdate host).history = _ from hhistory]
    exact hlist.pm_eq
  · rw [show ((s.enumProcesses host world).doUpdate host).history = _ from hhistory]
    exact hlist.unfiltered
  · rw [hpm, hrows]
    intro pi hpi
    rcases List.mem_append.mp hpi with hold | hnew
    · exact hlist.live (h.live pi hold)
    · exact hlist.all_live pi ((hlist.mem_new pi).mp hnew).1
  · rw [hrows, hlist.new_eq, List.nodup_append']
    refine ⟨h.nodup, hlist.all_nodup.filter _, fun pi hold hnew => ?_⟩
    exact (of_decide_eq_true (List.mem_filter.mp hnew).2) (h.live pi hold)
  · rw [hpm, hrows]
    intro pi hpi
    rw [List.mem_append, hlist.mem_new]
    by_cases hlive : s.view.pm.processHeap.Live pi
    · exact Or.inl (h.listed pi (hlist.mem_of_live hpi hlive))
    · exact Or.inr ⟨hpi, hlive⟩
  · rw [hpm, hkey, hrows]
    intro pi hpi hgone
    have hold : pi ∈ s.view.processes := by
      rcases List.mem_append.mp hpi with hold | hnew
      · exact hold
      · exact absurd ((hlist.mem_new pi).mp hnew).1 hgone
    refine marked_doUpdate host (s.enumProcesses host world) ?_
    by_cases hlisted : pi ∈ s.view.pm.processes
    · exact Or.inr (List.mem_map_of_mem ((hlist.mem_terminated pi).mpr ⟨hlisted, hgone⟩))
    · rw [hlist.key_eq (h.live pi hold)]
      exact Or.inl (h.gone pi hold hlisted)

/-- **An update** keeps the invariant, whether or not its query fails. -/
theorem refresh (r : Refresh) (hworld : r.world = world) : (s.refresh host r).Covers host := by
  have hrows :
      ((s.enumProcesses host world).takeRows host s.view.processes.isEmpty).Covers host := by
    cases s.view.processes.isEmpty with
    | true => exact h.load world honce
    | false => exact h.update world honce
  subst hworld
  exact hrows.quiet (.refresh host s r)

end Update

/-- **Before the purge loop** the invariant holds, whether or not there has been an update. -/
theorem updateTable (h : s.Covers host) (f : Frame)
    (honce : ∀ c ∈ (s.updateTable host f).history.calls, c.rawKeys.Nodup) :
    (s.updateTable host f).Covers host := by
  rcases updateTable_cases host s f with hquiet | ⟨s₁, hquiet, heq⟩
  · exact h.quiet hquiet
  · rw [heq, refresh_calls] at honce
    rw [heq]
    exact (h.quiet hquiet).refresh f.refresh.world honce f.refresh rfl

section Purge

variable {l l' : Purge} {pi : Ref ProcessInfo} (h : l.session.Covers host)
include h

/-- **Taking a row out** keeps the invariant if the manager does not list its process
and it is the only such row with its key. -/
theorem erases (hpi : l.row = some pi) (he : l.Erases host l' pi)
    (hgone : pi ∉ l.session.view.pm.processes)
    (halone : ∀ row ∈ l.session.view.processes,
      l.session.view.key row = l.session.view.key pi → row ≠ pi →
        row ∈ l.session.view.pm.processes) : l'.session.Covers host := by
  have hsub : l'.session.view.processes.Sublist l.session.view.processes :=
    he.processes_eq ▸ List.eraseIdx_sublist _ _
  refine ⟨?_, ?_, ?_, h.nodup.sublist hsub, ?_, ?_⟩
  · rw [he.pm_eq, h.pm_eq, he.calls_eq]
  · rw [he.calls_eq]
    exact h.unfiltered
  · rw [he.pm_eq]
    exact fun row hrow => h.live row (hsub.mem hrow)
  · rw [he.pm_eq]
    intro row hlisted
    refine he.mem_of_ne hpi (h.listed row hlisted) ?_
    rintro rfl
    exact hgone hlisted
  · rw [he.pm_eq, he.key_eq]
    intro row hrow hunlisted
    obtain ⟨hbefore, hne⟩ := (he.mem_rows hpi h.nodup).mp hrow
    obtain ⟨px, hpx, hmark⟩ := h.gone row hbefore hunlisted
    refine ⟨px, ?_, hmark⟩
    rw [he.lookup_eq, if_neg fun hkey => hunlisted (halone row hbefore hkey hne), hpx]

/-- **Keeping a row** keeps the invariant. -/
theorem keeps (hk : l.Keeps host l' pi) : l'.session.Covers host := by
  refine ⟨?_, ?_, ?_, hk.processes_eq ▸ h.nodup, ?_, ?_⟩
  · rw [hk.pm_eq, h.pm_eq, hk.calls_eq]
  · rw [hk.calls_eq]
    exact h.unfiltered
  · rw [hk.pm_eq, hk.processes_eq]
    exact h.live
  · rw [hk.pm_eq, hk.processes_eq]
    exact h.listed
  · rw [hk.pm_eq, hk.key_eq, hk.processes_eq]
    intro row hrow hunlisted
    have hmarked := h.gone row hrow hunlisted
    obtain ⟨px, _, hsame, hlookup⟩ := hk.lookup_eq
    rw [ProcessesView.Marked, hlookup]
    by_cases hkey : l.session.view.key row = l.session.view.key pi
    · rw [hkey] at hmarked
      rw [if_pos hkey]
      exact ⟨px, rfl, hsame.trans (hmarked.infoEx host)⟩
    · rw [if_neg hkey]
      exact hmarked

end Purge

end Covers

/-- Each time the highlight of a terminated row is over, the manager does not list its
process, and it lists those of all other rows with the same key. -/
def PurgesGivenUp (host : Host) (s : Session) : Prop :=
  s.EachRound host fun s' pi => s'.HighlightOver host pi →
    pi ∉ s'.view.pm.processes ∧ ∀ row ∈ s'.view.processes,
      s'.view.key row = s'.view.key pi → row ≠ pi → row ∈ s'.view.pm.processes

/-- Every highlight of a terminated row is over when its round looks at it. -/
def AllHighlightsOver (host : Host) (s : Session) : Prop :=
  s.EachRound host fun s' pi =>
    (s'.view.infoEx host pi).isTerminated = true → s'.HighlightOver host pi

/-- Both can be checked. -/
instance (host : Host) (s : Session) : Decidable (s.PurgesGivenUp host) :=
  inferInstanceAs (Decidable (s.EachRound host _))

/-- The rounds are finitely many. -/
instance (host : Host) (s : Session) : Decidable (s.AllHighlightsOver host) :=
  inferInstanceAs (Decidable (s.EachRound host _))

/-- **The purge loop** keeps the invariant if it takes out given up rows only. -/
theorem Covers.purge (h : s.Covers host) (hpurge : s.PurgesGivenUp host) :
    (s.purge host).session.Covers host := by
  refine (purge_rounds host s (P := fun l => l.session.Covers host) h ?_ ?_).1
  · intro n hn pi l' hpi hcovers hover he
    obtain ⟨hgone, halone⟩ := hpurge n hn pi hpi hover
    exact hcovers.erases hpi he hgone halone
  · exact fun n _ pi l' _ hcovers _ hk => hcovers.keeps hk

/-- After a purge loop that finds all highlights over no row is marked terminated. -/
theorem unmarked_purge (hover : s.AllHighlightsOver host) :
    ∀ pi ∈ (s.purge host).session.view.processes,
      (s.purge host).session.view.Unmarked ((s.purge host).session.view.key pi) := by
  have hrounds := purge_rounds host s (P := fun l => ∀ j < l.i, ∀ pi,
    l.session.view.processes[j]? = some pi → l.session.view.Unmarked (l.session.view.key pi))
    (fun j hj => absurd hj (Nat.not_lt_zero j)) ?_ ?_
  · obtain ⟨hvisited, hcount⟩ := hrounds
    intro pi hpi
    obtain ⟨j, hj⟩ := List.getElem?_of_mem hpi
    obtain ⟨hlt, _⟩ := List.getElem?_eq_some_iff.mp hj
    exact hvisited j (lt_of_lt_of_eq hlt hcount) pi hj
  · intro n _ pi l' _ hvisited hexpired he j hj pi' hpi'
    rw [he.i_eq] at hj
    rw [he.processes_eq, List.getElem?_eraseIdx_of_lt hj] at hpi'
    have hrow := hvisited j hj pi' hpi'
    rw [he.key_eq, ProcessesView.Unmarked, he.lookup_eq]
    by_cases hkey : (s.purgeAt host n).session.view.key pi' = (s.purgeAt host n).session.view.key pi
    · rw [hkey] at hrow
      exact absurd (hexpired.1.symm.trans (hrow.infoEx host)) (by decide)
    · rw [if_neg hkey]
      exact hrow
  · intro n hn pi l' hpi hvisited hkept hk j hj pi' hpi'
    rw [hk.i_eq] at hj
    rw [hk.processes_eq] at hpi'
    obtain ⟨px, _, hsame, hlookup⟩ := hk.lookup_eq
    rw [hk.key_eq, ProcessesView.Unmarked, hlookup]
    by_cases hkey : (s.purgeAt host n).session.view.key pi' = (s.purgeAt host n).session.view.key pi
    · rw [if_pos hkey]
      refine ⟨px, rfl, hsame.trans ?_⟩
      rw [← Bool.not_eq_true]
      exact fun hmark => hkept (hover n hn pi hpi hmark)
    · rw [if_neg hkey]
      have hne : j ≠ (s.purgeAt host n).i := by
        rintro rfl
        exact hkey (congrArg _ (Option.some.inj (hpi'.symm.trans hpi)))
      exact hvisited j (by omega) pi' hpi'

/-- The rows are the processes of the last enumeration: each has exactly one row,
which is the object that the manager finds by its key and is not marked terminated,
and there are no other rows. -/
structure RowsLive (host : Host) (s : Session) : Prop where
  /-- One row for each process. -/
  one_row : ∀ k ∈ lastRawKeys s.history.calls, ∃ pi, s.view.pm.getProcessByKey k = some pi ∧
    s.view.processes.filter (fun row => s.view.key row = k) = [pi] ∧
    (s.view.infoEx host pi).isTerminated = false
  /-- No other rows. -/
  no_other : ∀ row ∈ s.view.processes, s.view.key row ∈ lastRawKeys s.history.calls

/-- Without marks the rows are those of the manager. -/
theorem Covers.rowsLive (h : s.Covers host) (honce : ∀ c ∈ s.history.calls, c.rawKeys.Nodup)
    (hunmarked : ∀ pi ∈ s.view.processes, s.view.Unmarked (s.view.key pi)) : s.RowsLive host := by
  have hm := Impl.run_tracks host.env host.rawProcesses host.rawThreads s.history.calls
  rw [← h.pm_eq, heldKeys_eq_lastRawKeys h.unfiltered] at hm
  have hks := lastRawKeys_nodup honce
  have hmem : ∀ row, row ∈ s.view.processes ↔ row ∈ s.view.pm.processes := by
    refine fun row => ⟨fun hrow => ?_, h.listed row⟩
    by_contra hunlisted
    exact (hunmarked row hrow).not_marked (h.gone row hrow hunlisted)
  refine ⟨fun k hk => ?_, fun row hrow => hm.processes.keyAt_mem ((hmem row).mp hrow)⟩
  obtain ⟨pi, hpi⟩ := Option.isSome_iff_exists.mp (hm.processes.byKey_complete k hk)
  obtain ⟨hlisted, hkey⟩ := (hm.processes.lookup_iff hks).mp hpi
  refine ⟨pi, hpi, ?_, (hunmarked pi ((hmem pi).mpr hlisted)).infoEx host⟩
  rw [← List.perm_singleton,
    List.perm_ext_iff_of_nodup (h.nodup.filter _) (List.nodup_singleton pi)]
  intro row
  rw [List.mem_filter, decide_eq_true_eq, List.mem_singleton, hmem]
  constructor
  · exact fun hrow => hm.processes.key_inj hks hrow.1 hlisted (hrow.2.trans hkey.symm)
  · rintro rfl
    exact ⟨hlisted, hkey⟩

section Run

variable (host : Host) (readings : ℕ → UInt64)

/-- The calls of a frame come after those before it. -/
private theorem run_calls_prefix (frames : List Frame) (f : Frame) :
    ∃ more, (run host readings (frames ++ [f])).history.calls =
      (run host readings frames).history.calls ++ more := by
  cases hopen : f.tableOpen with
  | true =>
    rw [run_concat_calls host readings frames hopen]
    exact beforePurge_calls host _ f
  | false =>
    rw [run_concat, (quiet_buildWindow_closed host _ hopen).calls_eq]
    exact ⟨[], (List.append_nil _).symm⟩

/-- **Every reachable view** covers its manager if all purge loops took out given up
rows only. -/
theorem run_covers (frames : List Frame)
    (honce : ∀ c ∈ (run host readings frames).history.calls, c.rawKeys.Nodup)
    (hpurge : AtEach (fun before f => f.tableOpen = true →
      ((run host readings before).beforePurge host f).PurgesGivenUp host) frames) :
    (run host readings frames).Covers host := by
  induction frames using List.reverseRecOn with
  | nil => exact .initial host readings
  | append_singleton frames f ih =>
    obtain ⟨hfirst, hlast⟩ := AtEach.concat_iff.mp hpurge
    obtain ⟨more, hmore⟩ := run_calls_prefix host readings frames f
    have hcovers := ih (fun c hc => honce c (hmore ▸ List.mem_append_left _ hc)) hfirst
    cases hopen : f.tableOpen with
    | true =>
      rw [run_concat_calls host readings frames hopen] at honce
      have hbefore := (hcovers.quiet (Quiet.buildToolBar _ f.toolBar)).updateTable f honce
      rw [run_concat]
      exact (hbefore.purge (hlast hopen)).quiet (quiet_buildWindow host _ hopen)
    | false =>
      rw [run_concat]
      exact hcovers.quiet (quiet_buildWindow_closed host _ hopen)

/-- **Live rows.** In every run of frames whose enumerations may fail, if each row taken
out is the only row with its key that the manager has given up, then after a purge loop
that finds all highlights over the rows are the processes of the last enumeration. -/
theorem run_rowsLive (frames : List Frame) (f : Frame) (hopen : f.tableOpen = true)
    (honce : ∀ c ∈ (run host readings (frames ++ [f])).history.calls, c.rawKeys.Nodup)
    (hpurge : AtEach (fun before f => f.tableOpen = true →
      ((run host readings before).beforePurge host f).PurgesGivenUp host) (frames ++ [f]))
    (hover : ((run host readings frames).beforePurge host f).AllHighlightsOver host) :
    (run host readings (frames ++ [f])).RowsLive host := by
  have hquiet := quiet_buildWindow host (run host readings frames) hopen
  rw [← run_concat] at hquiet
  refine (run_covers host readings _ honce hpurge).rowsLive honce fun pi hpi => ?_
  rw [hquiet.view.key_eq]
  exact hquiet.view.unmarked (unmarked_purge hover pi (hquiet.view.perm.mem_iff.mp hpi))

end Run

/-- One enumeration fails and the old row is purged. -/
theorem run_rowsLive_one_failure :
    let idle := Frame.idle (Call.answered .enumProcesses 100 (.bare 1 8) []).toEnumWorld
    let first := { idle with toolBar := { idle.toolBar with interval := some .msec500 } }
    let failed := Frame.idle (Call.failed .enumProcesses 150).toEnumWorld
    (run .plain (fun n => 500 * (UInt64.ofNat n + 2)) ([first, failed, idle] ++ [idle])).RowsLive
      .plain := by
  intro idle first failed
  refine run_rowsLive .plain _ [first, failed, idle] idle rfl (by decide +kernel) ?_
    (by decide +kernel)
  rw [show [first, failed, idle] = [] ++ [first] ++ [failed] ++ [idle] from rfl,
    AtEach.concat_iff, AtEach.concat_iff, AtEach.concat_iff, AtEach.concat_iff]
  exact ⟨⟨⟨⟨.nil, by decide +kernel⟩, by decide +kernel⟩, by decide +kernel⟩, by decide +kernel⟩

/-- Two enumerations fail while the first row is highlighted. -/
theorem given_up_row_stays :
    let idle := Frame.idle (Call.answered .enumProcesses 100 (.bare 1 8) []).toEnumWorld
    let first := { idle with toolBar := { idle.toolBar with interval := some .msec500 } }
    let failed := Frame.idle (Call.failed .enumProcesses 150).toEnumWorld
    let readings := fun n => 500 * (UInt64.ofNat n + 2)
    ((run .plain readings [first, failed, idle, failed, idle]).beforePurge .plain
      idle).AllHighlightsOver .plain ∧
    ¬ (run .plain readings [first, failed, idle, failed, idle, idle]).RowsLive .plain := by
  intro idle first failed readings
  refine ⟨by decide +kernel, fun h => ?_⟩
  have hcalls : (⟨1, 8⟩ : ProcessOrThreadKey) ∈ lastRawKeys
      (run .plain readings [first, failed, idle, failed, idle, idle]).history.calls := by
    decide +kernel
  have htwo : ((run .plain readings [first, failed, idle, failed, idle,
      idle]).view.processes.filter fun row =>
        (run .plain readings [first, failed, idle, failed, idle, idle]).view.key row =
          ⟨1, 8⟩).length = 2 := by decide +kernel
  obtain ⟨pi, _, hone, _⟩ := h.one_row _ hcalls
  rw [hone, List.length_singleton] at htwo
  exact absurd htwo (by decide)

end Session

end ProcExpX
