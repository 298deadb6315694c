import ProcExpX.App.DrawnRows
import ProcExpX.App.PurgedRows
import ProcExpX.App.ShownRows

/-!
# Records and the objects they point to

A record keeps a plain pointer to its process, which is only good while a shared one is kept
elsewhere. The rows are shared pointers, so it is enough that every record points to the
object of a row.
-/

namespace ProcExpX

open Library WinSys

namespace ProcessesView

/-- Asking for the record of a process does not make one for an object without a row. -/
def Knows (v : ProcessesView) (pi : Ref ProcessInfo) : Prop :=
  pi ∈ v.processes ∨ (v.processesEx.lookup (v.key pi)).isSome = true

/-- Each record points to a row under whose key it stands, and will do so after the records
of the known processes have been asked for. -/
structure Points (v : ProcessesView) (known : Ref ProcessInfo → Prop) : Prop where
  /-- The records. -/
  beside : Beside v.key ProcessInfoEx.pi v.processes v.processesEx
  /-- The known processes. -/
  knows : ∀ pi, known pi → v.Knows pi

namespace Points

variable {v v' : ProcessesView} {known known' : Ref ProcessInfo → Prop} {pi : Ref ProcessInfo}
  (h : v.Points known)
include h

/-- Fewer processes are known. -/
theorem mono (hknown : ∀ pi, known' pi → known pi) : v.Points known' :=
  ⟨h.beside, fun pi hpi => h.knows pi (hknown pi hpi)⟩

/-- The record of a known process points to a row with its key. -/
theorem infoEx_row (host : Host) (hpi : v.Knows pi) :
    (v.infoEx host pi).pi ∈ v.processes ∧ v.key (v.infoEx host pi).pi = v.key pi := by
  unfold ProcessesView.infoEx
  cases hlookup : v.processesEx.lookup (v.key pi) with
  | some px => exact h.beside _ px hlookup
  | none =>
    rw [Knows, hlookup] at hpi
    exact ⟨hpi.resolve_right (by decide), rfl⟩

/-- Write the record of a process, perhaps while rows are added. -/
theorem put (hpm : v'.pm = v.pm) (hrows : ∀ row ∈ v.processes, row ∈ v'.processes)
    {px : ProcessInfoEx} (howner : px.pi ∈ v'.processes) (hkey : v.key px.pi = v.key pi)
    (hlookup : ∀ k, v'.processesEx.lookup k =
      if k = v.key pi then some px else v.processesEx.lookup k) : v'.Points known := by
  have hsame := key_congr hpm
  refine ⟨?_, fun q hq => (h.knows q hq).imp (hrows q) fun hrecord => ?_⟩
  · rw [hsame]
    exact h.beside.put hrows howner hkey hlookup
  · rw [hsame, hlookup]
    split
    · rfl
    · exact hrecord

/-- A rearrangement makes records for rows only. -/
theorem rearranged (hv : v.Rearranged v') : v'.Points known := by
  refine ⟨fun k px hlookup => ?_, fun q hq => ?_⟩
  · rw [hv.key_eq, hv.perm.mem_iff]
    rcases hv.records k with hsame | ⟨_, px', hpx', hrow, hkey, _⟩
    · exact h.beside k px (hsame ▸ hlookup)
    · obtain rfl : px = px' := Option.some.inj (hlookup.symm.trans hpx')
      exact ⟨hrow, hkey⟩
  · rw [Knows, hv.key_eq, hv.perm.mem_iff]
    refine (h.knows q hq).imp_right fun hrecord => ?_
    rcases hv.records (v.key q) with hsame | ⟨hnone, _⟩
    · rwa [hsame]
    · rw [hnone] at hrecord
      cases hrecord

end Points

end ProcessesView

namespace Session

variable {host : Host} {s s' : Session} {known : Ref ProcessInfo → Prop}

/-- The first loop body of `DoUpdate` adds a row and lets its record point to a row. -/
theorem points_addNew (host : Host) (h : s.view.Points known) (pi : Ref ProcessInfo) :
    (s.addNew host pi).view.Points fun q => known q ∨ q = pi := by
  obtain ⟨hpm, hrows⟩ := addNew_rows host s pi
  let v := { s.view with processes := s.view.processes ++ [pi] }
  have hsame : v.key = s.view.key := ProcessesView.key_congr rfl
  have hadded : v.Points fun q => known q ∨ q = pi := by
    refine ⟨fun k px hlookup => ?_, fun q hq => ?_⟩
    · obtain ⟨hrow, hown⟩ := h.beside k px hlookup
      rw [hsame]
      exact ⟨List.mem_append_left [pi] hrow, hown⟩
    · unfold ProcessesView.Knows
      rw [hsame]
      rcases hq with hq | rfl
      · exact (h.knows q hq).imp_left fun hrow => List.mem_append_left [pi] hrow
      · exact Or.inl (List.mem_append_right s.view.processes (List.mem_singleton_self q))
  have hlookup := v.lookup_set_getProcessInfoEx host pi
    ((v.getProcessInfoEx host pi).1.new 2000 s.clock).1
  obtain ⟨hrow, hkey⟩ := hadded.infoEx_row host (hadded.knows pi (Or.inr rfl))
  refine hadded.put hpm (fun row hmem => hrows ▸ hmem) ?_ ?_ hlookup
  · rw [hrows, ProcessInfoEx.new_pi, ProcessesView.getProcessInfoEx_eq]
    exact hrow
  · rw [ProcessInfoEx.new_pi, ProcessesView.getProcessInfoEx_eq]
    exact hkey

/-- The second loop body of `DoUpdate` marks the record of a known process. -/
theorem points_markTerminated (host : Host) (h : s.view.Points known) {pi : Ref ProcessInfo}
    (hpi : known pi) : (s.markTerminated host pi).view.Points known := by
  obtain ⟨hpm, hrows⟩ := markTerminated_rows host s pi
  have hlookup := s.view.lookup_set_getProcessInfoEx host pi
    ((s.view.getProcessInfoEx host pi).1.term 2000 s.clock).1
  obtain ⟨hrow, hkey⟩ := h.infoEx_row host (h.knows pi hpi)
  refine h.put hpm (fun row hmem => hrows ▸ hmem) ?_ ?_
    hlookup
  · rw [hrows, ProcessInfoEx.term_pi, ProcessesView.getProcessInfoEx_eq]
    exact hrow
  · rw [ProcessInfoEx.term_pi, ProcessesView.getProcessInfoEx_eq]
    exact hkey

/-- **Both loops** of `DoUpdate`, for known terminated processes. -/
theorem points_doUpdate (host : Host) (h : s.view.Points known)
    (hterminated : ∀ pi ∈ s.view.pm.terminatedProcesses, known pi) :
    (s.doUpdate host).view.Points fun q => known q ∨ q ∈ s.view.pm.newProcesses := by
  have hadd : ∀ (pis : List (Ref ProcessInfo)) (s : Session) (known : Ref ProcessInfo → Prop),
      s.view.Points known → (pis.foldl (addNew host) s).view.Points fun q => known q ∨ q ∈ pis := by
    intro pis
    induction pis with
    | nil => exact fun s known h => h.mono fun q hq => hq.resolve_right List.not_mem_nil
    | cons pi pis ih =>
      intro s known h
      refine (ih _ _ (points_addNew host h pi)).mono fun q hq => ?_
      rwa [or_assoc, ← List.mem_cons]
  have hmark : ∀ (pis : List (Ref ProcessInfo)) (s : Session) (known : Ref ProcessInfo → Prop),
      s.view.Points known → (∀ pi ∈ pis, known pi) →
        (pis.foldl (markTerminated host) s).view.Points known := by
    intro pis
    induction pis with
    | nil => exact fun s known h _ => h
    | cons pi pis ih =>
      intro s known h hpis
      rw [List.forall_mem_cons] at hpis
      exact ih _ _ (points_markTerminated host h hpis.1) hpis.2
  have hadded := hadd s.view.pm.newProcesses s known h
  have hpm := foldl_keeps (fun s : Session => s.view.pm) (fun s pi => (addNew_rows host s pi).1)
    s.view.pm.newProcesses s
  unfold doUpdate
  refine hmark _ _ _ hadded fun pi hpi => Or.inl (hterminated pi ?_)
  rwa [← hpm]

/-- Taking over rows leaves the manager alone. -/
theorem takeRows_pm (host : Host) (s : Session) (empty : Bool) :
    (s.takeRows host empty).view.pm = s.view.pm := by
  cases empty with
  | true => rfl
  | false => exact doUpdate_pm host s

namespace Displays

/-- The manager lists allocated processes, under the keys of the last enumeration. -/
theorem listed (h : s.Displays host) {pi : Ref ProcessInfo} (hpi : pi ∈ s.view.pm.processes) :
    s.view.pm.processHeap.Live pi ∧ s.view.key pi ∈ lastRawKeys s.history.calls := by
  have hm := Impl.run_tracks host.env host.rawProcesses host.rawThreads s.history.calls
  rw [← h.pm_eq, heldKeys_eq_lastRawKeys h.unfiltered] at hm
  exact ⟨hm.processes.all_live pi hpi, hm.processes.keyAt_mem hpi⟩

/-- **An update** lets records point to rows if the processes of the manager are known. -/
theorem points_takeRows (h : s.Displays host) (world : EnumWorld)
    (honce : ∀ c ∈ s.history.calls ++ [enumCall world], c.rawKeys.Nodup)
    (hpoints : s.view.Points (· ∈ s.view.pm.processes)) :
    ((s.enumProcesses host world).takeRows host s.view.processes.isEmpty).view.Points
      (· ∈ (s.enumProcesses host world).view.pm.processes) := by
  have hlist := relisted_enumProcesses world h.pm_eq h.unfiltered honce
  have henum : (s.enumProcesses host world).view.Points (· ∈ s.view.pm.processes) := by
    refine ⟨hpoints.beside.congr_key fun pi hpi => hlist.key_eq (h.live pi hpi), fun pi hpi => ?_⟩
    unfold ProcessesView.Knows
    rw [hlist.key_eq (h.listed hpi).1]
    exact hpoints.knows pi hpi
  cases hempty : s.view.processes.isEmpty with
  | true =>
    refine ⟨fun k px hlookup => ?_, fun pi hpi => Or.inl hpi⟩
    obtain ⟨hrow, _⟩ := hpoints.beside k px hlookup
    rw [List.isEmpty_iff.mp hempty] at hrow
    cases hrow
  | false =>
    refine (points_doUpdate host henum fun pi hpi => ((hlist.mem_terminated pi).mp hpi).1).mono ?_
    intro pi hpi
    by_cases hlive : s.view.pm.processHeap.Live pi
    · exact Or.inl (hlist.mem_of_live hpi hlive)
    · exact Or.inr ((hlist.mem_new pi).mpr ⟨hpi, hlive⟩)

/-- **Before the purge loop** records point to rows. -/
theorem points_updateTable (h : s.Displays host) (f : Frame)
    (honce : ∀ c ∈ (s.updateTable host f).history.calls, c.rawKeys.Nodup)
    (hpoints : s.view.Points (· ∈ s.view.pm.processes)) :
    (s.updateTable host f).view.Points (· ∈ (s.updateTable host f).view.pm.processes) := by
  rcases updateTable_cases host s f with hquiet | ⟨s₁, hquiet, heq⟩
  · rw [hquiet.view.pm_eq]
    exact hpoints.rearranged hquiet.view
  · rw [heq, refresh_calls] at honce
    have hbefore := hpoints.rearranged hquiet.view
    rw [← hquiet.view.pm_eq] at hbefore
    have htaken := (h.quiet hquiet).points_takeRows f.refresh.world honce hbefore
    have hsorted := Quiet.refresh host s₁ f.refresh
    rw [heq, hsorted.view.pm_eq, takeRows_pm]
    exact htaken.rearranged hsorted.view

end Displays

/-- **The purge loop** writes records that point to rows, and takes out rows with their records. -/
theorem beside_purge (host : Host)
    (h : Beside s.view.key ProcessInfoEx.pi s.view.processes s.view.processesEx) :
    Beside (s.purge host).session.view.key ProcessInfoEx.pi (s.purge host).session.view.processes
      (s.purge host).session.view.processesEx := by
  refine (purge_rounds host s (P := fun l => Beside l.session.view.key ProcessInfoEx.pi
    l.session.view.processes l.session.view.processesEx) h ?_ ?_).1
  · intro n _ pi l' hpi hbeside _ he
    rw [he.key_eq]
    exact hbeside.remove (fun row hrow hne => he.mem_of_ne hpi hrow hne) he.lookup_eq
  · intro n _ pi l' hpi hbeside _ hk
    obtain ⟨px, hown, _, hlookup⟩ := hk.lookup_eq
    have hpoints : (s.purgeAt host n).session.view.Points fun _ => False :=
      ⟨hbeside, fun _ hfalse => hfalse.elim⟩
    obtain ⟨howner, hkey⟩ := hpoints.infoEx_row host (Or.inl (List.mem_of_getElem? hpi))
    rw [← hown] at howner hkey
    rw [hk.key_eq, hk.processes_eq]
    exact hbeside.put (fun _ hmem => hmem) howner hkey hlookup

/-- What each round keeps holds at the end of the purge loop. -/
theorem purge_induct (host : Host) (s : Session) {P : Purge → Prop} (hstart : P ⟨s, 0, []⟩)
    (hround : ∀ n < s.view.processes.length, ∀ pi, (s.purgeAt host n).row = some pi →
      P (s.purgeAt host n) → P (purgeRow host (s.view.filter host) (s.purgeAt host n))) :
    P (s.purge host) := by
  have hrounds : ∀ n ≤ s.view.processes.length, P (s.purgeAt host n) := by
    intro n
    induction n with
    | zero => exact fun _ => hstart
    | succ n ih =>
      intro hn
      obtain ⟨answers, hlength, htraces⟩ := purgeAt_traces host s (Nat.le_of_succ_le hn)
      have hrow : (s.purgeAt host n).row = some s.view.processes[n] := by
        rw [htraces.row_eq, hlength]
        exact List.getElem?_eq_getElem hn
      rw [purgeAt_succ]
      exact hround n hn _ hrow (ih (Nat.le_of_succ_le hn))
  exact hrounds _ le_rfl

/-- A round that keeps its row leaves the expiry time of the record alone. -/
theorem Purge.purgeRow_expiryTime (host : Host) (filter : WString) (l : Purge)
    {pi : Ref ProcessInfo} (hpi : l.row = some pi)
    (hanswer : (l.session.updateRow host pi).2 = false) :
    ∃ px, (purgeRow host filter l).session.view.processesEx.lookup (l.session.view.key pi) =
      some px ∧ px.expiryTime = (l.session.view.infoEx host pi).expiryTime := by
  obtain ⟨hpm, _, _⟩ := updateRow_view host l.session pi
  have hkey := ProcessesView.key_congr hpm
  have hlookup := lookup_updateRow host l.session pi (l.session.view.key pi)
  rw [if_pos rfl] at hlookup
  have hexpiry := (shownRecord host l.session pi).update_expiryTime l.session.clock
  rw [purgeRow_eq host filter l hpi, hanswer, if_neg Bool.false_ne_true]
  split
  · refine ⟨{ (l.session.updateRow host pi).1.view.infoEx host pi with filtered := true }, ?_, ?_⟩
    · refine ((l.session.updateRow host pi).1.view.lookup_setProcessInfoEx pi _ _).trans ?_
      rw [hkey, if_pos rfl]
    · rw [ProcessesView.infoEx, hkey, hlookup, Option.getD_some]
      exact hexpiry
  · exact ⟨_, hlookup, hexpiry⟩

/-- `Update` would answer yes for a record at a tick. -/
def OverAt (tick : UInt32) (px : ProcessInfoEx) : Prop :=
  px.isTerminated = true ∧ tick.toUInt64 > px.expiryTime

/-- The clock shows the same tick at the start of each round of the purge loop. -/
def PurgesInOneTick (host : Host) (s : Session) : Prop :=
  s.EachRound host fun s' _ => s'.clock.getTickCount.1 = s.clock.getTickCount.1

/-- The invariant of the loop: the rows visited so far have records. If rows share keys, these
are records for which `Update` would still answer no. -/
structure Purge.Recorded (host : Host) (distinct : Prop) (tick : UInt32) (l : Purge) : Prop where
  /-- Nothing is hidden. -/
  displays : l.session.Displays host
  /-- The rows do not start to share keys. -/
  nodup : distinct → (l.session.view.processes.map l.session.view.key).Nodup
  /-- The rows visited so far. -/
  visited : ∀ j < l.i, ∀ row, l.session.view.processes[j]? = some row → ∃ px,
    l.session.view.processesEx.lookup (l.session.view.key row) = some px ∧
      (distinct ∨ ¬ OverAt tick px)

namespace Purge.Recorded

variable {distinct : Prop} {tick : UInt32} {l l' : Purge} {pi : Ref ProcessInfo}
  (h : l.Recorded host distinct tick)
include h

/-- No row visited so far has the key of a row that is taken out. -/
theorem apart (hpi : l.row = some pi) (htick : distinct ∨ l.session.clock.getTickCount.1 = tick)
    (hover : l.session.HighlightOver host pi) {j : ℕ} (hj : j < l.i) {row : Ref ProcessInfo}
    (hrow : l.session.view.processes[j]? = some row) :
    l.session.view.key row ≠ l.session.view.key pi := by
  intro hkey
  obtain ⟨px, hlookup, hspared⟩ := h.visited j hj row hrow
  by_cases hdistinct : distinct
  · obtain ⟨hlt, hget⟩ := List.getElem?_eq_some_iff.mp hrow
    obtain ⟨hlt', hget'⟩ := List.getElem?_eq_some_iff.mp hpi
    have hsame := List.inj_on_of_nodup_map (h.nodup hdistinct) (List.getElem_mem hlt)
      (List.getElem_mem hlt') (by rw [hget, hget', hkey])
    have heq := (List.Nodup.getElem_inj_iff (h.nodup hdistinct).of_map).mp hsame
    omega
  · apply hspared.resolve_left hdistinct
    rw [hkey] at hlookup
    have hinfo : l.session.view.infoEx host pi = px := by
      rw [ProcessesView.infoEx, hlookup, Option.getD_some]
    obtain ⟨hmark, hexpired⟩ := hover
    rw [hinfo] at hmark hexpired
    rw [ProcessInfoEx.Expired, htick.resolve_left hdistinct] at hexpired
    exact ⟨hmark, hexpired⟩

/-- **Taking a row out** takes no record away from a visited row. -/
theorem erases (hpi : l.row = some pi) (htick : distinct ∨ l.session.clock.getTickCount.1 = tick)
    (hover : l.session.HighlightOver host pi) (he : l.Erases host l' pi) :
    l'.Recorded host distinct tick where
  displays := h.displays.erases hpi he
  nodup hdistinct := by
    rw [he.key_eq, he.processes_eq]
    exact (h.nodup hdistinct).sublist ((List.eraseIdx_sublist _ _).map _)
  visited j hj row hrow := by
    rw [he.i_eq] at hj
    rw [he.processes_eq, List.getElem?_eraseIdx_of_lt hj] at hrow
    rw [he.key_eq, he.lookup_eq, if_neg (h.apart hpi htick hover hj hrow)]
    exact h.visited j hj row hrow

/-- **Keeping a row** gives it a record that is kept as well. -/
theorem keeps (filter : WString) (hpi : l.row = some pi)
    (htick : distinct ∨ l.session.clock.getTickCount.1 = tick)
    (hover : ¬ l.session.HighlightOver host pi)
    (hk : l.Keeps host (purgeRow host filter l) pi) :
    (purgeRow host filter l).Recorded host distinct tick := by
  obtain ⟨px, _, hmark, hlookup⟩ := hk.lookup_eq
  have hanswer : (l.session.updateRow host pi).2 = false := by
    rw [← Bool.not_eq_true, updateRow_snd_iff]
    exact hover
  have hspared : distinct ∨ ¬ OverAt tick px := by
    refine htick.imp_right fun htick hafter => hover ?_
    obtain ⟨px', hpx', hexpiry⟩ := l.purgeRow_expiryTime host filter hpi hanswer
    rw [hlookup, if_pos rfl, Option.some.injEq] at hpx'
    subst hpx'
    rw [OverAt, hmark, hexpiry, ← htick] at hafter
    exact hafter
  refine ⟨h.displays.keeps hpi hk, fun hdistinct => ?_, fun j hj row hat => ?_⟩
  · rw [hk.key_eq, hk.processes_eq]
    exact h.nodup hdistinct
  · rw [hk.i_eq] at hj
    rw [hk.processes_eq] at hat
    rw [hk.key_eq, hlookup]
    by_cases heq : l.session.view.key row = l.session.view.key pi
    · exact ⟨px, if_pos heq, hspared⟩
    · rw [if_neg heq]
      have hne : j ≠ l.i := by
        rintro rfl
        exact heq (congrArg _ (Option.some.inj (hat.symm.trans hpi)))
      exact h.visited j (by omega) row hat

end Purge.Recorded

/-- The processes of the manager are known when every row has a record. -/
theorem Displays.knows_of_recorded (h : s.Displays host)
    (hrecords : ∀ row ∈ s.view.processes,
      (s.view.processesEx.lookup (s.view.key row)).isSome = true)
    {pi : Ref ProcessInfo} (hpi : pi ∈ s.view.pm.processes) : s.view.Knows pi := by
  have hrow := h.lists.used_row _ (h.listed hpi).2
  obtain ⟨row, hmem, hkey⟩ := List.mem_map.mp (List.count_pos_iff.mp hrow)
  right
  rw [← hkey]
  exact hrecords row hmem

/-- **The purge loop** lets records point to rows, if the rows have distinct keys or the tick
does not change meanwhile. -/
theorem Displays.points_purge (h : s.Displays host)
    (hpoints : s.view.Points (· ∈ s.view.pm.processes))
    (htick : (s.view.processes.map s.view.key).Nodup ∨ s.PurgesInOneTick host) :
    (s.purge host).session.view.Points (· ∈ (s.purge host).session.view.pm.processes) := by
  have hloop : (s.purge host).Recorded host (s.view.processes.map s.view.key).Nodup
      s.clock.getTickCount.1 := by
    refine purge_induct host s ⟨h, id, fun j hj => absurd hj (Nat.not_lt_zero j)⟩ ?_
    intro n hn pi hpi hrecorded
    have hnow := htick.imp_right fun hone => hone n hn pi hpi
    rcases Purge.purgeRow_expiry host (s.view.filter host) _ hpi with ⟨hover, he⟩ | ⟨hover, hk⟩
    · exact hrecorded.erases hpi hnow hover he
    · exact hrecorded.keeps _ hpi hnow hover hk
  obtain ⟨_, hlength⟩ := purge_rounds host s (P := fun _ => True) trivial
    (fun _ _ _ _ _ _ _ _ => trivial) fun _ _ _ _ _ _ _ _ => trivial
  refine ⟨beside_purge host hpoints.beside, fun pi hpi =>
    hloop.displays.knows_of_recorded (fun row hrow => ?_) hpi⟩
  obtain ⟨j, hj⟩ := List.getElem?_of_mem hrow
  obtain ⟨hlt, _⟩ := List.getElem?_eq_some_iff.mp hj
  obtain ⟨px, hpx, _⟩ := hloop.visited j (hlength ▸ hlt) row hj
  rw [hpx]
  rfl

/-- In the purge loop of a frame the rows have distinct keys, or the tick does not change. -/
def PurgesApart (host : Host) (s : Session) (f : Frame) : Prop :=
  ((s.beforePurge host f).view.processes.map (s.beforePurge host f).view.key).Nodup ∨
    (s.beforePurge host f).PurgesInOneTick host

/-- Whether it is so can be checked. -/
instance (host : Host) (s : Session) (f : Frame) : Decidable (s.PurgesApart host f) :=
  inferInstanceAs (Decidable (_ ∨ EachRound host (s.beforePurge host f) _))

/-- **One frame.** -/
theorem Displays.points_buildWindow (h : s.Displays host) (f : Frame)
    (honce : ∀ c ∈ (s.buildWindow host f).history.calls, c.rawKeys.Nodup)
    (hapart : f.tableOpen = true → s.PurgesApart host f)
    (hpoints : s.view.Points (· ∈ s.view.pm.processes)) :
    (s.buildWindow host f).view.Points (· ∈ (s.buildWindow host f).view.pm.processes) := by
  cases hopen : f.tableOpen with
  | true =>
    have hquiet := quiet_buildWindow host s hopen
    have hbar := Quiet.buildToolBar s f.toolBar
    rw [hquiet.calls_eq, afterPurge, purge_calls] at honce
    have hbefore := hpoints.rearranged hbar.view
    rw [← hbar.view.pm_eq] at hbefore
    have htable := (h.quiet hbar).points_updateTable f honce hbefore
    have hpurged := ((h.quiet hbar).updateTable f honce).points_purge htable (hapart hopen)
    rw [hquiet.view.pm_eq]
    exact hpurged.rearranged hquiet.view
  | false =>
    have hquiet := quiet_buildWindow_closed host s hopen
    rw [hquiet.view.pm_eq]
    exact hpoints.rearranged hquiet.view

/-- Wherever a frame follows the pointer of a record, it leads to the object of a row that has
the key of the record. -/
structure FollowsPointers (host : Host) (s : Session) (f : Frame) : Prop where
  /-- In the sort after an update. -/
  updated : Beside (s.beforePurge host f).view.key ProcessInfoEx.pi
    (s.beforePurge host f).view.processes (s.beforePurge host f).view.processesEx
  /-- In the sort after the purge loop. -/
  purged : Beside (s.afterPurge host f).view.key ProcessInfoEx.pi
    (s.afterPurge host f).view.processes (s.afterPurge host f).view.processesEx
  /-- While the rows are drawn. -/
  drawn : ∀ visited, Beside (s.afterRows host f visited).view.key ProcessInfoEx.pi
    (s.afterRows host f visited).view.processes (s.afterRows host f visited).view.processesEx

/-- The last frame of a run only has to come after frames that keep records and rows together. -/
theorem Displays.followsPointers (h : s.Displays host) {f : Frame} (hopen : f.tableOpen = true)
    (honce : ∀ c ∈ (s.buildWindow host f).history.calls, c.rawKeys.Nodup)
    (hpoints : s.view.Points (· ∈ s.view.pm.processes)) : s.FollowsPointers host f := by
  have hbar := Quiet.buildToolBar s f.toolBar
  rw [(quiet_buildWindow host s hopen).calls_eq, afterPurge, purge_calls] at honce
  have hbefore := hpoints.rearranged hbar.view
  rw [← hbar.view.pm_eq] at hbefore
  have htable := (h.quiet hbar).points_updateTable f honce hbefore
  have hpurged := beside_purge host htable.beside
  refine ⟨htable.beside, hpurged, fun visited => ?_⟩
  have hquiet := quiet_buildWindow host s (f := { f with visits := visited }) hopen
  rw [buildWindow_eq host s (f := { f with visits := visited }) hopen] at hquiet
  have hpoints : (s.afterPurge host f).view.Points fun _ => False :=
    ⟨hpurged, fun _ hfalse => hfalse.elim⟩
  exact (hpoints.rearranged hquiet.view).beside

section Run

variable (host : Host) (readings : ℕ → UInt64)

/-- **Every reachable view** keeps records and rows together, if all purge loops so far did. -/
theorem run_points (frames : List Frame)
    (honce : ∀ c ∈ (run host readings frames).history.calls, c.rawKeys.Nodup)
    (hapart : AtEach (fun before f => f.tableOpen = true →
      (run host readings before).PurgesApart host f) frames) :
    (run host readings frames).view.Points
      (· ∈ (run host readings frames).view.pm.processes) := by
  induction frames using List.reverseRecOn with
  | nil => exact ⟨Beside.empty, fun pi hpi => absurd hpi List.not_mem_nil⟩
  | append_singleton frames f ih =>
    obtain ⟨hfirst, hlast⟩ := AtEach.concat_iff.mp hapart
    rw [run_concat] at honce ⊢
    obtain ⟨more, hmore⟩ := buildWindow_calls host (run host readings frames) f
    have hbefore : ∀ c ∈ (run host readings frames).history.calls, c.rawKeys.Nodup :=
      fun c hc => honce c (hmore ▸ List.mem_append_left _ hc)
    exact (run_displays host readings frames hbefore).points_buildWindow f honce hlast
      (ih hbefore hfirst)

/-- **No pointer dangles.** In every run, whatever enumerations fail and whatever keys come back,
each pointer that a frame follows leads to the object of a row, which the view keeps alive, if
in the purge loops before it the rows had distinct keys or the tick did not change. -/
theorem run_followsPointers (frames : List Frame) {f : Frame} (hopen : f.tableOpen = true)
    (honce : ∀ c ∈ (run host readings (frames ++ [f])).history.calls, c.rawKeys.Nodup)
    (hapart : AtEach (fun before f => f.tableOpen = true →
      (run host readings before).PurgesApart host f) frames) :
    (run host readings frames).FollowsPointers host f := by
  rw [run_concat] at honce
  obtain ⟨more, hmore⟩ := buildWindow_calls host (run host readings frames) f
  have hbefore : ∀ c ∈ (run host readings frames).history.calls, c.rawKeys.Nodup :=
    fun c hc => honce c (hmore ▸ List.mem_append_left _ hc)
  exact (run_displays host readings frames hbefore).followsPointers hopen honce
    (run_points host readings frames hbefore hapart)

end Run

/-- After a failed enumeration two rows share a record, in purge loops within one tick. -/
theorem run_followsPointers_one_failure :
    let idle := Frame.idle (Call.answered .enumProcesses 100 (.bare 1 8) []).toEnumWorld
    let failed := Frame.idle (Call.failed .enumProcesses 150).toEnumWorld
    let readings := fun n => [1000, 1000, 2000, 2000, 2000, 2000].getD n 3000
    let s := run .plain readings [idle, failed, idle]
    s.view.processes.length = 2 ∧ s.FollowsPointers .plain idle := by
  intro idle failed readings s
  refine ⟨by decide +kernel,
    run_followsPointers .plain readings [idle, failed, idle] rfl (by decide +kernel) ?_⟩
  rw [show [idle, failed, idle] = [] ++ [idle] ++ [failed] ++ [idle] from rfl,
    AtEach.concat_iff, AtEach.concat_iff, AtEach.concat_iff]
  exact ⟨⟨⟨.nil, by decide +kernel⟩, by decide +kernel⟩, by decide +kernel⟩

/-- The places that share in keeping a process alive. -/
def Owned (s : Session) (pi : Ref ProcessInfo) : Prop :=
  pi ∈ s.view.processes ∨ s.view.selectedProcess = some pi ∨ pi ∈ s.history.properties ∨
    pi ∈ s.view.pm.processes ∨ pi ∈ s.view.pm.newProcesses ∨ pi ∈ s.view.pm.terminatedProcesses ∨
      (∃ e ∈ s.view.pm.processesByKey.entries, e.2 = pi) ∨
        ∃ e ∈ s.view.pm.processesById.entries, e.2 = pi

/-- Whether a process is kept alive can be checked. -/
instance (s : Session) (pi : Ref ProcessInfo) : Decidable (s.Owned pi) :=
  inferInstanceAs (Decidable (_ ∨ _ ∨ _ ∨ _ ∨ _ ∨ _ ∨ _ ∨ _))

/-- Otherwise a pointer may dangle. Two rows share a record whose highlight ends between their
rounds, so that the newer row goes together with the record. When its process has gone as
well, the older row is drawn with a record for it, which nobody else keeps any more. -/
theorem run_dangling_pointer :
    let idle := Frame.idle (Call.answered .enumProcesses 100 (.bare 1 8) []).toEnumWorld
    let failed := Frame.idle (Call.failed .enumProcesses 150).toEnumWorld
    let other := Frame.idle (Call.answered .enumProcesses 200 (.bare 1 12) []).toEnumWorld
    let readings := fun n => [1000, 1000, 2000, 2000, 2000, 2000, 3000, 3000, 3000, 3000, 3000,
      5000, 5001, 6000, 6000, 6000, 6000, 6000, 6000].getD n 7000
    let visit : RowVisit := ⟨0, false, none, ⟨.stillOpen, .of [], false⟩⟩
    let s := run .plain readings [idle, failed, idle, { idle with space := true },
      { other with space := true }, { other with visits := [visit] }]
    ∃ row ∈ s.history.drawn, ¬ s.Owned (s.view.infoEx .plain row).pi := by
  decide +kernel

end Session

end ProcExpX
