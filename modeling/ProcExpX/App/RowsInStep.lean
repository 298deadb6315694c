import ProcExpX.App.UpdateSteps
import ProcExpX.Library.AtEach
import ProcExpX.Library.Follower

/-!
# Rows and manager in step

The invariant that ties the rows of the view, the records beside them and the
history to the tables of the manager, and the steps of a frame up to the purge loop
that keep it: the first load, a later update, sorts, and everything that concerns
the selection.
-/

namespace ProcExpX

open Library WinSys

/-- The keys of all snapshots of a run. -/
def seenKeys (calls : List Call) : List ProcessOrThreadKey := calls.flatMap Call.rawKeys

/-- What the system promises about the keys in the snapshots of a run. -/
structure KeysIdentify (calls : List Call) : Prop where
  /-- A snapshot lists a process once. -/
  once : ∀ c ∈ calls, c.rawKeys.Nodup
  /-- A key that has been seen is only listed as long as its process has not gone. -/
  never_back : AtEach
    (fun before c => ∀ k ∈ c.rawKeys, k ∈ seenKeys before → k ∈ lastRawKeys before) calls

/-- What is promised for a run is promised for its beginning. -/
theorem KeysIdentify.of_append {calls more : List Call} (h : KeysIdentify (calls ++ more)) :
    KeysIdentify calls where
  once c hc := h.once c (List.mem_append_left _ hc)
  never_back := h.never_back.of_append

/-- Two calls never bring a key back. -/
theorem KeysIdentify.of_two {calls : List Call} {ks ks' : List ProcessOrThreadKey}
    (hcalls : calls.map Call.rawKeys = [ks, ks']) (hks : ks.Nodup) (hks' : ks'.Nodup) :
    KeysIdentify calls := by
  obtain ⟨c, rest, rfl, rfl, hrest⟩ := List.map_eq_cons_iff.mp hcalls
  obtain ⟨c', rest, rfl, rfl, hnil⟩ := List.map_eq_cons_iff.mp hrest
  obtain rfl := List.map_eq_nil_iff.mp hnil
  refine ⟨by simp [hks, hks'], ?_⟩
  exact AtEach.pair_iff.mpr ⟨by simp [seenKeys], by simp [seenKeys, lastRawKeys]⟩

/-- A process that some enumeration of a run reported terminated. -/
def Reported (host : Host) (calls : List Call) (pi : Ref ProcessInfo) : Prop :=
  ∃ before after, calls = before ++ after ∧
    pi ∈ (Impl.run host.env host.rawProcesses host.rawThreads before).terminatedProcesses

/-- Reports are not taken back. -/
theorem Reported.append {host : Host} {calls : List Call} {pi : Ref ProcessInfo}
    (h : Reported host calls pi) (more : List Call) : Reported host (calls ++ more) pi := by
  obtain ⟨before, after, rfl, hpi⟩ := h
  exact ⟨before, after ++ more, List.append_assoc _ _ _, hpi⟩

namespace Session

/-- What a further enumeration does to the manager of a view, if snapshots list a
process once. -/
structure Relisted (host : Host) (s s' : Session) : Prop where
  /-- All calls of the manager are recorded. -/
  pm_eq : s'.view.pm = Impl.run host.env host.rawProcesses host.rawThreads s'.history.calls
  /-- They asked for all processes. -/
  unfiltered : ∀ c ∈ s'.history.calls, c.Unfiltered
  /-- Allocated processes stay allocated. -/
  live : ∀ {pi}, s.view.pm.processHeap.Live pi → s'.view.pm.processHeap.Live pi
  /-- Their keys are the same. -/
  key_eq : ∀ {pi}, s.view.pm.processHeap.Live pi → s'.view.key pi = s.view.key pi
  /-- The manager lists allocated processes. -/
  all_live : ∀ pi ∈ s'.view.pm.processes, s'.view.pm.processHeap.Live pi
  /-- It lists each once. -/
  all_nodup : s'.view.pm.processes.Nodup
  /-- A process that was allocated before was listed before. -/
  mem_of_live : ∀ {pi}, pi ∈ s'.view.pm.processes → s.view.pm.processHeap.Live pi →
    pi ∈ s.view.pm.processes
  /-- The new processes are those that were not allocated before. -/
  new_eq : s'.view.pm.newProcesses =
    s'.view.pm.processes.filter (fun pi => ¬ s.view.pm.processHeap.Live pi)
  /-- The terminated processes are those that are not listed any more. -/
  mem_terminated : ∀ pi, pi ∈ s'.view.pm.terminatedProcesses ↔
    pi ∈ s.view.pm.processes ∧ pi ∉ s'.view.pm.processes

/-- Membership in the new processes. -/
theorem Relisted.mem_new {host : Host} {s s' : Session} (h : s.Relisted host s')
    (pi : Ref ProcessInfo) : pi ∈ s'.view.pm.newProcesses ↔
      pi ∈ s'.view.pm.processes ∧ ¬ s.view.pm.processHeap.Live pi := by
  rw [h.new_eq, List.mem_filter, decide_eq_true_eq]

/-- **An enumeration** by a view that made all calls of its manager. -/
theorem relisted_enumProcesses {host : Host} {s : Session} (world : EnumWorld)
    (hpm : s.view.pm = Impl.run host.env host.rawProcesses host.rawThreads s.history.calls)
    (hunfiltered : ∀ c ∈ s.history.calls, c.Unfiltered)
    (honce : ∀ c ∈ s.history.calls ++ [enumCall world], c.rawKeys.Nodup) :
    s.Relisted host (s.enumProcesses host world) := by
  have hm := Impl.run_tracks host.env host.rawProcesses host.rawThreads s.history.calls
  rw [← hpm, heldKeys_eq_lastRawKeys hunfiltered] at hm
  have hall : Call.Unfiltered (enumCall world) := rfl
  have hks := lastRawKeys_nodup fun c hc => honce c (List.mem_append_left _ hc)
  obtain ⟨recs, thr, hrebuilt⟩ := Impl.step_rebuilt host.env hm.keyed (enumCall world)
  have hreb := hrebuilt.processSide hm.keyed
  have hrecs : recs.map ((enumCall world).processBlueprint host.env s.view.pm).key =
      (enumCall world).rawKeys := by rw [hrebuilt.map_key, hall.keys_eq]
  have hks' : (enumCall world).rawKeys.Nodup := honce _ (by simp)
  have hholds := hreb.holds
  have hreports := hreb.reports hm.processes hks (hrecs ▸ hks')
  rw [hrecs] at hholds hreports
  refine ⟨?_, ?_, hreb.live, fun hlive => hreb.keyAt_of_live hlive, hholds.all_live,
    hholds.all_nodup, hreb.mem_all_of_live hm.processes, hreb.added_eq, fun pi => ?_⟩
  · show s.view.pm.step host.env (enumCall world) = _
    rw [hpm, ← Impl.run_concat]
    rfl
  · intro c hc
    rcases List.mem_append.mp hc with hc | hc
    · exact hunfiltered c hc
    · rw [List.mem_singleton.mp hc]
      rfl
  · refine (hreports.mem_removed (r := pi)).trans (and_congr_right fun hlisted => not_congr ?_)
    constructor
    · exact hreports.kept pi hlisted
    · intro hlisted'
      have hmem := hholds.keyAt_mem hlisted'
      rwa [hreb.keyAt_of_live (hm.processes.all_live pi hlisted)] at hmem

/-- What a view finds in the manager after a further enumeration. -/
structure Enumerated (host : Host) (s s' : Session) : Prop where
  /-- All calls of the manager are recorded. -/
  pm_eq : s'.view.pm = Impl.run host.env host.rawProcesses host.rawThreads s'.history.calls
  /-- They asked for all processes. -/
  unfiltered : ∀ c ∈ s'.history.calls, c.Unfiltered
  /-- Allocated processes stay allocated. -/
  live : ∀ {pi}, s.view.pm.processHeap.Live pi → s'.view.pm.processHeap.Live pi
  /-- The keys of the rows are the same. -/
  key_eq : ∀ pi ∈ s.view.processes, s'.view.key pi = s.view.key pi
  /-- A process that was allocated before was listed before. -/
  mem_of_live : ∀ {pi}, pi ∈ s'.view.pm.processes → s.view.pm.processHeap.Live pi →
    pi ∈ s.view.pm.processes
  /-- The new processes are those that were not allocated before. -/
  mem_new : ∀ pi, pi ∈ s'.view.pm.newProcesses ↔
    pi ∈ s'.view.pm.processes ∧ ¬ s.view.pm.processHeap.Live pi
  /-- The terminated processes are those that are not listed any more. -/
  mem_terminated : ∀ pi, pi ∈ s'.view.pm.terminatedProcesses ↔
    pi ∈ s.view.pm.processes ∧ pi ∉ s'.view.pm.processes
  /-- The list of the manager follows the manager. -/
  follows_all : s'.view.pm.processRoster.FollowedBy processIdentity s'.view.pm.processes
    (seenKeys s'.history.calls)
  /-- So do the rows together with the new processes. -/
  follows_new : s'.view.pm.processRoster.FollowedBy processIdentity
    (s.view.processes ++ s'.view.pm.newProcesses) (seenKeys s'.history.calls)

/-- A row that is not listed after an enumeration is an old one, and if the manager
listed it before, it is reported terminated now. -/
theorem Enumerated.unlisted {host : Host} {s s' : Session} (henum : s.Enumerated host s')
    {pi : Ref ProcessInfo} (hpi : pi ∈ s.view.processes ++ s'.view.pm.newProcesses)
    (hgone : pi ∉ s'.view.pm.processes) :
    pi ∈ s.view.processes ∧
      (pi ∈ s.view.pm.processes → pi ∈ s'.view.pm.terminatedProcesses) := by
  rcases List.mem_append.mp hpi with hpi | hpi
  · exact ⟨hpi, fun hlisted => (henum.mem_terminated pi).mpr ⟨hlisted, hgone⟩⟩
  · exact absurd ((henum.mem_new pi).mp hpi).1 hgone

/-- **The invariant.** The rows follow the manager, the records stand beside the
rows, and exactly the rows that the manager has given up are marked terminated. -/
structure InStep (host : Host) (s : Session) : Prop where
  /-- The view made all calls of the manager. -/
  pm_eq : s.view.pm = Impl.run host.env host.rawProcesses host.rawThreads s.history.calls
  /-- It asked for all processes. -/
  unfiltered : ∀ c ∈ s.history.calls, c.Unfiltered
  /-- The rows follow the manager. -/
  follows : s.view.pm.processRoster.FollowedBy processIdentity s.view.processes
    (seenKeys s.history.calls)
  /-- The records stand beside the rows. -/
  beside : Beside s.view.key ProcessInfoEx.pi s.view.processes s.view.processesEx
  /-- No record of a process of the manager is marked terminated. -/
  alive : ∀ pi ∈ s.view.pm.processes, ∀ px,
    s.view.processesEx.lookup (s.view.key pi) = some px → px.isTerminated = false
  /-- The records of the other rows are marked terminated. -/
  gone : ∀ pi ∈ s.view.processes, pi ∉ s.view.pm.processes →
    ∃ px, s.view.processesEx.lookup (s.view.key pi) = some px ∧ px.isTerminated = true
  /-- The other rows have been reported terminated. -/
  reported : ∀ pi ∈ s.view.processes, pi ∉ s.view.pm.processes →
    Reported host s.history.calls pi
  /-- `Update` was called for allocated processes. -/
  updates_live : ∀ u ∈ s.history.updates, s.view.pm.processHeap.Live u.1
  /-- `Update` has not returned true for any row. -/
  unreturned : ∀ pi ∈ s.view.processes, (pi, true) ∉ s.history.updates

namespace InStep

variable {host : Host} {s s' : Session}

/-- The keys of the rows are distinct. -/
theorem keys_nodup (h : s.InStep host) : (s.view.processes.map s.view.key).Nodup :=
  h.follows.keys_nodup

/-- Every process of the manager has a row. -/
theorem listed (h : s.InStep host) {pi : Ref ProcessInfo} (hpi : pi ∈ s.view.pm.processes) :
    pi ∈ s.view.processes := h.follows.listed pi hpi

/-- A row is determined by its key. -/
theorem key_inj (h : s.InStep host) {pi pi' : Ref ProcessInfo} (hpi : pi ∈ s.view.processes)
    (hpi' : pi' ∈ s.view.processes) (hkey : s.view.key pi = s.view.key pi') : pi = pi' :=
  List.inj_on_of_nodup_map h.keys_nodup hpi hpi' hkey

/-- The view starts in step. -/
theorem initial (host : Host) (readings : ℕ → UInt64) :
    (Session.initial host readings).InStep host where
  pm_eq := rfl
  unfiltered := by simp [Session.initial]
  follows := ⟨by simp [Session.initial], by simp [Session.initial],
    by simp [Session.initial, Impl.initial, Impl.processRoster], by simp [Session.initial]⟩
  beside := .empty
  alive := by simp [Session.initial, Impl.initial]
  gone := by simp [Session.initial]
  reported := by simp [Session.initial]
  updates_live := by simp [Session.initial]
  unreturned := by simp [Session.initial]

/-- **Without an enumeration** what is left to show concerns the rows, their records
and the calls of `Update`, each of which is for a row and answers no if the row stays. -/
theorem sameCalls (h : s.InStep host) (hpm : s'.view.pm = s.view.pm)
    (hcalls : s'.history.calls = s.history.calls)
    (hrows : ∀ pi ∈ s'.view.processes, pi ∈ s.view.processes)
    (hfollows : s.view.pm.processRoster.FollowedBy processIdentity s'.view.processes
      (seenKeys s.history.calls))
    (hbeside : Beside s.view.key ProcessInfoEx.pi s'.view.processes s'.view.processesEx)
    (halive : ∀ pi ∈ s.view.pm.processes, ∀ px,
      s'.view.processesEx.lookup (s.view.key pi) = some px → px.isTerminated = false)
    (hgone : ∀ pi ∈ s'.view.processes, pi ∉ s.view.pm.processes →
      ∃ px, s'.view.processesEx.lookup (s.view.key pi) = some px ∧ px.isTerminated = true)
    (hupdates : ∀ u ∈ s'.history.updates, u ∈ s.history.updates ∨
      u.1 ∈ s.view.processes ∧ (u.2 = true → u.1 ∉ s'.view.processes)) :
    s'.InStep host := by
  have hkey := ProcessesView.key_congr hpm
  refine ⟨?_, ?_, ?_, ?_, ?_, ?_, ?_, ?_, ?_⟩
  · rw [hpm, h.pm_eq, hcalls]
  · rw [hcalls]
    exact h.unfiltered
  · rw [hpm, hcalls]
    exact hfollows
  · rw [hkey]
    exact hbeside
  · rw [hpm, hkey]
    exact halive
  · rw [hpm, hkey]
    exact hgone
  · rw [hpm, hcalls]
    exact fun pi hpi => h.reported pi (hrows pi hpi)
  · rw [hpm]
    intro u hu
    rcases hupdates u hu with hold | ⟨hrow, _⟩
    · exact h.updates_live u hold
    · exact h.follows.live u.1 hrow
  · intro pi hpi hupdate
    rcases hupdates (pi, true) hupdate with hold | ⟨_, hremoved⟩
    · exact h.unreturned pi (hrows pi hpi) hold
    · exact hremoved rfl hpi

/-- Steps that keep the rows keep the invariant. -/
theorem quiet (h : s.InStep host) (hq : s.Quiet s') : s'.InStep host := by
  have hmem : ∀ pi, pi ∈ s'.view.processes ↔ pi ∈ s.view.processes :=
    fun pi => hq.view.perm.mem_iff
  refine h.sameCalls hq.view.pm_eq hq.calls_eq (fun pi => (hmem pi).mp)
    (h.follows.perm hq.view.perm) ?_ ?_ ?_ fun u hu => Or.inl (hq.updates_eq ▸ hu)
  · intro k px hlookup
    rcases hq.view.records k with hsame | ⟨_, px', hpx', hpi, hk, _⟩
    · obtain ⟨hpi, hk⟩ := h.beside k px (hsame ▸ hlookup)
      exact ⟨(hmem _).mpr hpi, hk⟩
    · obtain rfl : px = px' := Option.some.inj (hlookup.symm.trans hpx')
      exact ⟨(hmem _).mpr hpi, hk⟩
  · intro pi hpi px hlookup
    rcases hq.view.records (s.view.key pi) with hsame | ⟨_, px', hpx', _, _, hmark⟩
    · exact h.alive pi hpi px (hsame ▸ hlookup)
    · obtain rfl : px = px' := Option.some.inj (hlookup.symm.trans hpx')
      exact hmark
  · intro pi hpi hpi'
    obtain ⟨px, hlookup, hmark⟩ := h.gone pi ((hmem pi).mp hpi) hpi'
    refine ⟨px, ?_, hmark⟩
    rcases hq.view.records (s.view.key pi) with hsame | ⟨hnone, _⟩
    · rw [hsame, hlookup]
    · rw [hlookup] at hnone
      cases hnone

/-- A listed process has no key in common with a terminated one. -/
theorem spared (h : s.InStep host) (henum : s.Enumerated host s')
    {pi : Ref ProcessInfo} (hpi : pi ∈ s'.view.pm.processes) :
    s'.view.key pi ∉ s'.view.pm.terminatedProcesses.map s'.view.key := by
  intro hmem
  obtain ⟨pi', hpi', heq⟩ := List.mem_map.mp hmem
  obtain ⟨hlisted, hgone⟩ := (henum.mem_terminated pi').mp hpi'
  have hsame : pi' = pi := List.inj_on_of_nodup_map henum.follows_new.keys_nodup
    (List.mem_append_left _ (h.listed hlisted)) (henum.follows_new.listed pi hpi) heq
  exact hgone (hsame ▸ hpi)

/-- An old row has no key in common with a new process. -/
theorem apart (h : s.InStep host) (henum : s.Enumerated host s')
    {pi : Ref ProcessInfo} (hpi : pi ∈ s.view.processes) :
    s'.view.key pi ∉ s'.view.pm.newProcesses.map s'.view.key := by
  intro hmem
  obtain ⟨pi', hpi', heq⟩ := List.mem_map.mp hmem
  have hsame : pi' = pi := List.inj_on_of_nodup_map henum.follows_new.keys_nodup
    (List.mem_append_right _ hpi') (List.mem_append_left _ hpi) heq
  exact ((henum.mem_new pi').mp hpi').2 (hsame ▸ h.follows.live pi hpi)

section Merge

variable {s'' : Session} (h : s.InStep host) (henum : s.Enumerated host s')
  (hrecords : s'.view.processesEx = s.view.processesEx) (hmerged : s'.Merged s'')
include h henum hrecords hmerged

/-- The record of an old row that is not reported terminated is the same. -/
private theorem lookup_merged {pi : Ref ProcessInfo} (hpi : pi ∈ s.view.processes)
    (hspared : s'.view.key pi ∉ s'.view.pm.terminatedProcesses.map s'.view.key) :
    s''.view.processesEx.lookup (s'.view.key pi) =
      s.view.processesEx.lookup (s.view.key pi) := by
  rw [hmerged.same _ (h.apart henum hpi) hspared, henum.key_eq pi hpi, hrecords]

/-- The record of a listed process is not marked terminated. -/
private theorem alive_merged {pi : Ref ProcessInfo} (hpi : pi ∈ s'.view.pm.processes)
    {px : ProcessInfoEx} (hlookup : s''.view.processesEx.lookup (s'.view.key pi) = some px) :
    px.isTerminated = false := by
  have hspared := h.spared henum hpi
  by_cases hlive : s.view.pm.processHeap.Live pi
  · have hbefore := henum.mem_of_live hpi hlive
    rw [h.lookup_merged henum hrecords hmerged (h.listed hbefore) hspared] at hlookup
    exact h.alive pi hbefore px hlookup
  · obtain ⟨px', hpx', hmark⟩ := hmerged.made pi ((henum.mem_new pi).mpr ⟨hpi, hlive⟩) hspared
    obtain rfl : px = px' := Option.some.inj (hlookup.symm.trans hpx')
    exact hmark

/-- The record of a row that is not listed is marked terminated, now or earlier. -/
private theorem gone_merged {pi : Ref ProcessInfo}
    (hpi : pi ∈ s.view.processes ++ s'.view.pm.newProcesses)
    (hgone : pi ∉ s'.view.pm.processes) :
    ∃ px, s''.view.processesEx.lookup (s'.view.key pi) = some px ∧ px.isTerminated = true := by
  obtain ⟨hrow, hlast⟩ := henum.unlisted hpi hgone
  by_cases hmem : s'.view.key pi ∈ s'.view.pm.terminatedProcesses.map s'.view.key
  · obtain ⟨pi', hpi', heq⟩ := List.mem_map.mp hmem
    rw [← heq]
    exact hmerged.marked pi' hpi'
  · rw [h.lookup_merged henum hrecords hmerged hrow hmem]
    exact h.gone pi hrow fun hlisted => hmem (List.mem_map_of_mem (hlast hlisted))

end Merge

section Update

variable (h : s.InStep host) (world : EnumWorld)
  (hkeys : KeysIdentify (s.history.calls ++ [enumCall world]))
include h hkeys

/-- **The enumeration** of an update. -/
theorem enumerated : s.Enumerated host (s.enumProcesses host world) := by
  have hlist := relisted_enumProcesses world h.pm_eq h.unfiltered hkeys.once
  have hm := Impl.run_tracks host.env host.rawProcesses host.rawThreads s.history.calls
  rw [← h.pm_eq, heldKeys_eq_lastRawKeys h.unfiltered] at hm
  have hks := lastRawKeys_nodup fun c hc => hkeys.once c (List.mem_append_left _ hc)
  obtain ⟨recs, thr, hrebuilt⟩ := Impl.step_rebuilt host.env hm.keyed (enumCall world)
  have hreb := hrebuilt.processSide hm.keyed
  have hall : Call.Unfiltered (enumCall world) := rfl
  have hrecs : recs.map ((enumCall world).processBlueprint host.env s.view.pm).key =
      (enumCall world).rawKeys := by rw [hrebuilt.map_key, hall.keys_eq]
  have hks' : (enumCall world).rawKeys.Nodup := hkeys.once _ (by simp)
  have hback := (AtEach.concat_iff.mp hkeys.never_back).2
  have hholds := hreb.holds
  have hfollows := h.follows.extend hreb hm.processes hks (hrecs ▸ hks') (hrecs ▸ hback)
  rw [hrecs] at hholds hfollows
  have hseen : seenKeys (s.enumProcesses host world).history.calls =
      seenKeys s.history.calls ++ (enumCall world).rawKeys := by
    simp [enumProcesses, seenKeys]
  refine ⟨hlist.pm_eq, hlist.unfiltered, hlist.live,
    fun pi hpi => hlist.key_eq (h.follows.live pi hpi), hlist.mem_of_live, hlist.mem_new,
    hlist.mem_terminated, ?_, ?_⟩
  · rw [hseen]
    exact hholds.followedBy_all hks' fun k hk => List.mem_append_right _ hk
  · rw [hseen]
    exact hfollows

/-- **First load.** A view without rows takes over the list of the manager. -/
theorem load (hempty : s.view.processes = []) :
    ((s.enumProcesses host world).takeRows host true).InStep host := by
  have henum := h.enumerated world hkeys
  have hrecord : ∀ k, s.view.processesEx.lookup k = none := fun k =>
    h.beside.lookup_none (by simp [hempty])
  refine ⟨henum.pm_eq, henum.unfiltered, henum.follows_all, ?_, ?_, ?_, ?_, ?_, ?_⟩
  · intro k px hlookup
    exact absurd (hlookup.symm.trans (hrecord k)) (Option.some_ne_none px)
  · intro pi _ px hlookup
    exact absurd (hlookup.symm.trans (hrecord _)) (Option.some_ne_none px)
  · exact fun pi hpi hpi' => absurd hpi hpi'
  · exact fun pi hpi hpi' => absurd hpi hpi'
  · exact fun u hu => henum.live (h.updates_live u hu)
  · intro pi hpi hupdate
    have hrow := h.listed (henum.mem_of_live hpi (h.updates_live _ hupdate))
    rw [hempty] at hrow
    cases hrow

/-- **Later updates.** A view with rows adds the new processes and marks the
terminated ones. -/
theorem update : ((s.enumProcesses host world).takeRows host false).InStep host := by
  have henum := h.enumerated world hkeys
  have hmerged := merged_doUpdate host (s.enumProcesses host world)
    (h.beside.congr_key henum.key_eq) henum.follows_new.keys_nodup
    fun pi hpi => h.listed ((henum.mem_terminated pi).mp hpi).1
  change ((s.enumProcesses host world).doUpdate host).InStep host
  set s₁ := s.enumProcesses host world with hs₁
  set s₂ := s₁.doUpdate host
  have hpm : s₂.view.pm = s₁.view.pm := hmerged.pm_eq
  have hrows : s₂.view.processes = s.view.processes ++ s₁.view.pm.newProcesses :=
    hmerged.processes_eq
  have hrecords : s₁.view.processesEx = s.view.processesEx := rfl
  refine ⟨?_, ?_, ?_, ?_, ?_, ?_, ?_, ?_, ?_⟩
  · rw [hpm, hmerged.history_eq]
    exact henum.pm_eq
  · rw [hmerged.history_eq]
    exact henum.unfiltered
  · rw [hpm, hmerged.history_eq, hrows]
    exact henum.follows_new
  · rw [hmerged.key_eq]
    exact hmerged.beside
  · intro pi hpi px hlookup
    rw [hpm] at hpi
    rw [hmerged.key_eq] at hlookup
    exact h.alive_merged henum hrecords hmerged hpi hlookup
  · intro pi hpi hgone
    rw [hpm] at hgone
    rw [hrows] at hpi
    rw [hmerged.key_eq]
    exact h.gone_merged henum hrecords hmerged hpi hgone
  · intro pi hpi hgone
    rw [hpm] at hgone
    rw [hrows] at hpi
    obtain ⟨hrow, hlast⟩ := henum.unlisted hpi hgone
    rw [hmerged.history_eq]
    by_cases hbefore : pi ∈ s.view.pm.processes
    · exact ⟨s₁.history.calls, [], (List.append_nil _).symm, henum.pm_eq ▸ hlast hbefore⟩
    · exact (h.reported pi hrow hbefore).append [enumCall world]
  · rw [hpm, hmerged.history_eq]
    exact fun u hu => henum.live (h.updates_live u hu)
  · intro pi hpi
    rw [hrows] at hpi
    rw [hmerged.history_eq]
    rcases List.mem_append.mp hpi with hpi | hpi
    · exact h.unreturned pi hpi
    · exact fun hupdate => ((henum.mem_new pi).mp hpi).2 (h.updates_live _ hupdate)

/-- **An update** keeps the view in step. -/
theorem refresh (r : Refresh) (hworld : r.world = world) : (s.refresh host r).InStep host := by
  have hrows :
      ((s.enumProcesses host world).takeRows host s.view.processes.isEmpty).InStep host := by
    cases hempty : s.view.processes.isEmpty with
    | true => exact h.load world hkeys (List.isEmpty_iff.mp hempty)
    | false => exact h.update world hkeys
  subst hworld
  exact hrows.quiet (.refresh host s r)

end Update

/-- **Before the purge loop** a frame keeps the view in step. -/
theorem updateTable (h : s.InStep host) (f : Frame)
    (hkeys : KeysIdentify (s.updateTable host f).history.calls) :
    (s.updateTable host f).InStep host := by
  rcases updateTable_cases host s f with hquiet | ⟨s₁, hquiet, heq⟩
  · exact h.quiet hquiet
  · rw [heq, refresh_calls] at hkeys
    rw [heq]
    exact (h.quiet hquiet).refresh f.refresh.world hkeys f.refresh rfl

end InStep

end Session

end ProcExpX
