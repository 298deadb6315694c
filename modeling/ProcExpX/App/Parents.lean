import ProcExpX.App.Attributes
import ProcExpX.App.ShownRows
import ProcExpX.Library.Career
import ProcExpX.WinSys.Mirrors

/-!
# Parents whose pids are given again

A process object remembers the pid of its parent, and the column of the parent asks the
manager who has that pid now. It only believes in an older process. In a system that gives a
pid to one process at a time this is enough to name the parent as long as it is listed, and
never to name another process.
-/

namespace WinSys

open Library

section Run

variable (env : Environment) (rawProcesses : ℕ → ProcessInfo) (rawThreads : ℕ → ThreadInfo)

/-- **Every process object** carries what its creation wrote from a record of some call. -/
theorem Impl.run_created (calls : List Call) {pi : Ref ProcessInfo}
    (hlive : (Impl.run env rawProcesses rawThreads calls).processHeap.Live pi) :
    ∃ (n : ℕ) (c : Call), calls[n]? = some c ∧ ∃ p ∈ c.records,
      ((Impl.run env rawProcesses rawThreads calls).process pi).MirrorsCreation
        env.isElevated p := by
  induction calls using List.reverseRecOn with
  | nil => exact absurd hlive (Nat.not_lt_zero _)
  | append_singleton calls c ih =>
    obtain ⟨recs, thr, h⟩ := Impl.run_concat_rebuilt env rawProcesses rawThreads calls c
    have hm := Impl.run_tracks env rawProcesses rawThreads calls
    have hside := h.processSide hm.keyed
    have hlater : ∀ {n : ℕ} {c' : Call}, calls[n]? = some c' → (calls ++ [c])[n]? = some c' := by
      intro n c' hn
      obtain ⟨hlt, -⟩ := List.getElem?_eq_some_iff.mp hn
      rw [List.getElem?_append_left hlt, hn]
    by_cases hold : (Impl.run env rawProcesses rawThreads calls).processHeap.Live pi
    · obtain ⟨n, c', hn, p, hp, hcreated⟩ := ih hold
      have hconstant := Impl.step_constant env hm.keyed c
        (f := fun process => process.MirrorsCreation env.isElevated p)
        (fun _ _ => propext ⟨fun h => ⟨h.ids, h.processName, h.jobObjectId, h.fromExtension⟩,
          fun h => ⟨h.ids, h.processName, h.jobObjectId, h.fromExtension⟩⟩) hold
      refine ⟨n, c', hlater hn, p, hp, ?_⟩
      rw [Impl.run_concat]
      exact hconstant.mpr hcreated
    · have hlisted := (hside.live_iff.mp hlive).resolve_left hold
      obtain ⟨rec, hrec, ⟨hknown, _⟩ | ⟨_, hread⟩⟩ := hside.built hlisted
      · exact absurd (hside.keyed _ _ hknown).1 hold
      · have hselected : rec.1 ∈ c.selected := h.recs_eq ▸ List.mem_map_of_mem hrec
        have hprocess : (Impl.run env rawProcesses rawThreads (calls ++ [c])).process pi =
          (c.processBlueprint env (Impl.run env rawProcesses rawThreads calls)).create rec
            ((Impl.run env rawProcesses rawThreads calls).process pi) := hread
        refine ⟨calls.length, c, by simp, rec.1, List.mem_of_mem_filter hselected, ?_⟩
        rw [hprocess]
        exact ProcessInfo.update_mirrorsCreation_iff.mpr
          (ProcessInfo.identify_mirrorsCreation env.isElevated _ rec.1)

end Run

end WinSys

namespace ProcExpX

open Library WinSys

/-- The processes of a system over time, by their keys. Times are creation times, and the
names are the pids. -/
abbrev ProcessHistory :=
  Genealogy (fun k : ProcessOrThreadKey => k.id) fun k => k.created.toInt

/-- The pid that the system hands out as that of the parent. -/
def ProcessHistory.parentId (history : ProcessHistory) (k : ProcessOrThreadKey) : UInt32 :=
  ((history.parent k).map (·.id)).getD 0

/-- The snapshots of a run are taken of a system at some times, one after the other. -/
structure SnapshotsOf (history : ProcessHistory) (time : ℕ → ℤ) (calls : List Call) : Prop where
  /-- No snapshot is taken before an earlier one. -/
  mono : ∀ m n, m ≤ n → time m ≤ time n
  /-- A snapshot lists a process once. -/
  once : ∀ c ∈ calls, c.rawKeys.Nodup
  /-- It lists living processes. -/
  lives : ∀ n c, calls[n]? = some c → ∀ k ∈ c.rawKeys, history.lives (time n) k
  /-- It says who created them. -/
  parents : ∀ c ∈ calls, ∀ p ∈ c.records,
    handleToULong p.inheritedFromUniqueProcessId = history.parentId p.key

namespace SnapshotsOf

variable {history : ProcessHistory} {time : ℕ → ℤ} {calls : List Call}
  (h : SnapshotsOf history time calls)
include h

/-- The processes of the last snapshot live at the same time. -/
theorem lives_last {k : ProcessOrThreadKey} (hk : k ∈ lastRawKeys calls) :
    history.lives (time (calls.length - 1)) k := by
  unfold lastRawKeys at hk
  rw [List.getLast?_eq_getElem?] at hk
  cases hlast : calls[calls.length - 1]? with
  | none =>
    rw [hlast] at hk
    cases hk
  | some c =>
    rw [hlast] at hk
    exact h.lives _ c hlast k hk

/-- The pids of the last snapshot are distinct. -/
theorem ids_nodup : ((lastRawKeys calls).map (·.id)).Nodup := by
  refine (lastRawKeys_nodup h.once).map_on fun k hk k' hk' hid => ?_
  exact history.one_bearer (h.lives_last hk) (h.lives_last hk') hid

/-- Who has been listed by some snapshot was born before the last one. -/
theorem born_le_last {n : ℕ} {c : Call} (hn : calls[n]? = some c) {k : ProcessOrThreadKey}
    (hk : k ∈ c.rawKeys) : k.created.toInt ≤ time (calls.length - 1) := by
  obtain ⟨hlt, -⟩ := List.getElem?_eq_some_iff.mp hn
  exact (history.born_le (h.lives n c hn k hk)).trans (h.mono n _ (by omega))

end SnapshotsOf

/-- The column of the parent for a process: it names the parent as long as the last snapshot
lists the parent, shows only the pid of the parent after that, and nothing if that is zero. -/
structure NamesParent (history : ProcessHistory) (m : Impl) (snapshot : List ProcessOrThreadKey)
    (pi : Ref ProcessInfo) : Prop where
  /-- The parent is listed. -/
  listed : ∀ p, history.parent (m.process pi).key = some p → p.id ≠ 0 → p ∈ snapshot →
    ∃ parent ∈ m.processes, (m.process parent).key = p ∧
      parentCell m pi = .parent p.id (m.process parent).processName
  /-- The parent is not listed. -/
  gone : ∀ p, history.parent (m.process pi).key = some p → p.id ≠ 0 → p ∉ snapshot →
    parentCell m pi = .parentId p.id
  /-- There is none. -/
  blank : history.parentId (m.process pi).key = 0 → parentCell m pi = .blank

section Run

variable {history : ProcessHistory} {time : ℕ → ℤ} {calls : List Call} {env : Environment}
  {rawProcesses : ℕ → ProcessInfo} {rawThreads : ℕ → ThreadInfo} {m : Impl}
  (h : SnapshotsOf history time calls) (hunfiltered : ∀ c ∈ calls, c.Unfiltered)
  (hm : m = Impl.run env rawProcesses rawThreads calls)
include h hm

/-- What a process object says of its process. -/
theorem SnapshotsOf.created {pi : Ref ProcessInfo} (hlive : m.processHeap.Live pi) :
    (m.process pi).id = (m.process pi).key.id ∧
      (m.process pi).createTime = (m.process pi).key.created ∧
      (m.process pi).parentId = history.parentId (m.process pi).key ∧
      (m.process pi).key.created.toInt ≤ time (calls.length - 1) := by
  subst hm
  obtain ⟨n, c, hn, p, hp, hcreated⟩ := Impl.run_created env rawProcesses rawThreads calls hlive
  obtain ⟨hkey, hid, htime, hparent, -⟩ := hcreated.ids
  have hlast := h.born_le_last hn (List.mem_map_of_mem hp)
  have hsays := h.parents c (List.mem_of_getElem? hn) p hp
  rw [hkey]
  exact ⟨hid, htime, hparent.trans hsays, hlast⟩

include hunfiltered

omit h in
/-- The manager tracks the processes of the last snapshot. -/
theorem holds_lastRawKeys : m.processRoster.Holds processIdentity (lastRawKeys calls) := by
  subst hm
  rw [← heldKeys_eq_lastRawKeys hunfiltered]
  exact (Impl.run_tracks env rawProcesses rawThreads calls).processes

/-- A process found under a pid is the listed one with that pid. -/
theorem SnapshotsOf.getProcessById_iff {i : UInt32} {q : Ref ProcessInfo} :
    m.getProcessById i = some q ↔ q ∈ m.processes ∧ (m.process q).key.id = i := by
  have htracks := holds_lastRawKeys hunfiltered hm
  refine (htracks.lookup_id_iff h.ids_nodup).trans (and_congr_right fun hq => ?_)
  rw [← (h.created hm (htracks.all_live q hq)).1]
  rfl

/-- **The bearer of the parent's pid** is older than the child precisely if it is the parent. -/
theorem SnapshotsOf.older_iff {pi q : Ref ProcessInfo} (hlive : m.processHeap.Live pi)
    (hq : q ∈ m.processes) {p : ProcessOrThreadKey}
    (hparent : history.parent (m.process pi).key = some p)
    (hid : (m.process q).key.id = p.id) :
    (m.process q).createTime < (m.process pi).createTime ↔ (m.process q).key = p := by
  have htracks := holds_lastRawKeys hunfiltered hm
  obtain ⟨_, htime, _, hlast⟩ := h.created hm hlive
  obtain ⟨_, htime', -⟩ := h.created hm (htracks.all_live q hq)
  have hlives := h.lives_last (htracks.keyAt_mem hq)
  rw [htime, htime', Int64.lt_iff_toInt_lt]
  exact (history.bearer_eq_parent_iff hparent hlives hid hlast).symm

/-- **One process.** -/
theorem SnapshotsOf.namesParent {pi : Ref ProcessInfo} (hlive : m.processHeap.Live pi) :
    NamesParent history m (lastRawKeys calls) pi := by
  have htracks := holds_lastRawKeys hunfiltered hm
  have hasked := (h.created hm hlive).2.2.1
  have hfind : ∀ i q, m.getProcessById i = some q ↔ q ∈ m.processes ∧ (m.process q).key.id = i :=
    fun i q => h.getProcessById_iff hunfiltered hm
  have hpid : ∀ p, history.parent (m.process pi).key = some p →
      (m.process pi).parentId = p.id := by
    intro p hparent
    rw [hasked, ProcessHistory.parentId, hparent]
    rfl
  refine ⟨fun p hparent hne hp => ?_, fun p hparent hne hp => ?_, fun hzero => ?_⟩
  · rw [← htracks.keys_eq] at hp
    obtain ⟨q, hq, hkey⟩ := List.mem_map.mp hp
    have hsame : (m.process q).key = p := hkey
    have hid : (m.process q).key.id = p.id := congrArg _ hsame
    have holder := (h.older_iff hunfiltered hm hlive hq hparent hid).mpr hsame
    refine ⟨q, hq, hsame, ?_⟩
    rw [parentCell, hpid p hparent, if_pos (UInt32.pos_iff_ne_zero.mpr hne),
      (hfind p.id q).mpr ⟨hq, hid⟩]
    dsimp only
    rw [if_pos holder, (h.created hm (htracks.all_live q hq)).1, hid]
  · rw [parentCell, hpid p hparent, if_pos (UInt32.pos_iff_ne_zero.mpr hne)]
    cases hfound : m.getProcessById p.id with
    | none => rfl
    | some q =>
      obtain ⟨hq, hid⟩ := (hfind p.id q).mp hfound
      have hyounger : ¬ (m.process q).createTime < (m.process pi).createTime := by
        intro holder
        have hsame := (h.older_iff hunfiltered hm hlive hq hparent hid).mp holder
        exact hp (hsame ▸ htracks.keyAt_mem hq)
      dsimp only
      rw [if_neg hyounger]
  · rw [parentCell, hasked, hzero]
    rfl

end Run

/-- **Parents are named rightly.** In every run over the snapshots of a system that gives a pid
to one process at a time, whatever ends, fails or is given again, the column shows for each row,
also for one whose process has gone, the process that created it as long as that one is listed,
and never another one. -/
theorem Session.run_namesParents (host : Host) (readings : ℕ → UInt64) (history : ProcessHistory)
    (time : ℕ → ℤ) (frames : List Frame)
    (hsnapshots : SnapshotsOf history time (run host readings frames).history.calls) :
    ∀ row ∈ (run host readings frames).view.processes,
      NamesParent history (run host readings frames).view.pm
        (lastRawKeys (run host readings frames).history.calls) row := by
  intro row hrow
  have hdisplays := run_displays host readings frames hsnapshots.once
  exact hsnapshots.namesParent hdisplays.unfiltered hdisplays.pm_eq (hdisplays.live row hrow)

/-- A process that creates another one and ends, and whose pid is given again. -/
def reusedPid : ProcessHistory where
  lives t k := k = ⟨1, 8⟩ ∧ 1 ≤ t ∧ t < 20 ∨ k = ⟨2, 12⟩ ∧ 2 ≤ t ∨ k = ⟨30, 8⟩ ∧ 30 ≤ t
  parent k := if k = ⟨2, 12⟩ then some ⟨1, 8⟩ else none
  born_le := by
    rintro t k (⟨rfl, hborn, -⟩ | ⟨rfl, hborn⟩ | ⟨rfl, hborn⟩)
    · exact hborn
    · exact hborn
    · exact hborn
  lives_since := by
    rintro t t' k (⟨rfl, _, hend⟩ | ⟨rfl, _⟩ | ⟨rfl, _⟩) hborn ht
    · exact Or.inl ⟨rfl, hborn, by omega⟩
    · exact Or.inr (Or.inl ⟨rfl, hborn⟩)
    · exact Or.inr (Or.inr ⟨rfl, hborn⟩)
  one_bearer := by
    rintro t k k' (⟨rfl, _, _⟩ | ⟨rfl, _⟩ | ⟨rfl, _⟩) (⟨rfl, _, _⟩ | ⟨rfl, _⟩ | ⟨rfl, _⟩) hname <;>
    first | rfl | omega | exact absurd hname (by decide)
  parent_lives := by
    intro k p hparent
    split at hparent
    · subst k
      obtain rfl := Option.some.inj hparent
      exact Or.inl ⟨rfl, by decide, by decide⟩
    · cases hparent
  parent_older := by
    intro k p hparent
    split at hparent
    · subst k
      obtain rfl := Option.some.inj hparent
      decide
    · cases hparent

/-- Two snapshots of that system, one with the parent and one after its pid has been given
again. -/
theorem snapshotsOf_reusedPid {calls : List Call}
    (hcalls : calls.map Call.rawKeys = [[⟨1, 8⟩, ⟨2, 12⟩], [⟨2, 12⟩, ⟨30, 8⟩]])
    (hparents : ∀ c ∈ calls, ∀ p ∈ c.records,
      handleToULong p.inheritedFromUniqueProcessId = reusedPid.parentId p.key) :
    SnapshotsOf reusedPid (fun n => 10 + 30 * n) calls := by
  refine ⟨fun m n hmn => by omega, fun c hc => ?_, fun n c hn k hk => ?_, hparents⟩
  · have hkeys : c.rawKeys ∈ calls.map Call.rawKeys := List.mem_map_of_mem hc
    rw [hcalls] at hkeys
    rcases List.mem_pair.mp hkeys with heq | heq
    · rw [heq]
      decide
    · rw [heq]
      decide
  · have hkeys : (calls.map Call.rawKeys)[n]? = some c.rawKeys := by
      rw [List.getElem?_map, hn]
      rfl
    rw [hcalls] at hkeys
    match n with
    | 0 =>
      rw [← Option.some.inj hkeys] at hk
      rcases List.mem_pair.mp hk with rfl | rfl
      · exact Or.inl ⟨rfl, by decide, by decide⟩
      · exact Or.inr (Or.inl ⟨rfl, by decide⟩)
    | 1 =>
      rw [← Option.some.inj hkeys] at hk
      rcases List.mem_pair.mp hk with rfl | rfl
      · exact Or.inr (Or.inl ⟨rfl, by decide⟩)
      · exact Or.inr (Or.inr ⟨rfl, by decide⟩)
    | n + 2 => cases hkeys

/-- The row of a process does not name the younger process that has got its parent's pid. -/
theorem Session.run_namesParents_reused_pid :
    let child := { SystemProcessInformation.bare 2 12 with inheritedFromUniqueProcessId := 8 }
    let first := (Call.answered .enumProcesses 100 (.bare 1 8) [child]).toEnumWorld
    let second := (Call.answered .enumProcesses 200 child [.bare 30 8]).toEnumWorld
    let readings := fun n => 1000 * (UInt64.ofNat n + 1)
    let s := run .plain readings [.idle first, .idle second]
    s.view.pm.getProcessById 8 = some ⟨2⟩ ∧ parentCell s.view.pm ⟨1⟩ = .parentId 8 := by
  intro child first second readings s
  have hsnapshots : SnapshotsOf reusedPid (fun n => 10 + 30 * n)
      (run .plain readings [.idle first, .idle second]).history.calls :=
    snapshotsOf_reusedPid (by decide +kernel) (by decide +kernel)
  have hnames := run_namesParents .plain readings reusedPid (fun n => 10 + 30 * n)
    [.idle first, .idle second] hsnapshots ⟨1⟩ (by decide +kernel)
  have hgone := hnames.gone ⟨1, 8⟩ (by decide +kernel) (by decide) (by decide +kernel)
  have hcell : ∀ s, s = run .plain readings [.idle first, .idle second] →
      parentCell s.view.pm ⟨1⟩ = .parentId 8 := by
    intro s hs
    rw [hs]
    exact hgone
  exact ⟨by decide +kernel, hcell s rfl⟩

end ProcExpX
