import ProcExpX.WinSys.Runs

/-!
# Lookups by id and by key

The list, the map by id and the map by key are filled at different places and in
different ways. In every state between calls they hold the same objects, each under
its own id and key, as long as no snapshot lists an id twice. Filters, threaded and
unthreaded calls and failures may be mixed freely.
-/

namespace WinSys

open Library

/-- The key of a process object is made up of its creation time and id. -/
def ProcessInfo.KeyMade (pi : ProcessInfo) : Prop := pi.key = ⟨pi.createTime, pi.id⟩

/-- The key of a thread object is made up of its creation time and id. -/
def ThreadInfo.KeyMade (ti : ThreadInfo) : Prop := ti.key = ⟨ti.createTime.toInt64, ti.id⟩

/-- All lookups of the manager agree with its lists. -/
structure Impl.LookupsAgree (m : Impl) : Prop where
  /-- A process is found by id precisely when it is listed with that id. -/
  processById : ∀ i pi, m.getProcessById i = some pi ↔ pi ∈ m.processes ∧ (m.process pi).id = i
  /-- A process is found by key precisely when it is listed with that key. -/
  processByKey : ∀ k pi, m.getProcessByKey k = some pi ↔
    pi ∈ m.processes ∧ (m.process pi).key = k
  /-- The key of a listed process is its creation time and id. -/
  process_keyMade : ∀ pi ∈ m.processes, (m.process pi).KeyMade
  /-- All lookups of a listed process return that process. -/
  process_same : ∀ pi ∈ m.processes, m.getProcessById (m.process pi).id = some pi ∧
    m.getProcessByKey (m.process pi).key = some pi
  /-- A thread is in the map by id precisely when it is listed with that id. -/
  threadById : ∀ i ti, m.threadsById.lookup i = some ti ↔
    ti ∈ m.threads ∧ (m.thread ti).id = i
  /-- A thread is found by key precisely when it is listed with that key. -/
  threadByKey : ∀ k ti, m.getThreadByKey k = some ti ↔ ti ∈ m.threads ∧ (m.thread ti).key = k
  /-- The key of a listed thread is its creation time and id. -/
  thread_keyMade : ∀ ti ∈ m.threads, (m.thread ti).KeyMade

/-- No id is listed twice in the snapshot of a call: no pid, and no thread id among
the processes with nonzero pid. -/
structure Call.IdsDistinct (c : Call) : Prop where
  /-- The pids. -/
  pids : (c.records.map (·.key.id)).Nodup
  /-- The thread ids. -/
  tids : (c.processThreads.map (·.key.id)).Nodup

/-- The ids of the keys a call visits are distinct. -/
theorem Call.IdsDistinct.keys {c : Call} (h : c.IdsDistinct) : (c.keys.map (·.id)).Nodup := by
  rw [Call.keys, List.map_map]
  exact h.pids.sublist (List.filter_sublist.map _)

/-- The ids of the thread keys a call visits are distinct. -/
theorem Call.IdsDistinct.threadKeys {c : Call} (h : c.IdsDistinct) :
    (c.threadKeys.map (·.id)).Nodup := by
  rw [Call.threadKeys, List.map_map]
  exact h.tids.sublist (c.selectedThreads_sublist.map _)

/-- Tracked objects with distinct ids are found under their own id and key. -/
theorem Impl.Tracks.lookupsAgree {m : Impl} {ks ts : List ProcessOrThreadKey}
    (hm : m.Tracks ks ts) (hks : (ks.map (·.id)).Nodup) (hts : (ts.map (·.id)).Nodup)
    (hprocesses : ∀ pi ∈ m.processes, (m.process pi).KeyMade)
    (hthreads : ∀ ti ∈ m.threads, (m.thread ti).KeyMade) : m.LookupsAgree := by
  have hid : ∀ i pi, m.getProcessById i = some pi ↔ pi ∈ m.processes ∧ (m.process pi).id = i :=
    fun i pi => hm.processes.lookup_id_iff hks
  have hkey : ∀ k pi, m.getProcessByKey k = some pi ↔
      pi ∈ m.processes ∧ (m.process pi).key = k :=
    fun k pi => hm.processes.lookup_iff hks.of_map
  exact ⟨hid, hkey, hprocesses,
    fun pi hpi => ⟨(hid _ pi).mpr ⟨hpi, rfl⟩, (hkey _ pi).mpr ⟨hpi, rfl⟩⟩,
    fun i ti => hm.threads.lookup_id_iff hts, fun k ti => hm.threads.lookup_iff hts.of_map,
    hthreads⟩

section Rebuilt

variable {env : Environment} {m m' : Impl} {c : Call} {ks ts : List ProcessOrThreadKey}
  {recs : List (SystemProcessInformation × List (Ref ThreadInfo))}
  {thr : List (WString × SystemExtendedThreadInformation)} (h : m.Rebuilt env c m' recs thr)
include h

/-- Whatever new process objects have and updates preserve, listed processes have
after a call if they had it before. -/
theorem Impl.Rebuilt.processes_forall {P : ProcessInfo → Prop} (hm : m.Tracks ks ts)
    (hcreate : ∀ rec raw, P ((c.processBlueprint env m).create rec raw))
    (hrefresh : ∀ rec pi, P pi → P ((c.processBlueprint env m).refresh rec pi))
    (hbefore : ∀ pi ∈ m.processes, P (m.process pi)) :
    ∀ pi ∈ m'.processes, P (m'.process pi) :=
  (h.processSide hm.keyed).forall_all hcreate hrefresh fun k pi hlookup =>
    hbefore pi (hm.processes.byKey_mem k pi hlookup)

/-- Whatever new thread objects have and updates preserve, listed threads have after
a call if they had it before. -/
theorem Impl.Rebuilt.threads_forall {P : ThreadInfo → Prop} (hm : m.Tracks ks ts)
    (hcreate : ∀ rec raw, P ((c.threadBlueprint env m).create rec raw))
    (hrefresh : ∀ rec ti, P ti → P ((c.threadBlueprint env m).refresh rec ti))
    (hbefore : ∀ ti ∈ m.threads, P (m.thread ti)) :
    ∀ ti ∈ m'.threads, P (m'.thread ti) := by
  cases hthreaded : c.args.includeThreads with
  | true =>
    exact (h.threadSide hm.keyed hthreaded).forall_all hcreate hrefresh fun k ti hlookup =>
      hbefore ti (hm.threads.byKey_mem k ti hlookup)
  | false =>
    have heq := h.threadRoster_unthreaded hthreaded
    have hall : ∀ ti ∈ m.threadRoster.all, P (m.threadRoster.heap.read ti) := hbefore
    rw [← heq] at hall
    exact hall

end Rebuilt

/-- A new process object makes up its key from its creation time and id. -/
private theorem ProcessInfo.identify_keyMade (pi : ProcessInfo) (extended : Bool)
    (info : SystemProcessInformation) : (pi.identify extended info).KeyMade := by
  unfold ProcessInfo.KeyMade ProcessInfo.identify
  dsimp only
  split <;> rfl

section Run

variable (env : Environment) (rawProcesses : ℕ → ProcessInfo) (rawThreads : ℕ → ThreadInfo)

/-- In every reachable state listed objects make up their keys from creation time
and id. -/
theorem Impl.run_keyMade (calls : List Call) :
    (∀ pi ∈ (Impl.run env rawProcesses rawThreads calls).processes,
      ((Impl.run env rawProcesses rawThreads calls).process pi).KeyMade) ∧
    (∀ ti ∈ (Impl.run env rawProcesses rawThreads calls).threads,
      ((Impl.run env rawProcesses rawThreads calls).thread ti).KeyMade) := by
  induction calls using List.reverseRecOn with
  | nil => simp [Impl.run, Impl.initial]
  | append_singleton calls c ih =>
    obtain ⟨recs, thr, h⟩ := Impl.run_concat_rebuilt env rawProcesses rawThreads calls c
    have hm := Impl.run_tracks env rawProcesses rawThreads calls
    refine ⟨h.processes_forall hm (fun rec raw => ?_) (fun rec pi hpi => hpi) ih.1,
      h.threads_forall hm (fun rec raw => ?_) (fun rec ti hti => hti) ih.2⟩
    · exact ProcessInfo.identify_keyMade (ProcessInfo.make raw) env.isElevated rec.1
    · simp [ThreadInfo.KeyMade, threadBlueprint, ThreadInfo.setCpu, ThreadInfo.update,
        ThreadInfo.identify, SystemExtendedThreadInformation.key]

/-- **Lookups agree in every reachable state**, for any arguments, any mix of
successful and failed calls, and snapshots that list no id twice. -/
theorem Impl.run_lookupsAgree (calls : List Call) (hcalls : ∀ c ∈ calls, c.IdsDistinct) :
    (Impl.run env rawProcesses rawThreads calls).LookupsAgree := by
  have hks : ((heldKeys calls).map (·.id)).Nodup :=
    heldKeys_forall (P := fun ks => (ks.map (·.id)).Nodup) List.nodup_nil fun c hc =>
      (hcalls c hc).keys
  have hts : ((heldThreadKeys calls).map (·.id)).Nodup :=
    heldThreadKeys_forall (P := fun ts => (ts.map (·.id)).Nodup) List.nodup_nil fun c hc =>
      (hcalls c hc).threadKeys
  obtain ⟨hprocesses, hthreads⟩ := Impl.run_keyMade env rawProcesses rawThreads calls
  exact (Impl.run_tracks env rawProcesses rawThreads calls).lookupsAgree hks hts hprocesses
    hthreads

end Run

/-- A threaded call, a call for one pid, a failed call and an unthreaded call in a row
leave lookups that agree. -/
theorem Impl.run_lookupsAgree_mixed :
    (Impl.run ⟨4, true⟩ (fun _ => default) (fun _ => default)
      [.answered (.enumProcessesAndThreads 0 0 0) 100
          ((SystemProcessInformation.bare 1 8).withThread (.bare 3 16 0)) [.bare 1 12],
        .answered (.enumProcessesAndThreads 12 64 64) 200 (.bare 1 8) [.bare 1 12],
        .failed (.enumProcessesAndThreads 0 0 0) 300,
        .answered .enumProcesses 400 (.bare 2 8) [.bare 1 12]]).LookupsAgree := by
  refine Impl.run_lookupsAgree _ _ _ _ fun c hc => ?_
  simp only [List.mem_cons, List.not_mem_nil, or_false] at hc
  rcases hc with rfl | rfl | rfl | rfl <;> exact ⟨by decide, by decide⟩

end WinSys
