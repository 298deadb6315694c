import ProcExpX.Library.AtEach
import ProcExpX.WinSys.ProcessReports
import ProcExpX.WinSys.ThreadReports

/-!
# The thread list of a process

A threaded call adds the threads of a record to the list kept in the process object.
The list is cleared when the object is built and never again, so it shows the threads
of the last snapshot precisely when the object was new or its list still empty.
-/

namespace WinSys

open Library

/-- The thread list of process `pi` is exact for the record `p`. -/
structure Impl.ThreadsExact (m : Impl) (p : SystemProcessInformation) (pi : Ref ProcessInfo) :
    Prop where
  /-- The list shows the thread records, one by one. -/
  shows : List.Forall₂ (fun t ti => (m.thread ti).Shows t) p.threads (m.process pi).threads
  /-- The objects are those of the thread table, in the same order. -/
  listed : (m.process pi).threads.Sublist m.threads
  /-- No thread is listed twice. -/
  nodup : (m.process pi).threads.Nodup
  /-- The length is the announced number of threads. -/
  length_eq : (m.process pi).threads.length = (m.process pi).threadCount.toNat
  /-- No listed thread is reported terminated. -/
  not_terminated : ∀ ti ∈ (m.process pi).threads, ti ∉ m.terminatedThreads

/-- After call `c` the thread lists of all processes with nonzero pid are exact. -/
def Impl.ThreadListsExact (m : Impl) (c : Call) : Prop :=
  List.Forall₂ (fun p pi => (m.process pi).id ≠ 0 → m.ThreadsExact p pi) c.selected m.processes

/-- Call `c` finds no thread in the lists of the processes with nonzero pid that it
visits again. -/
def Impl.ThreadListsEmpty (m : Impl) (c : Call) : Prop :=
  ∀ p ∈ c.selected, p.key.id ≠ 0 → ∀ pi, m.getProcessByKey p.key = some pi →
    (m.process pi).threads = []

/-- The threads a process has in its list before a call; a process that does not
exist yet has none. -/
def Impl.formerThreads (m : Impl) (pi : Ref ProcessInfo) : List (Ref ThreadInfo) :=
  if m.processHeap.Live pi then (m.process pi).threads else []

section Rebuilt

variable {env : Environment} {m m' : Impl} {c : Call} {ks ts : List ProcessOrThreadKey}
  {recs : List (SystemProcessInformation × List (Ref ThreadInfo))}
  {thr : List (WString × SystemExtendedThreadInformation)} (h : m.Rebuilt env c m' recs thr)
  (hm : m.Tracks ks ts)
include h hm

/-- A call adds the visited threads of a record to those its process has. -/
theorem Impl.Rebuilt.threads_append :
    List.Forall₂ (fun rec pi => (m'.process pi).threads = m.formerThreads pi ++ rec.2) recs
      m'.processes := by
  refine (h.processes_built hm.keyed).imp fun rec pi hbuilt => ?_
  rw [Impl.formerThreads]
  rcases hbuilt with ⟨hlookup, hread⟩ | ⟨hdead, hread⟩
  · rw [if_pos (hm.keyed.processes _ _ hlookup).1, Impl.process, hread]
    rfl
  · have hnew : ∀ pi : ProcessInfo, ((pi.identify env.isElevated rec.1).addThreads rec.2).threads =
        rec.2 := by simp [ProcessInfo.addThreads]
    rw [if_neg hdead, Impl.process, hread, List.nil_append]
    exact hnew (ProcessInfo.make (m.processHeap.read pi))

/-- The visited threads of each process record show its thread records. -/
theorem Impl.Rebuilt.added_show (hthreaded : c.args.includeThreads = true) :
    ∀ rec ∈ recs, List.Forall₂ (fun t ti => (m'.thread ti).Shows t) (c.args.threadsOf rec.1)
      rec.2 := by
  have hshow := h.threads_show hm.keyed hthreaded
  rw [h.threads_eq hthreaded, Call.selectedThreads, ← h.recs_eq, List.flatMap_map] at hshow
  exact forall₂_flatMap_split hshow h.recs_threads

/-- No listed thread is reported terminated by the same threaded call. -/
theorem Impl.Rebuilt.listed_not_terminated (hthreaded : c.args.includeThreads = true) :
    ∀ ti ∈ m'.threads, ti ∉ m'.terminatedThreads := by
  intro ti hlisted hterminated
  have hside := h.threadSide hm.keyed hthreaded
  obtain ⟨k, hlookup, hgone⟩ := hside.mem_removed.mp hterminated
  exact hgone ((hside.known_mem hlookup).mp hlisted)

/-- The thread list of a visited process is exact precisely when it was empty. -/
theorem Impl.Rebuilt.threadsExact_iff (hthreaded : c.args.includeThreads = true)
    {rec : SystemProcessInformation × List (Ref ThreadInfo)} {pi : Ref ProcessInfo}
    (hrec : rec ∈ recs) (hshows : (m'.process pi).Shows rec.1) (hid : rec.1.key.id ≠ 0)
    (hthreads : (m'.process pi).threads = m.formerThreads pi ++ rec.2) :
    m'.ThreadsExact rec.1 pi ↔ m.formerThreads pi = [] := by
  have hall : c.args.threadsOf rec.1 = rec.1.threads := by
    simp [EnumArgs.threadsOf, hthreaded, UInt32.pos_iff_ne_zero, hid]
  have hlength := h.recs_threads rec hrec
  rw [hall] at hlength
  constructor
  · intro hexact
    have heq := hexact.shows.length_eq
    rw [hthreads, List.length_append, hlength] at heq
    exact List.length_eq_zero_iff.mp (by omega)
  · intro hempty
    rw [hempty, List.nil_append] at hthreads
    have hsublist : rec.2.Sublist m'.threads := by
      rw [h.threads_eq hthreaded]
      exact List.sublist_flatten_of_mem (List.mem_map_of_mem hrec)
    have hadded := h.added_show hm hthreaded rec hrec
    rw [hall] at hadded
    refine ⟨hthreads ▸ hadded, hthreads ▸ hsublist, ?_, ?_, ?_⟩
    · rw [hthreads]
      exact (h.tracks hm).threads.all_nodup.sublist hsublist
    · rw [hthreads, hlength, rec.1.threads_length, ← hshows.update_eq]
      rfl
    · rw [hthreads]
      exact fun ti hti => h.listed_not_terminated hm hthreaded ti (hsublist.subset hti)

/-- **One threaded call.** It leaves exact thread lists precisely when it found the
lists of the processes that it visits again empty. -/
theorem Impl.Rebuilt.threadListsExact_iff (hthreaded : c.args.includeThreads = true) :
    m'.ThreadListsExact c ↔ m.ThreadListsEmpty c := by
  have hshows := h.processes_show hm.keyed
  rw [← h.recs_eq, List.forall₂_map_left_iff] at hshows
  have happend := h.threads_append hm
  rw [Impl.ThreadListsExact, ← h.recs_eq, List.forall₂_map_left_iff]
  constructor
  · intro hexact p hp hid pi hlookup
    have hside := h.processSide hm.keyed
    have hlive := (hm.keyed.processes _ _ hlookup).1
    have hkey : (m'.process pi).key = p.key :=
      (hside.keyAt_of_live hlive).trans (hm.keyed.processes _ _ hlookup).2.1
    have hmem : pi ∈ m'.processRoster.all :=
      (hside.known_mem hlookup).mpr (h.map_key ▸ List.mem_map_of_mem hp)
    obtain ⟨rec, hrec, hshow, hthreads, hrecExact⟩ :=
      forall₂_exists_of_mem_right (forall₂_and hshows (forall₂_and happend hexact)) hmem
    have hrecKey : rec.1.key = p.key := hshow.key_eq.symm.trans hkey
    have hempty := (h.threadsExact_iff hm hthreaded hrec hshow (hrecKey ▸ hid) hthreads).mp
      (hrecExact (hshow.id_eq ▸ hrecKey ▸ hid))
    rwa [Impl.formerThreads, if_pos hlive] at hempty
  · intro hempty
    have hbuilt := h.processes_built hm.keyed
    refine forall₂_imp_of_mem (forall₂_and hshows (forall₂_and happend hbuilt))
      fun rec hrec pi _ ⟨hshow, hthreads, hrecBuilt⟩ hpid => ?_
    have hid : rec.1.key.id ≠ 0 := hshow.id_eq ▸ hpid
    refine (h.threadsExact_iff hm hthreaded hrec hshow hid hthreads).mpr ?_
    rw [Impl.formerThreads]
    rcases hrecBuilt with ⟨hlookup, _⟩ | ⟨hdead, _⟩
    · have hselected : rec.1 ∈ c.selected := h.recs_eq ▸ List.mem_map_of_mem hrec
      rw [if_pos (hm.keyed.processes _ _ hlookup).1]
      exact hempty rec.1 hselected hid pi hlookup
    · rw [if_neg hdead]

end Rebuilt

/-- **When thread lists are exact.** In every run, all threaded calls leave exact thread
lists precisely when all of them find the lists of the processes that they visit
again empty. -/
theorem Impl.run_threadListsExact_iff (env : Environment) (rawProcesses : ℕ → ProcessInfo)
    (rawThreads : ℕ → ThreadInfo) (calls : List Call) :
    AtEach (fun before c => c.args.includeThreads = true →
      (Impl.run env rawProcesses rawThreads (before ++ [c])).ThreadListsExact c) calls ↔
      AtEach (fun before c => c.args.includeThreads = true →
        (Impl.run env rawProcesses rawThreads before).ThreadListsEmpty c) calls := by
  refine AtEach.congr (R := fun _ _ => True) (fun _ _ _ _ => trivial) fun before c _ => ?_
  refine forall_congr' fun hthreaded => ?_
  obtain ⟨recs, thr, h⟩ := Impl.run_concat_rebuilt env rawProcesses rawThreads before c
  exact h.threadListsExact_iff (Impl.run_tracks env rawProcesses rawThreads before) hthreaded

/-- After two threaded calls a process with one thread lists it twice. -/
theorem Impl.threads_listed_twice :
    ∃ env rawProcesses rawThreads, ∃ first second : Call,
      (∀ c ∈ [first, second], c.Succeeds ∧ c.Unfiltered ∧ c.args.includeThreads = true) ∧
      ¬ (Impl.run env rawProcesses rawThreads ([first] ++ [second])).ThreadListsExact second := by
  refine ⟨⟨4, false⟩, fun _ => default, fun _ => default,
    .answered (.enumProcessesAndThreads 0 0 0) 100
      ((SystemProcessInformation.bare 1 8).withThread (.bare 3 16 0)) [],
    .answered (.enumProcessesAndThreads 0 0 0) 200
      ((SystemProcessInformation.bare 1 8).withThread (.bare 3 16 0)) [], ?_, ?_⟩
  · intro c hc
    simp only [List.mem_cons, List.not_mem_nil, or_false] at hc
    rcases hc with rfl | rfl <;> exact ⟨Call.answered_succeeds _ _ _ _, rfl, rfl⟩
  · intro h
    have hexact := forall₂_exists_of_mem_right h (b := ⟨0⟩) (by decide)
    obtain ⟨p, _, hp⟩ := hexact
    exact absurd (hp (by decide)).length_eq (by decide)

end WinSys
