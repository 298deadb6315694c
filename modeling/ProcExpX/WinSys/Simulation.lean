import ProcExpX.WinSys.Tables

/-!
# One call of the manager

The loop of `EnumProcesses` visits the selected process records on the process
side and, in a threaded call, the thread records of all of them on the thread
side. A call therefore rebuilds the two rosters from the selected records of its
snapshot; a failed call rebuilds them from no record at all.
-/

namespace WinSys

open Library

section Loop

variable (env : Environment) (args : EnumArgs) (delta : Int64)

/-- `BuildProcessInfo` runs its nested loop over the threads that the record
contributes, starting from the updated or newly built process object. -/
theorem buildProcessInfo_eq (b : Builder) (p : SystemProcessInformation)
    (known : Option (Ref ProcessInfo))
    (hid : ∀ pi, known = some pi → (b.impl.process pi).id = p.key.id) :
    ∃ heap : Heap ProcessInfo,
      buildProcessInfo env args delta b p known =
        ((args.threadsOf p).foldl
          (buildThread env args delta (known.getD b.impl.processHeap.fresh))
          { b with impl := { b.impl with processHeap := heap } },
          known.getD b.impl.processHeap.fresh) ∧
      heap = match known with
        | some pi => b.impl.processHeap.modify pi (·.update p)
        | none => b.impl.processHeap.allocate
            (((ProcessInfo.make (b.impl.processHeap.read b.impl.processHeap.fresh)).identify
              env.isElevated p).update p) := by
  cases known with
  | some pi =>
    refine ⟨_, ?_, rfl⟩
    have hread : ((b.impl.processHeap.modify pi (·.update p)).read pi).id = p.key.id := by
      rw [Heap.modify, Heap.read_write_self]
      exact hid pi rfl
    simp only [buildProcessInfo, Option.getD_some, hread, EnumArgs.threadsOf]
    split <;> rfl
  | none =>
    refine ⟨_, ?_, rfl⟩
    simp only [buildProcessInfo, Option.getD_none, EnumArgs.threadsOf, Heap.modify,
      Heap.read_allocate_fresh, Heap.write_allocate_fresh]
    rw [ProcessInfo.update_id, ProcessInfo.identify_id]
    split <;> rfl

/-- `BuildProcessInfo` leaves the process object updated or newly built, with the
visited threads added, and writes nothing else on the process side. -/
theorem buildProcessInfo_simulates (b : Builder) (p : SystemProcessInformation)
    (known : Option (Ref ProcessInfo))
    (hid : ∀ pi, known = some pi → (b.impl.process pi).id = p.key.id)
    (hthreads : (threadBlueprint env args delta).Keyed b.impl.threadsByKey b.impl.threadHeap) :
    ∃ b' name threads,
      buildProcessInfo env args delta b p known =
        (b', known.getD b.impl.processHeap.fresh) ∧
      threads.length = (args.threadsOf p).length ∧
      b'.threadIntake = b.threadIntake.visitAll (threadBlueprint env args delta)
        ((args.threadsOf p).map fun t => (name, t)) ∧
      b.impl.ThreadFrame b'.impl ∧
      b'.impl.threads = b.impl.threads ++ threads ∧
      b'.impl.processHeap = match known with
        | some pi => b.impl.processHeap.write pi
            (((b.impl.process pi).update p).addThreads threads)
        | none => b.impl.processHeap.allocate ((((ProcessInfo.make
            (b.impl.process b.impl.processHeap.fresh)).identify env.isElevated p).update
              p).addThreads threads) := by
  obtain ⟨heap, heq, hheap⟩ := buildProcessInfo_eq env args delta b p known hid
  obtain ⟨hintake, hframe, threads, hlength, hlist, hfinal⟩ :=
    buildThreads_simulate env args delta (known.getD b.impl.processHeap.fresh)
      { b with impl := { b.impl with processHeap := heap } } (args.threadsOf p) hthreads
  refine ⟨_, _, threads, heq, hlength, hintake, ?_, hlist, ?_⟩
  · exact Impl.ThreadFrame.trans (by constructor <;> rfl) hframe
  · rw [hfinal, hheap]
    cases known <;> simp [Heap.modify, Impl.process]

/-- The loop body leaves the thread side as `BuildProcessInfo` does. -/
theorem enumProcess_threadSide {e : EnumLocals} {p : SystemProcessInformation}
    (hselects : args.selects p = true) {b' : Builder} {pi : Ref ProcessInfo}
    (hbuild : buildProcessInfo env args delta e.toBuilder p
      (e.impl.processesByKey.lookup p.key) = (b', pi)) :
    (enumProcess env args delta e p).threadIntake = b'.threadIntake ∧
      (enumProcess env args delta e p).impl.threads = b'.impl.threads ∧
      (enumProcess env args delta e p).impl.terminatedThreads = b'.impl.terminatedThreads := by
  cases hlookup : e.impl.processesByKey.lookup p.key with
  | none =>
    rw [hlookup] at hbuild
    simp only [enumProcess, if_pos hselects, hlookup, hbuild, EnumLocals.record, and_true]
    rfl
  | some pi2 =>
    rw [hlookup] at hbuild
    simp only [enumProcess, if_pos hselects, hlookup, hbuild, EnumLocals.record, and_true]
    rfl

/-- **One process record.** The loop body visits a selected record on the process
side and the threads it contributes on the thread side. -/
theorem enumProcess_simulates (e : EnumLocals) (p : SystemProcessInformation)
    (hselects : args.selects p = true)
    (hprocs : (processBlueprint env delta).Keyed e.impl.processesByKey e.impl.processHeap)
    (hthreads : (threadBlueprint env args delta).Keyed e.impl.threadsByKey e.impl.threadHeap) :
    ∃ name threads, threads.length = (args.threadsOf p).length ∧
      (enumProcess env args delta e p).processIntake =
        e.processIntake.visit (processBlueprint env delta) (p, threads) ∧
      (enumProcess env args delta e p).threadIntake =
        e.threadIntake.visitAll (threadBlueprint env args delta)
          ((args.threadsOf p).map fun t => (name, t)) ∧
      (enumProcess env args delta e p).impl.threads = e.impl.threads ++ threads ∧
      (enumProcess env args delta e p).impl.terminatedThreads = e.impl.terminatedThreads := by
  cases hlookup : e.impl.processesByKey.lookup p.key with
  | none =>
    obtain ⟨b', name, threads, hbuild, hlength, hintake, hframe, hlist, hheap⟩ :=
      buildProcessInfo_simulates env args delta e.toBuilder p none (by simp) hthreads
    obtain ⟨hintake', hlist', hterminated⟩ :=
      enumProcess_threadSide env args delta hselects (hlookup ▸ hbuild)
    refine ⟨name, threads, hlength, ?_, hintake'.trans hintake, hlist'.trans hlist,
      hterminated.trans hframe.terminatedThreads⟩
    have hvisit : e.processIntake.known.lookup
        ((processBlueprint env delta).key (p, threads)) = none := hlookup
    rw [Intake.visit, hvisit]
    simp only [enumProcess, if_pos hselects, hlookup, hbuild, EnumLocals.record,
      EnumLocals.processIntake, Option.getD_none, Impl.process, hheap, Heap.modify,
      Heap.read_allocate_fresh, Heap.write_allocate_fresh, hframe.processesByKey,
      hframe.processesById, hframe.newProcesses, ProcessInfo.setCpu_id,
      ProcessInfo.addThreads_id, ProcessInfo.update_id, ProcessInfo.identify_id]
    rfl
  | some pi =>
    have hid : (e.impl.process pi).id = p.key.id := (hprocs _ _ hlookup).2.2
    obtain ⟨b', name, threads, hbuild, hlength, hintake, hframe, hlist, hheap⟩ :=
      buildProcessInfo_simulates env args delta e.toBuilder p (some pi)
        (fun pi' h => by cases h; exact hid) hthreads
    obtain ⟨hintake', hlist', hterminated⟩ :=
      enumProcess_threadSide env args delta hselects (hlookup ▸ hbuild)
    refine ⟨name, threads, hlength, ?_, hintake'.trans hintake, hlist'.trans hlist,
      hterminated.trans hframe.terminatedThreads⟩
    have hvisit : e.processIntake.known.lookup
        ((processBlueprint env delta).key (p, threads)) = some pi := hlookup
    rw [Intake.visit, hvisit]
    simp only [enumProcess, if_pos hselects, hlookup, hbuild, EnumLocals.record,
      EnumLocals.processIntake, Option.getD_some, Impl.process, hheap, Heap.modify,
      Heap.read_write_self, Heap.write_write, hframe.processesByKey,
      hframe.processesById, hframe.newProcesses, ProcessInfo.setCpu_id,
      ProcessInfo.addThreads_id, ProcessInfo.update_id]
    rw [show (e.impl.processHeap.read pi).id = p.key.id from hid]
    rfl

/-- **All process records.** The loop visits the selected records in order on the
process side, and the threads they contribute on the thread side. -/
theorem enumProcess_loop_simulates (e : EnumLocals) (ps : List SystemProcessInformation)
    (hprocs : (processBlueprint env delta).Keyed e.impl.processesByKey e.impl.processHeap)
    (hthreads : (threadBlueprint env args delta).Keyed e.impl.threadsByKey e.impl.threadHeap) :
    ∃ recs thr, recs.map Prod.fst = ps.filter args.selects ∧
      (∀ rec ∈ recs, rec.2.length = (args.threadsOf rec.1).length) ∧
      thr.map Prod.snd = (ps.filter args.selects).flatMap args.threadsOf ∧
      (ps.foldl (enumProcess env args delta) e).processIntake =
        e.processIntake.visitAll (processBlueprint env delta) recs ∧
      (ps.foldl (enumProcess env args delta) e).threadIntake =
        e.threadIntake.visitAll (threadBlueprint env args delta) thr ∧
      (ps.foldl (enumProcess env args delta) e).impl.threads =
        e.impl.threads ++ recs.flatMap Prod.snd ∧
      (ps.foldl (enumProcess env args delta) e).impl.terminatedThreads =
        e.impl.terminatedThreads := by
  induction ps generalizing e with
  | nil => exact ⟨[], [], rfl, by simp, rfl, rfl, rfl, by simp, rfl⟩
  | cons p ps ih =>
    rw [List.foldl_cons, List.filter_cons]
    by_cases hselects : args.selects p = true
    · rw [if_pos hselects]
      obtain ⟨name, threads, hlength, hproc, hthread, hlist, hterm⟩ :=
        enumProcess_simulates env args delta e p hselects hprocs hthreads
      have hprocs' := Intake.visit_known_keyed (t := e.processIntake) hprocs (p, threads)
      rw [← hproc] at hprocs'
      have hthreads' := Intake.visitAll_known_keyed (t := e.threadIntake) hthreads
        ((args.threadsOf p).map fun t => (name, t))
      rw [← hthread] at hthreads'
      obtain ⟨recs, thr, hrecs, hlengths, hthr, hproc', hthread', hlist', hterm'⟩ :=
        ih _ hprocs' hthreads'
      refine ⟨(p, threads) :: recs, ((args.threadsOf p).map fun t => (name, t)) ++ thr, ?_, ?_, ?_,
        ?_, ?_, ?_, hterm'.trans hterm⟩
      · rw [List.map_cons, hrecs]
      · intro rec hrec
        rcases List.mem_cons.mp hrec with rfl | hrec
        · exact hlength
        · exact hlengths rec hrec
      · rw [List.map_append, hthr, List.flatMap_cons, List.map_map]
        simp [Function.comp_def]
      · rw [hproc', hproc]
        rfl
      · rw [hthread', hthread, Intake.visitAll_append]
      · rw [hlist', hlist, List.flatMap_cons, List.append_assoc]
    · rw [if_neg hselects]
      have hskip : enumProcess env args delta e p = e := by
        rw [enumProcess, if_neg hselects]
      rw [hskip]
      exact ih e hprocs hthreads

end Loop

/-- The system answered with a snapshot. -/
def Call.Succeeds (c : Call) : Prop := ∃ snapshot, c.answer = .success snapshot

/-- The records of the raw snapshot, none when the system reports failure. -/
def Call.records (c : Call) : List SystemProcessInformation :=
  match c.answer with
  | .success snapshot => snapshot.records
  | .failure => []

/-- The process records that a call visits: those of its snapshot that pass the
filter. -/
def Call.selected (c : Call) : List SystemProcessInformation := c.records.filter c.args.selects

/-- The thread records that a call visits. -/
def Call.selectedThreads (c : Call) : List SystemExtendedThreadInformation :=
  c.selected.flatMap c.args.threadsOf

/-- Every object the manager finds by key carries that key. -/
structure Impl.Keyed (m : Impl) : Prop where
  /-- Processes found by key. -/
  processes : ∀ key pi, m.processesByKey.lookup key = some pi →
    m.processHeap.Live pi ∧ (m.process pi).key = key ∧ (m.process pi).id = key.id
  /-- Threads found by key. -/
  threads : ∀ key ti, m.threadsByKey.lookup key = some ti →
    m.threadHeap.Live ti ∧ (m.thread ti).key = key ∧ (m.thread ti).id = key.id

/-- The process blueprint of a call. -/
abbrev Call.processBlueprint (env : Environment) (m : Impl) (c : Call) :=
  WinSys.processBlueprint env (c.ticks - m.prevTicks)

/-- The thread blueprint of a call. -/
abbrev Call.threadBlueprint (env : Environment) (m : Impl) (c : Call) :=
  WinSys.threadBlueprint env c.args (c.ticks - m.prevTicks)

/-- What a call does to the tables: it rebuilds the process roster from the
selected records and, when threaded, the thread roster from their threads. -/
structure Impl.Rebuilt (env : Environment) (m : Impl) (c : Call) (m' : Impl)
    (recs : List (SystemProcessInformation × List (Ref ThreadInfo)))
    (thr : List (WString × SystemExtendedThreadInformation)) : Prop where
  /-- The process records are the selected ones. -/
  recs_eq : recs.map Prod.fst = c.selected
  /-- Each process gets one thread object for each thread record it contributes. -/
  recs_threads : ∀ rec ∈ recs, rec.2.length = (c.args.threadsOf rec.1).length
  /-- The thread records are those of the selected processes. -/
  thr_eq : thr.map Prod.snd = c.selectedThreads
  /-- The process side. -/
  processRoster : m'.processRoster =
    m.processRoster.rebuild (c.processBlueprint env m) c.processOrder recs
  /-- The thread side. -/
  threadRoster : m'.threadRoster =
    if c.args.includeThreads then
      m.threadRoster.rebuild (c.threadBlueprint env m) c.threadOrder thr
    else m.threadRoster
  /-- The thread list is made up of the threads added to the processes. -/
  threads_eq : c.args.includeThreads = true → m'.threads = recs.flatMap Prod.snd
  /-- The tick count is the last reading. -/
  prevTicks : m'.prevTicks = c.ticks

/-- A call that is not threaded visits no thread. -/
theorem EnumArgs.threadsOf_unthreaded {args : EnumArgs} (h : args.includeThreads = false)
    (p : SystemProcessInformation) : args.threadsOf p = [] := by
  simp [EnumArgs.threadsOf, h]

/-- The process side before the loop: the old table, unmatched. -/
theorem Impl.locals_processIntake (m : Impl) (includeThreads : Bool) :
    (m.locals includeThreads).processIntake = Intake.start m.processesByKey m.processHeap := by
  cases includeThreads <;> rfl

/-- The thread side before the loop of a threaded call: the old table, unmatched. -/
theorem Impl.locals_threadIntake (m : Impl) :
    (m.locals true).threadIntake = Intake.start m.threadsByKey m.threadHeap := rfl

/-- The process tables at the end of a call. -/
private theorem EnumLocals.finish_processRoster (e : EnumLocals) (args : EnumArgs)
    (world : EnumWorld) : (e.finish args world).processRoster =
      { byKey := e.processIntake.byKey, byId := e.processIntake.byId
        all := e.processIntake.listed, added := e.processIntake.added
        removed := e.processIntake.known.values world.processOrder
        heap := e.processIntake.heap } := by
  unfold finish
  cases args.includeThreads <;> rfl

/-- The thread tables at the end of a threaded call. -/
private theorem EnumLocals.finish_threadRoster (e : EnumLocals) {args : EnumArgs}
    (world : EnumWorld) (hthreaded : args.includeThreads = true) :
    (e.finish args world).threadRoster =
      { byKey := e.threadIntake.byKey, byId := e.threadIntake.byId
        all := e.threadIntake.listed, added := e.threadIntake.added
        removed := e.threadIntake.known.values world.threadOrder
        heap := e.threadIntake.heap } := by
  unfold finish
  rw [hthreaded]
  rfl

/-- The thread tables at the end of an unthreaded call. -/
private theorem EnumLocals.finish_threadRoster_unthreaded (e : EnumLocals) {args : EnumArgs}
    (world : EnumWorld) (hthreaded : args.includeThreads = false) :
    (e.finish args world).threadRoster =
      { byKey := e.threadIntake.known, byId := e.threadIntake.byId
        all := e.threadIntake.listed, added := e.threadIntake.added
        removed := e.impl.terminatedThreads, heap := e.threadIntake.heap } := by
  unfold finish
  rw [hthreaded]
  rfl

/-- The list of threads at the end of a threaded call. -/
private theorem EnumLocals.finish_threads (e : EnumLocals) {args : EnumArgs} (world : EnumWorld)
    (hthreaded : args.includeThreads = true) : (e.finish args world).threads = e.impl.threads := by
  unfold finish
  rw [hthreaded]
  rfl

/-- **Simulation.** Every call rebuilds the two rosters. -/
theorem Impl.step_rebuilt (env : Environment) {m : Impl} (hm : m.Keyed) (c : Call) :
    ∃ recs thr, m.Rebuilt env c (m.step env c) recs thr := by
  have hprocs : (c.processBlueprint env m).Keyed
      (m.locals c.args.includeThreads).impl.processesByKey
      (m.locals c.args.includeThreads).impl.processHeap := by
    cases c.args.includeThreads <;> exact hm.processes
  have hthreads : (c.threadBlueprint env m).Keyed
      (m.locals c.args.includeThreads).impl.threadsByKey
      (m.locals c.args.includeThreads).impl.threadHeap := by
    cases c.args.includeThreads <;> exact hm.threads
  obtain ⟨recs, thr, hrecs, hlengths, hthr, hproc, hthread, hlist, hterm⟩ :=
    enumProcess_loop_simulates env c.args (c.ticks - m.prevTicks)
      (m.locals c.args.includeThreads) c.records hprocs hthreads
  set e := c.records.foldl (enumProcess env c.args (c.ticks - m.prevTicks))
    (m.locals c.args.includeThreads) with he
  have hstep : m.step env c = e.finish c.args c.toEnumWorld := by
    rw [he, Impl.step, Impl.enumProcesses, Call.records]
    cases c.answer <;> rfl
  rw [Impl.locals_processIntake] at hproc
  refine ⟨recs, thr, hrecs, hlengths, hthr, ?_, ?_, ?_, ?_⟩
  · rw [hstep, e.finish_processRoster, hproc]
    rfl
  · rw [hstep]
    cases hthreaded : c.args.includeThreads with
    | true =>
      rw [hthreaded, Impl.locals_threadIntake] at hthread
      rw [if_pos rfl, e.finish_threadRoster _ hthreaded, hthread]
      rfl
    | false =>
      have hnil : thr = [] := by
        rw [← List.map_eq_nil_iff (f := Prod.snd), hthr]
        simp [EnumArgs.threadsOf_unthreaded hthreaded]
      subst hnil
      rw [hthreaded] at hthread hterm
      rw [if_neg Bool.false_ne_true, e.finish_threadRoster_unthreaded _ hthreaded, hthread, hterm]
      rfl
  · intro hthreaded
    rw [hthreaded] at hlist
    rw [hstep, e.finish_threads _ hthreaded, hlist]
    rfl
  · rw [hstep]
    rfl

end WinSys
