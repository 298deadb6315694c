import ProcExpX.WinSys.Simulation

/-!
# Runs of the manager

What the manager tracks after any run of calls is determined by the last call on
the process side, and by the last threaded call on the thread side. This file
names these keys and proves that the two rosters hold them in every reachable
state, whatever the arguments, answers and orders of the calls.
-/

namespace WinSys

open Library

/-- The keys of the raw snapshot of a call, in order. -/
def Call.rawKeys (c : Call) : List ProcessOrThreadKey := c.records.map (·.key)

/-- The keys of the process records that a call visits, in order. -/
def Call.keys (c : Call) : List ProcessOrThreadKey := c.selected.map (·.key)

/-- The thread records of the processes with nonzero pid in the raw snapshot of a call. -/
def Call.processThreads (c : Call) : List SystemExtendedThreadInformation :=
  (c.records.filter (fun p => p.key.id ≠ 0)).flatMap (·.threads)

/-- The keys of all thread records in the raw snapshot of a call. -/
def Call.rawThreadKeys (c : Call) : List ProcessOrThreadKey :=
  (c.records.flatMap (·.threads)).map (·.key)

/-- The keys of the thread records that a call visits, in order. -/
def Call.threadKeys (c : Call) : List ProcessOrThreadKey := c.selectedThreads.map (·.key)

/-- A call that the system answers with a snapshot of the given records. -/
def Call.answered (api : Api) (ticks : Int64) (p : SystemProcessInformation)
    (ps : List SystemProcessInformation) : Call :=
  { api := api, ticks := ticks, answer := .success ⟨p :: ps, List.cons_ne_nil p ps⟩
    processOrder := .stored, threadOrder := .stored }

/-- Such a call succeeds. -/
theorem Call.answered_succeeds (api : Api) (ticks : Int64) (p : SystemProcessInformation)
    (ps : List SystemProcessInformation) : (Call.answered api ticks p ps).Succeeds := ⟨_, rfl⟩

/-- A call that the system answers with a failure status. -/
def Call.failed (api : Api) (ticks : Int64) : Call :=
  { api := api, ticks := ticks, answer := .failure,
    processOrder := .stored, threadOrder := .stored }

/-- A call for all processes. -/
def Call.Unfiltered (c : Call) : Prop := c.args.pid = 0

/-- The keys of the last raw snapshot of a run, none before any call. -/
def lastRawKeys (calls : List Call) : List ProcessOrThreadKey :=
  (calls.getLast?.map Call.rawKeys).getD []

/-- The thread keys of the last raw snapshot of a run, none before any call. -/
def lastRawThreadKeys (calls : List Call) : List ProcessOrThreadKey :=
  (calls.getLast?.map Call.rawThreadKeys).getD []

/-- The process keys that the last call of a run visited, none before any call. -/
def heldKeys (calls : List Call) : List ProcessOrThreadKey :=
  (calls.getLast?.map Call.keys).getD []

/-- The thread keys that the last threaded call of a run visited, none before any. -/
def heldThreadKeys (calls : List Call) : List ProcessOrThreadKey :=
  ((calls.filter (·.args.includeThreads)).getLast?.map Call.threadKeys).getD []

/-- After one more call its keys are held. -/
@[simp] theorem heldKeys_concat (calls : List Call) (c : Call) :
    heldKeys (calls ++ [c]) = c.keys := by
  simp [heldKeys]

/-- After one more call its thread keys are held if it is threaded. -/
theorem heldThreadKeys_concat (calls : List Call) (c : Call) :
    heldThreadKeys (calls ++ [c]) =
      if c.args.includeThreads then c.threadKeys else heldThreadKeys calls := by
  cases hthreaded : c.args.includeThreads <;> simp [heldThreadKeys, hthreaded]

/-- An unfiltered call visits all records. -/
theorem Call.Unfiltered.selected_eq {c : Call} (hc : c.Unfiltered) : c.selected = c.records := by
  refine List.filter_eq_self.mpr fun p _ => ?_
  simp [EnumArgs.selects, show c.args.pid = 0 from hc]

/-- An unfiltered call visits all keys. -/
theorem Call.Unfiltered.keys_eq {c : Call} (hc : c.Unfiltered) : c.keys = c.rawKeys := by
  rw [Call.keys, hc.selected_eq, Call.rawKeys]

private theorem flatMap_sublist_flatMap {β γ : Type} {f g : β → List γ} {l : List β}
    (h : ∀ b ∈ l, (f b).Sublist (g b)) : (l.flatMap f).Sublist (l.flatMap g) := by
  induction l with
  | nil => simp
  | cons b l ih =>
    simp only [List.flatMap_cons]
    exact (h b (by simp)).append (ih fun b' hb' => h b' (by simp [hb']))

/-- The threads a record contributes are its own. -/
theorem EnumArgs.threadsOf_sublist (args : EnumArgs) (p : SystemProcessInformation) :
    (args.threadsOf p).Sublist (if p.key.id ≠ 0 then p.threads else []) := by
  unfold EnumArgs.threadsOf
  by_cases hid : p.key.id = 0
  · simp [hid]
  · rw [if_pos hid]
    split
    · exact List.Sublist.refl _
    · exact List.nil_sublist _

private theorem flatMap_filter_eq {β γ : Type} (P : β → Prop) [DecidablePred P] (f : β → List γ)
    (l : List β) : (l.filter P).flatMap f = l.flatMap fun b => if P b then f b else [] := by
  induction l with
  | nil => rfl
  | cons b l ih => by_cases hb : P b <;> simp [hb, ih]

/-- A call visits only threads of processes with nonzero pid. -/
theorem Call.selectedThreads_sublist (c : Call) : c.selectedThreads.Sublist c.processThreads := by
  have hselected : c.selectedThreads =
      c.records.flatMap fun p => if c.args.selects p = true then c.args.threadsOf p else [] := by
    rw [← flatMap_filter_eq]
    simp [Call.selectedThreads, Call.selected]
  rw [hselected, Call.processThreads, flatMap_filter_eq]
  refine flatMap_sublist_flatMap fun p _ => ?_
  split
  · exact c.args.threadsOf_sublist p
  · exact List.nil_sublist _

/-- An unfiltered threaded call visits all threads of processes with nonzero pid. -/
theorem Call.Unfiltered.selectedThreads_eq {c : Call} (hc : c.Unfiltered)
    (hthreaded : c.args.includeThreads = true) : c.selectedThreads = c.processThreads := by
  rw [Call.selectedThreads, hc.selected_eq, Call.processThreads, flatMap_filter_eq]
  refine congrArg (List.flatMap · c.records) (funext fun p => ?_)
  simp [EnumArgs.threadsOf, hthreaded, UInt32.pos_iff_ne_zero]

/-- A list found at the last call of a run has every property that it has at all
calls, and that the empty list has. -/
private theorem getLast?_getD_of_forall {β : Type} {P : List β → Prop} (hnil : P [])
    {f : Call → List β} {calls : List Call} (h : ∀ c ∈ calls, P (f c)) :
    P ((calls.getLast?.map f).getD []) := by
  cases hlast : calls.getLast? with
  | none => exact hnil
  | some c => exact h c (List.mem_of_getLast? hlast)

/-- The held keys have every property that the keys of all calls have. -/
theorem heldKeys_forall {P : List ProcessOrThreadKey → Prop} (hnil : P []) {calls : List Call}
    (h : ∀ c ∈ calls, P c.keys) : P (heldKeys calls) :=
  getLast?_getD_of_forall hnil h

/-- The held thread keys have every property that the thread keys of all calls have. -/
theorem heldThreadKeys_forall {P : List ProcessOrThreadKey → Prop} (hnil : P [])
    {calls : List Call} (h : ∀ c ∈ calls, P c.threadKeys) : P (heldThreadKeys calls) :=
  getLast?_getD_of_forall hnil fun c hc => h c (List.mem_of_mem_filter hc)

/-- The last snapshot of a run has each key once when all snapshots do. -/
theorem lastRawKeys_nodup {calls : List Call} (honce : ∀ c ∈ calls, c.rawKeys.Nodup) :
    (lastRawKeys calls).Nodup :=
  getLast?_getD_of_forall List.nodup_nil honce

/-- After unfiltered calls all keys of the last snapshot are held. -/
theorem heldKeys_eq_lastRawKeys {calls : List Call} (h : ∀ c ∈ calls, c.Unfiltered) :
    heldKeys calls = lastRawKeys calls := by
  unfold heldKeys lastRawKeys
  cases hlast : calls.getLast? with
  | none => rfl
  | some c => exact (h c (List.mem_of_getLast? hlast)).keys_eq

/-- The manager tracks processes with the keys `ks` and threads with the keys `ts`. -/
structure Impl.Tracks (m : Impl) (ks ts : List ProcessOrThreadKey) : Prop where
  /-- The process side. -/
  processes : m.processRoster.Holds processIdentity ks
  /-- The thread side. -/
  threads : m.threadRoster.Holds threadIdentity ts

/-- A new manager tracks nothing. -/
theorem Impl.initial_tracks (rawProcesses : ℕ → ProcessInfo) (rawThreads : ℕ → ThreadInfo) :
    (Impl.initial rawProcesses rawThreads).Tracks [] [] :=
  ⟨Roster.Holds.empty _ rfl rfl rfl, Roster.Holds.empty _ rfl rfl rfl⟩

/-- Tracked objects carry the keys they are found under. -/
theorem Impl.Tracks.keyed {m : Impl} {ks ts : List ProcessOrThreadKey} (hm : m.Tracks ks ts) :
    m.Keyed :=
  ⟨hm.processes.keyed, hm.threads.keyed⟩

section Rebuilt

variable {env : Environment} {m m' : Impl} {c : Call}
  {recs : List (SystemProcessInformation × List (Ref ThreadInfo))}
  {thr : List (WString × SystemExtendedThreadInformation)} (h : m.Rebuilt env c m' recs thr)
include h

/-- The keys of the process side are those of the visited process records. -/
theorem Impl.Rebuilt.map_key : recs.map (c.processBlueprint env m).key = c.keys := by
  rw [Call.keys, ← h.recs_eq, List.map_map]
  rfl

/-- The keys of the thread side are those of the visited thread records. -/
theorem Impl.Rebuilt.map_thread_key : thr.map (c.threadBlueprint env m).key = c.threadKeys := by
  rw [Call.threadKeys, ← h.thr_eq, List.map_map]
  rfl

/-- The process side of a call is a rebuild. -/
theorem Impl.Rebuilt.processSide (hm : m.Keyed) :
    m.processRoster.RebuildsTo (c.processBlueprint env m) c.processOrder recs m'.processRoster :=
  ⟨hm.processes, h.processRoster⟩

/-- The thread side of a threaded call is a rebuild. -/
theorem Impl.Rebuilt.threadSide (hm : m.Keyed) (hthreaded : c.args.includeThreads = true) :
    m.threadRoster.RebuildsTo (c.threadBlueprint env m) c.threadOrder thr m'.threadRoster :=
  ⟨hm.threads, by rw [h.threadRoster, if_pos hthreaded]⟩

/-- The thread side of a call that is not threaded. -/
theorem Impl.Rebuilt.threadRoster_unthreaded (hthreaded : c.args.includeThreads = false) :
    m'.threadRoster = m.threadRoster := by
  rw [h.threadRoster, if_neg (by simp [hthreaded])]

/-- **Step.** After a call the manager tracks the keys that the call visited. -/
theorem Impl.Rebuilt.tracks {ks ts : List ProcessOrThreadKey} (hm : m.Tracks ks ts) :
    m'.Tracks c.keys (if c.args.includeThreads then c.threadKeys else ts) := by
  refine ⟨?_, ?_⟩
  · rw [← h.map_key]
    exact (h.processSide hm.keyed).holds
  · cases hthreaded : c.args.includeThreads with
    | true =>
      rw [if_pos rfl, ← h.map_thread_key]
      exact (h.threadSide hm.keyed hthreaded).holds
    | false =>
      rw [h.threadRoster_unthreaded hthreaded, if_neg Bool.false_ne_true]
      exact hm.threads

end Rebuilt

/-- A call leaves alone what no record updates of an existing process object. -/
theorem Impl.step_constant {β : Type} {f : ProcessInfo → β} (env : Environment) {m : Impl}
    (hm : m.Keyed) (c : Call)
    (hf : ∀ rec pi, f ((c.processBlueprint env m).refresh rec pi) = f pi)
    {pi : Ref ProcessInfo} (hlive : m.processHeap.Live pi) :
    f ((m.step env c).process pi) = f (m.process pi) := by
  obtain ⟨recs, thr, h⟩ := Impl.step_rebuilt env hm c
  exact (h.processSide hm).constant hf hlive

/-- The new processes of a call are listed. -/
theorem Impl.step_new_listed (env : Environment) {m : Impl} (hm : m.Keyed) (c : Call)
    {pi : Ref ProcessInfo} (hpi : pi ∈ (m.step env c).newProcesses) :
    pi ∈ (m.step env c).processes := by
  obtain ⟨recs, thr, h⟩ := Impl.step_rebuilt env hm c
  have hadded : pi ∈ (m.step env c).processRoster.added := hpi
  rw [(h.processSide hm).added_eq] at hadded
  exact List.mem_of_mem_filter hadded

section Run

variable (env : Environment) (rawProcesses : ℕ → ProcessInfo) (rawThreads : ℕ → ThreadInfo)

/-- One more call of a run is one more step. -/
theorem Impl.run_concat (calls : List Call) (c : Call) :
    Impl.run env rawProcesses rawThreads (calls ++ [c]) =
      (Impl.run env rawProcesses rawThreads calls).step env c := by
  simp [Impl.run]

/-- **Every reachable state** tracks the processes of the last call and the threads
of the last threaded call. -/
theorem Impl.run_tracks (calls : List Call) :
    (Impl.run env rawProcesses rawThreads calls).Tracks (heldKeys calls)
      (heldThreadKeys calls) := by
  induction calls using List.reverseRecOn with
  | nil => exact Impl.initial_tracks rawProcesses rawThreads
  | append_singleton calls c ih =>
    obtain ⟨recs, thr, h⟩ := Impl.step_rebuilt env ih.keyed c
    rw [Impl.run_concat, heldKeys_concat, heldThreadKeys_concat]
    exact h.tracks ih

/-- A call in a run rebuilds the rosters that the run before it left. -/
theorem Impl.run_concat_rebuilt (calls : List Call) (c : Call) :
    ∃ recs thr, (Impl.run env rawProcesses rawThreads calls).Rebuilt env c
      (Impl.run env rawProcesses rawThreads (calls ++ [c])) recs thr := by
  rw [Impl.run_concat]
  exact Impl.step_rebuilt env (Impl.run_tracks env rawProcesses rawThreads calls).keyed c

end Run

end WinSys
