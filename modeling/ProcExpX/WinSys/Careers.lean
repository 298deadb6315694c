import ProcExpX.Library.Career
import ProcExpX.WinSys.ThreadReports

/-!
# Careers of process and thread objects

Callers hold on to the shared pointers that the manager hands out, so what matters
to them is the life of one object over a whole run. In every run whose calls visit
each key at most once, threaded or not, filtered or not, answered or failed, each
process object and each thread object has its career.
-/

namespace WinSys

open Library

/-- A call visits each process key and each thread key at most once. -/
def Call.Distinct (c : Call) : Prop := c.keys.Nodup ∧ c.threadKeys.Nodup

instance (c : Call) : Decidable c.Distinct := inferInstanceAs (Decidable (_ ∧ _))

/-- The manager tracks distinct processes and distinct threads. -/
def Impl.Distinct (m : Impl) : Prop := ∃ ks ts, m.Tracks ks ts ∧ ks.Nodup ∧ ts.Nodup

/-- Whether a call reports about threads. -/
def Call.threaded (c : Call) : Bool := c.args.includeThreads

/-- **One call** turns the processes over, and the threads if it is threaded. -/
theorem Impl.step_turns (env : Environment) {m : Impl} {c : Call} (hm : m.Distinct)
    (hc : c.Distinct) :
    (m.step env c).Distinct ∧ Turns (Impl.step env) Impl.processRoster (fun _ => true) m c ∧
      Turns (Impl.step env) Impl.threadRoster Call.threaded m c := by
  obtain ⟨ks, ts, htracks, hks, hts⟩ := hm
  obtain ⟨recs, thr, h⟩ := Impl.step_rebuilt env htracks.keyed c
  refine ⟨⟨_, _, h.tracks htracks, hc.1, ?_⟩, ?_, ?_⟩
  · split
    · exact hc.2
    · exact hts
  · unfold Turns
    rw [if_pos rfl]
    exact (h.processSide htracks.keyed).turnover htracks.processes hks
  · unfold Turns
    split
    · exact (h.threadSide htracks.keyed ‹_›).turnover htracks.threads hts
    · exact h.threadRoster_unthreaded (Bool.eq_false_iff.mpr ‹_›)

section Run

variable (env : Environment) (rawProcesses : ℕ → ProcessInfo) (rawThreads : ℕ → ThreadInfo)

/-- **Careers.** In every run whose calls visit each key at most once, every process
object and every thread object is reported as new exactly once, as terminated at most
once and precisely when it is listed no more, and then it is neither listed nor reported
nor written again. -/
theorem Impl.run_careers (calls : List Call) (hcalls : ∀ c ∈ calls, c.Distinct) :
    (∀ pi, Career (Impl.step env) Impl.processRoster (fun _ => true)
      (Impl.initial rawProcesses rawThreads) calls pi) ∧
    ∀ ti, Career (Impl.step env) Impl.threadRoster Call.threaded
      (Impl.initial rawProcesses rawThreads) calls ti := by
  have hinitial : (Impl.initial rawProcesses rawThreads).Distinct :=
    ⟨[], [], Impl.initial_tracks rawProcesses rawThreads, List.nodup_nil, List.nodup_nil⟩
  constructor
  · intro pi
    refine career (fun m c hm hc => ?_) hinitial (Nat.not_lt_zero _) List.not_mem_nil hcalls
    obtain ⟨hm', hturns, -⟩ := Impl.step_turns env hm hc
    exact ⟨hm', hturns⟩
  · intro ti
    refine career (fun m c hm hc => ?_) hinitial (Nat.not_lt_zero _) List.not_mem_nil hcalls
    obtain ⟨hm', -, hturns⟩ := Impl.step_turns env hm hc
    exact ⟨hm', hturns⟩

end Run

/-- A process that ends and whose pid comes back later: its object was new once,
terminated once, and is not the object of the new process. -/
theorem Impl.run_careers_reused_pid :
    let env : Environment := ⟨4, false⟩
    let calls : List Call := [.answered (.enumProcessesAndThreads 0 0 0) 100
        ((SystemProcessInformation.bare 1 8).withThread (.bare 3 16 0)) [],
      .failed .enumProcesses 200, .answered .enumProcesses 300 (.bare 2 8) []]
    let start := Impl.initial (fun _ => default) (fun _ => default)
    addedTimes (Impl.step env) Impl.processRoster (fun _ => true) ⟨0⟩ start calls = 1 ∧
      removedTimes (Impl.step env) Impl.processRoster (fun _ => true) ⟨0⟩ start calls = 1 ∧
      (calls.foldl (Impl.step env) start).processes = [⟨1⟩] := by
  intro env calls start
  have h := (Impl.run_careers env (fun _ => default) (fun _ => default) calls
    (by decide)).1 ⟨0⟩
  have hadded := h.added
  have hremoved := h.removed
  have hexisting : Roster.existing ⟨0⟩ (Impl.processRoster (calls.foldl (Impl.step env) start)) =
    1 := by decide
  have hlisting : Roster.listing ⟨0⟩ (Impl.processRoster (calls.foldl (Impl.step env) start)) =
    0 := by decide
  refine ⟨hadded.trans hexisting, ?_, by decide⟩
  calc _ = _ + Roster.listing ⟨0⟩ (Impl.processRoster (calls.foldl (Impl.step env) start)) := by
        rw [hlisting, Nat.add_zero]
    _ = _ := hremoved.symm
    _ = 1 := hadded.trans hexisting

end WinSys
