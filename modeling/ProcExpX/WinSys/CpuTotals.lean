import Mathlib.Algebra.BigOperators.Ring.Finset
import Mathlib.Algebra.Order.Group.Nat
import ProcExpX.Library.Ledger
import ProcExpX.WinSys.CpuRange
import ProcExpX.WinSys.ProcessReports

/-!
# The CPU column as a whole

The CPU value of a process is its share of the time that all processors had since the call
before, rounded down. Here the values of all listed processes are taken together. What the
processes may have used in the meantime is a fact about the system, stated as a condition on
two consecutive snapshots.
-/

namespace WinSys

open Library

/-- The total time of a process record. -/
def SystemProcessInformation.totalTime (p : SystemProcessInformation) : ℤ :=
  p.kernelTime.toInt + p.userTime.toInt

/-- The record that a call visits first among those with the given process key. -/
def Call.processRecord (c : Call) (key : ProcessOrThreadKey) : Option SystemProcessInformation :=
  c.selected.find? (fun p => p.key = key)

/-- The time that a process has used since a call, zero for one that the call did not visit. -/
def Call.increaseSince (c₁ : Call) (p : SystemProcessInformation) : ℕ :=
  match c₁.processRecord p.key with
  | none => 0
  | some p₁ => (p.totalTime - p₁.totalTime).toNat

/-- The ticks between two calls. -/
def Call.elapsedSince (c₁ c₂ : Call) : ℕ := (c₂.ticks.toInt - c₁.ticks.toInt).toNat

/-- What the system accounts for between two calls, in ticks of the length of its time
units. -/
structure Call.Accounts (env : Environment) (c₁ c₂ : Call) : Prop where
  /-- There are processors. -/
  processors : 0 < env.totalProcessors.toNat
  /-- Time has passed. -/
  later : c₁.ticks.toInt < c₂.ticks.toInt
  /-- Not more of it than a difference of ticks can hold. -/
  elapsed_lt : c₁.elapsedSince c₂ < 2 ^ 63
  /-- No process has given time back. -/
  monotone : ∀ p ∈ c₂.selected, ∀ p₁, c₁.processRecord p.key = some p₁ →
    p₁.totalTime ≤ p.totalTime
  /-- The processes have used no more time than the processors had. -/
  total_le : (c₂.selected.map c₁.increaseSince).sum ≤
    c₁.elapsedSince c₂ * env.totalProcessors.toNat
  /-- The product that the formula starts with fits. -/
  fits : ∀ p ∈ c₂.selected, c₁.increaseSince p * 1000000 < 2 ^ 63

section Rebuilt

variable {env : Environment} {m m' : Impl} {c : Call} {ks ts : List ProcessOrThreadKey}
  {recs : List (SystemProcessInformation × List (Ref ThreadInfo))}
  {thr : List (WString × SystemExtendedThreadInformation)} (h : m.Rebuilt env c m' recs thr)
  (hm : m.Tracks ks ts)
include h hm

/-- After a call the object found under a process key has the times of the first record with
that key. -/
theorem Impl.Rebuilt.find_process_times {key : ProcessOrThreadKey} {p : SystemProcessInformation}
    (hfind : c.processRecord key = some p) :
    ∃ pi, m'.processesByKey.lookup key = some pi ∧
      (m'.process pi).kernelTime = p.kernelTime ∧ (m'.process pi).userTime = p.userTime := by
  rw [Call.processRecord, ← h.recs_eq, List.find?_map] at hfind
  obtain ⟨rec, hrec, rfl⟩ := Option.map_eq_some_iff.mp hfind
  obtain ⟨pi, hlookup, hbuilt⟩ := (h.processSide hm.keyed).find hrec
  have hread : ∃ old : ProcessInfo, m'.process pi = (c.processBlueprint env m).refresh rec old ∨
      m'.process pi = (c.processBlueprint env m).create rec old := by
    rcases hbuilt with ⟨_, hread⟩ | ⟨_, hread⟩
    · exact ⟨_, Or.inl hread⟩
    · exact ⟨_, Or.inr hread⟩
  obtain ⟨old, hread | hread⟩ := hread <;> exact ⟨pi, hlookup, by rw [hread]; exact ⟨rfl, rfl⟩⟩

/-- A process key that a call found no record for is not held after the call. -/
theorem Impl.Rebuilt.processRecord_isSome {key : ProcessOrThreadKey} {pi : Ref ProcessInfo}
    (hlookup : m'.processesByKey.lookup key = some pi) : ∃ p, c.processRecord key = some p := by
  have hkey : key ∈ c.keys := (h.tracks hm).processes.mem_byKey.mp
    (AList.lookup_isSome.mp (Option.isSome_of_eq_some hlookup))
  obtain ⟨p, hp, rfl⟩ := List.mem_map.mp hkey
  apply Option.isSome_iff_exists.mp
  rw [Call.processRecord, List.find?_isSome]
  exact ⟨p, hp, by simp⟩

/-- The CPU values that a call stores, record by record: that of the formula for a process
known before, zero for a new one. -/
theorem Impl.Rebuilt.processes_cpu (hc : c.keys.Nodup) :
    List.Forall₂ (fun p pi => (m'.process pi).cpu =
      match m.processesByKey.lookup p.key with
      | some old => (m.process old).cpuSince p (c.ticks - m.prevTicks) env.totalProcessors
      | none => 0) c.selected m'.processes := by
  have hside := h.processSide hm.keyed
  have hdistinct : (recs.map (c.processBlueprint env m).key).Nodup := h.map_key ▸ hc
  rw [← h.recs_eq, List.forall₂_map_left_iff]
  refine forall₂_imp_of_mem (h.processes_built hm.keyed) fun rec _ pi hpi hbuilt => ?_
  have hkey := hside.keyAt_of_built hbuilt
  rcases hbuilt with ⟨hlookup, hread⟩ | ⟨hdead, hread⟩
  · rw [show m.processesByKey.lookup rec.1.key = some pi from hlookup]
    exact congrArg ProcessInfo.cpu hread
  · -- with distinct keys an object is made only for a key that was not held
    have hunknown : m.processesByKey.lookup rec.1.key = none := by
      apply AList.lookup_eq_none.mpr
      intro hmem
      exact hdead ((hside.live_iff_known hdistinct hpi).mpr (hkey ▸ hmem))
    rw [hunknown]
    exact congrArg ProcessInfo.cpu hread

end Rebuilt

/-- An object that has the times of a record computes the increase since that record. -/
theorem ProcessInfo.cpuSince_eq_share {pi : ProcessInfo} {p₁ p : SystemProcessInformation}
    {delta : Int64} {elapsed increase : ℕ} {totalProcessors : UInt32}
    (hkernel : pi.kernelTime = p₁.kernelTime) (huser : pi.userTime = p₁.userTime)
    (hdelta : delta.toInt = elapsed) (helapsed : 0 < elapsed)
    (hprocessors : 0 < totalProcessors.toNat) (hmonotone : p₁.totalTime ≤ p.totalTime)
    (hincrease : (p.totalTime - p₁.totalTime).toNat = increase)
    (hle : increase ≤ elapsed * totalProcessors.toNat) (hfits : increase * 1000000 < 2 ^ 63) :
    (pi.cpuSince p delta totalProcessors).toInt = cpuShare increase elapsed totalProcessors := by
  have hticks : delta.toInt.toNat = elapsed := by omega
  have hsum : p.kernelTime.toInt + p.userTime.toInt =
      pi.kernelTime.toInt + pi.userTime.toInt + increase := by
    unfold SystemProcessInformation.totalTime at hmonotone hincrease
    rw [hkernel, huser]
    omega
  have hpos : 0 < delta.toInt := by omega
  have hexact := (pi.cpuExact_iff p hpos hprocessors hsum (by rwa [hticks])).mpr hfits
  exact hticks ▸ hexact.value_eq

section Run

variable (env : Environment) (rawProcesses : ℕ → ProcessInfo) (rawThreads : ℕ → ThreadInfo)

/-- The CPU value of each listed process is its share of the time since the call before. -/
theorem Impl.run_cpu_shares (before : List Call) {c₁ c₂ : Call} (hc : c₂.keys.Nodup)
    (haccounts : c₁.Accounts env c₂) :
    let m := Impl.run env rawProcesses rawThreads (before ++ [c₁] ++ [c₂])
    List.Forall₂ (fun p pi => (m.process pi).cpu.toInt =
        cpuShare (c₁.increaseSince p) (c₁.elapsedSince c₂) env.totalProcessors)
      c₂.selected m.processes := by
  intro m
  obtain ⟨recs₁, thr₁, h₁⟩ := Impl.run_concat_rebuilt env rawProcesses rawThreads before c₁
  obtain ⟨recs₂, thr₂, h₂⟩ := Impl.run_concat_rebuilt env rawProcesses rawThreads
    (before ++ [c₁]) c₂
  have htracks₁ := Impl.run_tracks env rawProcesses rawThreads before
  have htracks₂ := Impl.run_tracks env rawProcesses rawThreads (before ++ [c₁])
  have hlater := haccounts.later
  have helapsed : c₁.elapsedSince c₂ = (c₂.ticks.toInt - c₁.ticks.toInt).toNat := rfl
  have hdelta : (c₂.ticks - c₁.ticks).toInt = c₁.elapsedSince c₂ := by
    have hlt := haccounts.elapsed_lt
    rw [Int64.toInt_sub]
    rw [Int.bmod_eq_of_le] <;> omega
  refine forall₂_imp_of_mem (h₂.processes_cpu htracks₂ hc) fun p hp pi _ hcpu => ?_
  rw [show (m.process pi).cpu = _ from hcpu, h₁.prevTicks]
  have hle : c₁.increaseSince p ≤ c₁.elapsedSince c₂ * env.totalProcessors.toNat :=
    (List.le_sum_of_mem (List.mem_map_of_mem hp)).trans haccounts.total_le
  cases hknown : (Impl.run env rawProcesses rawThreads (before ++ [c₁])).processesByKey.lookup
      p.key with
  | some old =>
    obtain ⟨p₁, hp₁⟩ := h₁.processRecord_isSome htracks₁ hknown
    obtain ⟨old', hknown', hkernel, huser⟩ := h₁.find_process_times htracks₁ hp₁
    obtain rfl := Option.some.inj (hknown.symm.trans hknown')
    refine ProcessInfo.cpuSince_eq_share hkernel huser hdelta (by omega) haccounts.processors
      (haccounts.monotone p hp p₁ hp₁) ?_ hle (haccounts.fits p hp)
    rw [Call.increaseSince, hp₁]
  | none =>
    have hnew : c₁.processRecord p.key = none := by
      by_contra hsome
      obtain ⟨p₁, hp₁⟩ := Option.ne_none_iff_exists'.mp hsome
      obtain ⟨old, hold, _⟩ := h₁.find_process_times htracks₁ hp₁
      rw [hknown] at hold
      cases hold
    have hzero : c₁.increaseSince p = 0 := by rw [Call.increaseSince, hnew]
    rw [hzero, cpuShare, Nat.zero_mul, Nat.zero_div, Nat.zero_div]
    rfl

/-- **The CPU column adds up.** The CPU values that a call stores are the shares of the time
since the call before. Together they are at most a million, that is, all processors; they fall
short of the time that the processes have used by less than one for each process. -/
theorem Impl.run_cpu_total (before : List Call) {c₁ c₂ : Call} (hc : c₂.keys.Nodup)
    (haccounts : c₁.Accounts env c₂) :
    let m := Impl.run env rawProcesses rawThreads (before ++ [c₁] ++ [c₂])
    let total := (m.processes.map fun pi => (m.process pi).cpu.toInt).sum
    let used := (c₂.selected.map c₁.increaseSince).sum
    let whole := c₁.elapsedSince c₂ * env.totalProcessors.toNat
    List.Forall₂ (fun p pi => (m.process pi).cpu.toInt =
        cpuShare (c₁.increaseSince p) (c₁.elapsedSince c₂) env.totalProcessors)
      c₂.selected m.processes ∧
      total ≤ 1000000 ∧ whole * total ≤ used * 1000000 ∧
        used * 1000000 ≤ whole * (total + m.processes.length) := by
  intro m total used whole
  have hshares := Impl.run_cpu_shares env rawProcesses rawThreads before hc haccounts
  have hlater := haccounts.later
  have helapsed : c₁.elapsedSince c₂ = (c₂.ticks.toInt - c₁.ticks.toInt).toNat := rfl
  have hwhole : 0 < whole := Nat.mul_pos (by omega) haccounts.processors
  set amounts := c₂.selected.map c₁.increaseSince with hamounts
  have hcolumn : (m.processes.map fun pi => (m.process pi).cpu.toInt) =
      (sharesOf 1000000 whole amounts).map Nat.cast := by
    symm
    rw [sharesOf, hamounts, List.map_map, List.map_map, ← List.forall₂_eq_eq_eq,
      List.forall₂_map_left_iff, List.forall₂_map_right_iff]
    refine hshares.imp fun p pi hcpu => ?_
    rw [hcpu, cpuShare, Nat.div_div_eq_div_mul]
    rfl
  have htotal : total = (sharesOf 1000000 whole amounts).sum := by
    rw [Nat.cast_list_sum, ← hcolumn]
  have hlength : m.processes.length = amounts.length := by
    rw [hamounts, List.length_map, hshares.length_eq]
  have hmost := sum_sharesOf_le 1000000 hwhole haccounts.total_le
  obtain ⟨hle, hge⟩ := sum_sharesOf 1000000 hwhole amounts
  have hmillion : ((1000000 : ℕ) : ℤ) = 1000000 := rfl
  have hused : ((amounts.sum * 1000000 : ℕ) : ℤ) = used * 1000000 := by
    rw [Int.natCast_mul, hmillion]
  refine ⟨hshares, ?_, ?_, ?_⟩
  · rw [htotal, ← hmillion]
    exact Int.ofNat_le.mpr hmost
  · rw [htotal, ← hused, ← Int.natCast_mul]
    exact Int.ofNat_le.mpr hle
  · rw [htotal, hlength, ← hused, ← Int.natCast_add, ← Int.natCast_mul]
    exact Int.ofNat_le.mpr hge

end Run

/-- Three busy processes of a machine with four processors, the last of them new, and one that
does nothing. -/
theorem Impl.run_cpu_total_new_process :
    let used (id : Handle) (userTime : Int64) : SystemProcessInformation :=
      { SystemProcessInformation.bare 8 id with userTime := userTime }
    let first := Call.answered .enumProcesses 100 (used 1 5) [used 2 7, used 3 9]
    let second := Call.answered .enumProcesses 160 (used 1 125) [used 2 100, used 3 9, used 4 11]
    let m := Impl.run ⟨4, false⟩ (fun _ => default) (fun _ => default) ([] ++ [first] ++ [second])
    (m.processes.map fun pi => (m.process pi).cpu.toInt).sum ≤ 1000000 ∧
      (213 : ℕ) * 1000000 ≤
        240 * ((m.processes.map fun pi => (m.process pi).cpu.toInt).sum + m.processes.length) := by
  intro used first second m
  have hselected : second.selected = [used 1 125, used 2 100, used 3 9, used 4 11] := rfl
  have hmonotone : ∀ p ∈ second.selected, ∀ p₁, first.processRecord p.key = some p₁ →
      p₁.totalTime ≤ p.totalTime := by
    intro p hp p₁ hp₁
    rw [hselected] at hp
    simp only [List.mem_cons, List.not_mem_nil, or_false] at hp
    rcases hp with rfl | rfl | rfl | rfl
    · obtain rfl : used 1 5 = p₁ := Option.some.inj hp₁
      decide
    · obtain rfl : used 2 7 = p₁ := Option.some.inj hp₁
      decide
    · obtain rfl : used 3 9 = p₁ := Option.some.inj hp₁
      decide
    · cases hp₁
  have haccounts : first.Accounts ⟨4, false⟩ second :=
    ⟨by decide, by decide, by decide, hmonotone, by decide, by decide⟩
  obtain ⟨_, hmost, _, hleast⟩ := Impl.run_cpu_total ⟨4, false⟩ (fun _ => default)
    (fun _ => default) [] (by decide) haccounts
  have hused : (second.selected.map first.increaseSince).sum = 213 := by decide
  have hwhole : first.elapsedSince second * (4 : UInt32).toNat = 240 := by decide
  rw [hused, hwhole] at hleast
  exact ⟨hmost, hleast⟩

end WinSys
