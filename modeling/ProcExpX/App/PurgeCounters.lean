import ProcExpX.App.PurgedRows
import ProcExpX.Library.Loop
import ProcExpX.Library.Sweep

/-!
# The purge loop with its counters

`BuildTable` walks over the rows with an index and a count that it took before. A round
that takes its row out lowers the count, and the index too, which the loop then raises
again. The index stays inside the list, the loop ends after one round for each row, and
it does what the rounds do that are counted in advance. The counters are integers here;
they never exceed the number of rows.
-/

namespace ProcExpX

open Library WinSys

/-- `_processes[i]`, which must be inside the list. -/
def ProcessesView.processAt (v : ProcessesView) (i : ℤ) : Option (Ref ProcessInfo) :=
  if 0 ≤ i then v.processes[i.toNat]? else none

namespace Session

variable {host : Host} {s : Session} {filter : WString} {l : Purge} {pi : Ref ProcessInfo}

/-- The variables of the purge loop as `BuildTable` has them. -/
@[ext] structure PurgeFor where
  /-- The session. -/
  session : Session
  /-- `i`. -/
  i : ℤ
  /-- `count`. -/
  count : ℤ
  /-- `indices`. -/
  indices : List ℤ

/-- The body of the purge loop. There is no state after an access outside the list. -/
def PurgeFor.body (host : Host) (filter : WString) (l : PurgeFor) : Option PurgeFor :=
  match l.session.view.processAt l.i with
  | none => none
  | some p =>
    let (s, gone) := l.session.updateRow host p
    if gone then
      some
        { l with
          session := s.onView fun v => v.eraseRow l.i.toNat p
          i := l.i - 1
          count := l.count - 1 }
    else if s.view.hides host filter p then
      some { l with session := s.onView fun v => v.hideRow host p }
    else some { l with session := s, indices := l.indices ++ [l.i] }

/-- The test of the purge loop, its body and its increment. -/
def PurgeFor.round (host : Host) (filter : WString) (l : PurgeFor) : Round PurgeFor :=
  if l.i < l.count then
    match l.body host filter with
    | none => .wrong
    | some l' => .again { l' with i := l'.i + 1 }
  else .leave l

/-- The purge loop of `BuildTable` if it is left within `fuel` rounds. -/
def purgeFor (host : Host) (s : Session) (fuel : ℕ) : Option PurgeFor :=
  loop (PurgeFor.round host (s.view.filter host)) fuel ⟨s, 0, s.view.processes.length, []⟩

/-- A state of the loop whose rounds are counted in advance, with the counters of
`BuildTable`. -/
def Purge.counted (l : Purge) : PurgeFor :=
  { session := l.session
    i := l.i
    count := l.session.view.processes.length
    indices := l.indices.map (↑) }

/-- The body of the loop at a row does what the round does that is counted in advance,
before the index is raised. -/
theorem Purge.counted_body (hpi : l.row = some pi) :
    l.counted.body host filter = some
      { (purgeRow host filter l).counted with i := (purgeRow host filter l).counted.i - 1 } := by
  obtain ⟨hlt, _⟩ := List.getElem?_eq_some_iff.mp hpi
  have hat : l.counted.session.view.processAt l.counted.i = some pi :=
    (if_pos (Int.natCast_nonneg l.i)).trans hpi
  obtain ⟨_, hrows, _⟩ := updateRow_view host l.session pi
  have hcount : (l.session.view.processes.length : ℤ) =
      (l.session.updateRow host pi).1.view.processes.length := by rw [hrows]
  have hraised : (l.i : ℤ) = ((l.i + 1 : ℕ) : ℤ) - 1 := by omega
  rw [PurgeFor.body, hat, purgeRow_eq host filter l hpi]
  have hsession : l.counted.session = l.session := rfl
  dsimp only
  rw [hsession]
  cases (l.session.updateRow host pi).2 with
  | true =>
    have herased : ((l.session.updateRow host pi).1.view.processes.eraseIdx l.i).length + 1 =
        l.session.view.processes.length := by
      rw [hrows, List.length_eraseIdx_of_lt hlt]
      omega
    refine congrArg some (PurgeFor.ext rfl rfl ?_ rfl)
    change (l.session.view.processes.length : ℤ) - 1 =
      ((l.session.updateRow host pi).1.view.processes.eraseIdx l.i).length
    omega
  | false =>
    rw [if_neg Bool.false_ne_true, if_neg Bool.false_ne_true]
    split
    · exact congrArg some (PurgeFor.ext rfl hraised hcount rfl)
    · have hindices : l.counted.indices ++ [(l.i : ℤ)] = (l.indices ++ [l.i]).map (↑) := by
        rw [List.map_append]
        rfl
      exact congrArg some (PurgeFor.ext rfl hraised hcount hindices)

/-- **One round** at a row is the round that is counted in advance. -/
theorem Purge.counted_round (hpi : l.row = some pi) :
    l.counted.round host filter = .again (purgeRow host filter l).counted := by
  have htest : l.counted.i < l.counted.count :=
    Int.ofNat_lt.mpr (List.getElem?_eq_some_iff.mp hpi).1
  rw [PurgeFor.round, if_pos htest, counted_body hpi]
  exact congrArg Round.again (PurgeFor.ext rfl (Int.sub_add_cancel _ _) rfl rfl)

/-- The rows left to visit after `n` rounds. -/
theorem purgeAt_left (host : Host) (s : Session) {n : ℕ} (hn : n ≤ s.view.processes.length) :
    (s.purgeAt host n).i + s.view.processes.length =
      (s.purgeAt host n).session.view.processes.length + n := by
  obtain ⟨answers, hlength, h⟩ := purgeAt_traces host s hn
  rw [h.i_eq, h.processes_eq, List.length_append, List.length_drop, hlength]
  omega

/-- The counters stay between 0 and the number of rows. -/
theorem purgeAt_counters (host : Host) (s : Session) {n : ℕ} (hn : n ≤ s.view.processes.length) :
    0 ≤ (s.purgeAt host n).counted.i ∧
      (s.purgeAt host n).counted.i ≤ (s.purgeAt host n).counted.count ∧
      (s.purgeAt host n).counted.count ≤ s.view.processes.length := by
  obtain ⟨answers, hlength, h⟩ := purgeAt_traces host s hn
  have hkept : (Purge.leftRows answers).length ≤ answers.length := by
    rw [Purge.leftRows, List.length_map]
    exact List.length_filter_le _ _
  have hleft := purgeAt_left host s hn
  have hindex := h.i_eq
  dsimp only [Purge.counted]
  omega

/-- A round before the last one leads to the next. -/
theorem purgeAt_counted_round (host : Host) (s : Session) {n : ℕ}
    (hn : n < s.view.processes.length) :
    (s.purgeAt host n).counted.round host (s.view.filter host) =
      .again (s.purgeAt host (n + 1)).counted := by
  have hleft := purgeAt_left host s (Nat.le_of_lt hn)
  have hrow : (s.purgeAt host n).row = some _ := List.getElem?_eq_getElem (by omega)
  rw [purgeAt_succ]
  exact Purge.counted_round hrow

/-- After the last round the loop is left. -/
theorem purge_counted_round (host : Host) (s : Session) :
    (s.purge host).counted.round host (s.view.filter host) = .leave (s.purge host).counted := by
  have hleft := purgeAt_left host s (Nat.le_refl _)
  have htest : ¬ (s.purge host).counted.i < (s.purge host).counted.count := by
    have hend : (s.purge host).i = (s.purge host).session.view.processes.length :=
      Nat.add_right_cancel hleft
    dsimp only [Purge.counted]
    omega
  exact if_neg htest

/-- **The loop ends** after a round for each row, without an access outside the list, and
leaves what the rounds leave that are counted in advance. -/
theorem purgeFor_eq (host : Host) (s : Session) {fuel : ℕ}
    (hfuel : s.view.processes.length < fuel) :
    s.purgeFor host fuel = some (s.purge host).counted := by
  have hround : ∀ l, (∃ n ≤ s.view.processes.length, l = (s.purgeAt host n).counted) →
      (∃ l', l.round host (s.view.filter host) = .again l' ∧
        (∃ n ≤ s.view.processes.length, l' = (s.purgeAt host n).counted) ∧
        (l'.count - l'.i).toNat < (l.count - l.i).toNat) ∨
      ∃ l', l.round host (s.view.filter host) = .leave l' ∧ l' = (s.purge host).counted := by
    rintro l ⟨n, hn, rfl⟩
    rcases Nat.lt_or_eq_of_le hn with hlt | rfl
    · have hnext : n + 1 ≤ s.view.processes.length := hlt
      refine Or.inl ⟨_, purgeAt_counted_round host s hlt, ⟨n + 1, hnext, rfl⟩, ?_⟩
      have hleft := purgeAt_left host s hn
      have hleft' := purgeAt_left host s hnext
      dsimp only [Purge.counted]
      omega
    · exact Or.inr ⟨_, purge_counted_round host s, rfl⟩
  obtain ⟨l, hloop, rfl⟩ := loop_leaves (fun l : PurgeFor => (l.count - l.i).toNat) hround
    ⟨0, Nat.zero_le _, rfl⟩
  exact hloop fuel (by simpa [purgeAt, purgeLoop, Purge.counted] using hfuel)

section Answers

/-- A record whose time is over. -/
def record (gone : Ref ProcessInfo → Bool) (p : Ref ProcessInfo) : ProcessInfoEx :=
  { expiryTime := 0, pi := p, isNew := false, isTerminated := gone p, filtered := false }

/-- The session with records of its rows for which `Update` answers as given. -/
def answering (s : Session) (gone : Ref ProcessInfo → Bool) : Session :=
  { s with
    view :=
      { s.view with
        processesEx := (s.view.processes.map (record gone)).foldl
          (fun m px => m.insertNew (s.view.key px.pi) px) ∅ }
    clock := ⟨fun _ => 1, 0⟩ }

/-- A round leaves the readings of the clock alone. -/
theorem purgeRow_readings (host : Host) (filter : WString) (l : Purge) :
    (purgeRow host filter l).session.clock.readings = l.session.clock.readings := by
  cases hpi : l.session.view.processes[l.i]? with
  | none => rw [purgeRow, hpi]
  | some pi =>
    have hclock : (l.session.updateRow host pi).1.clock.readings = l.session.clock.readings := by
      unfold updateRow ProcessInfoEx.update
      dsimp only
      split
      · rfl
      · split <;> rfl
    rw [Purge.purgeRow_eq host filter l hpi]
    split
    · exact hclock
    · split <;> exact hclock

/-- When the clock shows 1, `Update` answers with the mark of a record whose time is over
since 0. -/
theorem updateRow_answer {px : ProcessInfoEx} (hreadings : ∀ k, s.clock.readings k = 1)
    (htime : px.expiryTime = 0) (hlookup : s.view.processesEx.lookup (s.view.key pi) = some px) :
    (s.updateRow host pi).2 = px.isTerminated := by
  have hinfo : s.view.infoEx host pi = px := by
    rw [ProcessesView.infoEx, hlookup, Option.getD_some]
  have hexpired : px.Expired s.clock := by
    rw [ProcessInfoEx.Expired, Clock.getTickCount, hreadings, htime]
    exact (by decide : (1 : UInt64).toUInt32.toUInt64 > 0)
  rw [Bool.eq_iff_iff, updateRow_snd_iff, HighlightOver, hinfo]
  exact and_iff_left hexpired

/-- What the loop has asked and finds next after `n` rounds from such records. -/
structure AnswersTo (host : Host) (s : Session) (gone : Ref ProcessInfo → Bool) (n : ℕ)
    (l : Purge) : Prop where
  /-- The clock shows 1. -/
  readings : ∀ k, l.session.clock.readings k = 1
  /-- The answers are as given. -/
  updates_eq : l.session.history.updates =
    s.history.updates ++ (s.view.processes.take n).map fun p => (p, gone p)
  /-- The other records are as they were. -/
  records : ∀ p ∈ s.view.processes.drop n, ∃ px, px.isTerminated = gone p ∧ px.expiryTime = 0 ∧
    l.session.view.processesEx.lookup (s.view.key p) = some px

/-- Before the first round. -/
theorem AnswersTo.start (host : Host) (s : Session) (gone : Ref ProcessInfo → Bool)
    (hkeys : (s.view.processes.map s.view.key).Nodup) :
    AnswersTo host s gone 0 ((s.answering gone).purgeAt host 0) := by
  refine ⟨fun _ => rfl, (List.append_nil _).symm, fun p hp => ?_⟩
  have hmem : p ∈ s.view.processes := List.mem_of_mem_drop hp
  have hlookup := UnorderedMap.lookup_foldl_insertNew (fun px => s.view.key px.pi) ∅
    (s.view.processes.map (record gone)) (s.view.key p)
  rw [AList.lookup_empty, Option.none_or, List.find?_map] at hlookup
  cases hfound : s.view.processes.find?
      ((fun px => decide (s.view.key px.pi = s.view.key p)) ∘ record gone) with
  | none => exact absurd (decide_eq_true rfl) (List.find?_eq_none.mp hfound p hmem)
  | some q =>
    have hmatch := List.find?_some hfound
    have hkey : s.view.key q = s.view.key p := of_decide_eq_true hmatch
    obtain rfl := List.inj_on_of_nodup_map hkeys (List.mem_of_find?_eq_some hfound) hmem hkey
    rw [hfound] at hlookup
    exact ⟨record gone q, rfl, rfl, hlookup⟩

/-- **One round.** -/
theorem AnswersTo.round {gone : Ref ProcessInfo → Bool} {n : ℕ}
    (hkeys : (s.view.processes.map s.view.key).Nodup) (hn : n < s.view.processes.length)
    (h : AnswersTo host s gone n ((s.answering gone).purgeAt host n)) :
    AnswersTo host s gone (n + 1) ((s.answering gone).purgeAt host (n + 1)) := by
  obtain ⟨answers, hlength, htraces⟩ := purgeAt_traces host (s.answering gone) (Nat.le_of_lt hn)
  have hrow : ((s.answering gone).purgeAt host n).row = some s.view.processes[n] := by
    rw [htraces.row_eq, hlength]
    exact List.getElem?_eq_getElem hn
  have hdrop := List.drop_eq_getElem_cons hn
  have htake := List.take_succ_eq_append_getElem hn
  generalize s.view.processes[n] = pi at hrow hdrop htake
  rw [purgeAt_succ]
  have hkey := ProcessesView.key_congr htraces.pm_eq
  obtain ⟨px, hmark, htime, hlookup⟩ := h.records pi (hdrop ▸ List.mem_cons_self)
  have hanswer : (((s.answering gone).purgeAt host n).session.updateRow host pi).2 = gone pi :=
    (updateRow_answer h.readings htime (hkey ▸ hlookup)).trans hmark
  refine ⟨fun k => ?_, ?_, fun p hp => ?_⟩
  · rw [purgeRow_readings]
    exact h.readings k
  · rw [Purge.purgeRow_updates host _ _ hrow, hanswer, h.updates_eq, htake, List.map_append,
      List.append_assoc]
    rfl
  · have hnodup : ((s.view.processes.drop n).map s.view.key).Nodup :=
      hkeys.sublist ((List.drop_sublist _ _).map _)
    rw [hdrop, List.map_cons, List.nodup_cons] at hnodup
    have hother : s.view.key p ≠ s.view.key pi :=
      fun heq => hnodup.1 (heq ▸ List.mem_map_of_mem hp)
    rw [Purge.purgeRow_lookup_of_ne host _ _ hrow (hkey ▸ hother)]
    exact h.records p (hdrop ▸ List.mem_cons_of_mem _ hp)

/-- **Every combination of answers occurs.** Whatever rows there are, if no two have one
key, and whatever `Update` is to answer for each of them, there are records and a clock for
which it does. -/
theorem answering_answers (host : Host) (s : Session)
    (hkeys : (s.view.processes.map s.view.key).Nodup) (gone : Ref ProcessInfo → Bool) :
    ((s.answering gone).purge host).session.history.updates =
      s.history.updates ++ s.view.processes.map fun p => (p, gone p) := by
  have hrounds : ∀ n ≤ s.view.processes.length,
      AnswersTo host s gone n ((s.answering gone).purgeAt host n) := by
    intro n
    induction n with
    | zero => exact fun _ => .start host s gone hkeys
    | succ n ih => exact fun hn => (ih (Nat.le_of_succ_le hn)).round hkeys hn
  have hall := (hrounds _ (Nat.le_refl _)).updates_eq
  rwa [List.take_length] at hall

end Answers

/-- What the purge loop makes of the rows, with the answers of `Update` on the way. -/
structure PurgesExactly (host : Host) (s : Session) (answers : List (Ref ProcessInfo × Bool))
    (l : PurgeFor) : Prop where
  /-- These are the calls of `Update` that have been made. -/
  updates_eq : l.session.history.updates = s.history.updates ++ answers
  /-- There is one for each row, in order. -/
  asked : answers.map Prod.fst = s.view.processes
  /-- The rows left are those for which the answer was no, in the same order. -/
  processes_eq : l.session.view.processes = (answers.filter fun a => !a.2).map Prod.fst
  /-- The positions noted are in ascending order. -/
  ascending : l.indices.Pairwise (· < ·)
  /-- They lie inside the list that is left. -/
  inside : ∀ i ∈ l.indices, 0 ≤ i ∧ i < l.session.view.processes.length
  /-- They are those of the rows whose `Filtered` flag is not set. -/
  mem_indices_iff : ∀ (i : ℕ) (p : Ref ProcessInfo), l.session.view.processes[i]? = some p →
    ((i : ℤ) ∈ l.indices ↔ (l.session.view.infoEx host p).filtered = false)

/-- If no two rows have one key, the rounds that are counted in advance mark as filtered
the rows left that the filter hides. -/
theorem Purge.Traces.filtered_of_nodup {answers : List (Ref ProcessInfo × Bool)}
    (h : Traces host s answers l) (hasked : answers.map Prod.fst = s.view.processes)
    (hkeys : (s.view.processes.map s.view.key).Nodup) {p : Ref ProcessInfo}
    (hp : p ∈ leftRows answers) :
    (l.session.view.infoEx host p).filtered = s.view.hides host (s.view.filter host) p := by
  rw [h.filtered_eq, lastAnswer_of_nodup (hasked ▸ hkeys) hp]
  rfl

/-- **The purge loop is exact.** If no two rows have one key, the loop ends, never looks
outside the list, takes out the rows for which `Update` answers yes and no others, and
notes the positions of the rows left that are not filtered. -/
theorem purgeFor_exact (host : Host) (s : Session)
    (hkeys : (s.view.processes.map s.view.key).Nodup) :
    ∃ l answers, (∀ fuel, s.view.processes.length < fuel → s.purgeFor host fuel = some l) ∧
      s.PurgesExactly host answers l := by
  obtain ⟨answers, hasked, h⟩ := purge_traces host s
  have hrows := h.processes_of_all hasked
  have hindex : ∀ i, i ∈ (s.purge host).indices ↔ ∃ p, (Purge.leftRows answers)[i]? = some p ∧
      s.view.hides host (s.view.filter host) p = false := by
    intro i
    rw [h.indices_eq, mem_positions, List.getElem?_map, Option.map_eq_some_iff]
    simp only [Bool.not_eq_true']
  refine ⟨(s.purge host).counted, answers, fun fuel hfuel => purgeFor_eq host s hfuel,
    h.updates_eq, hasked, hrows, ?_, ?_, ?_⟩
  · rw [Purge.counted, List.pairwise_map, h.indices_eq]
    exact (positions_ascending _).imp Int.ofNat_lt.mpr
  · intro i hi
    obtain ⟨i, hmem, rfl⟩ := List.mem_map.mp hi
    obtain ⟨p, hp, _⟩ := (hindex i).mp hmem
    refine ⟨Int.natCast_nonneg i, Int.ofNat_lt.mpr ?_⟩
    rw [Purge.counted, hrows]
    exact (List.getElem?_eq_some_iff.mp hp).1
  · intro i p hp
    rw [Purge.counted, hrows] at hp
    have hflag := h.filtered_of_nodup hasked hkeys (List.mem_of_getElem? hp)
    have hcast : Function.Injective ((↑) : ℕ → ℤ) := fun _ _ => Int.ofNat.inj
    rw [Purge.counted, List.mem_map_of_injective hcast, hindex, hflag]
    constructor
    · rintro ⟨q, hq, hshown⟩
      rwa [Option.some.inj (hp.symm.trans hq)]
    · exact fun hshown => ⟨p, hp, hshown⟩

/-- Of five rows the first two and the last are taken out, and of the other two the filter
hides one. -/
theorem purgeFor_exact_five_rows :
    let named (id : Handle) (name : String) : SystemProcessInformation :=
      { SystemProcessInformation.bare 1 id with imageName := wide name }
    let world := (Call.answered .enumProcesses 100 (named 8 "a")
      [named 12 "b", named 16 "c", named 20 "d", named 24 "e"]).toEnumWorld
    let listed := (initial .plain fun _ => 1).refresh .plain (Frame.idle world).refresh
    let filtered := listed.onView fun v => { v with filterText := ⟨[100], by decide, by decide⟩ }
    let s := filtered.answering fun p => (filtered.view.pm.process p).id ∈ [8, 12, 24]
    ∃ l answers, s.purgeFor .plain 6 = some l ∧ s.PurgesExactly .plain answers l ∧
      answers.map Prod.snd = [true, true, false, false, true] ∧ l.indices = [1] := by
  intro named world listed filtered s
  obtain ⟨l, answers, hloop, hexact⟩ := purgeFor_exact .plain s (by decide +kernel)
  have hleft := hloop 6 (by decide +kernel)
  have hvalues : (s.purgeFor .plain 6).map
      (fun l => (l.session.history.updates.map Prod.snd, l.indices)) =
      some ([true, true, false, false, true], [1]) := by decide +kernel
  rw [hleft] at hvalues
  obtain ⟨hanswers, hindices⟩ := Prod.mk.inj (Option.some.inj hvalues)
  rw [hexact.updates_eq] at hanswers
  exact ⟨l, answers, hleft, hexact, hanswers, hindices⟩

end Session

end ProcExpX
