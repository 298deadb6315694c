import ProcExpX.App.PurgeRounds
import ProcExpX.Library.Positions

/-!
# What the purge loop leaves

The loop calls `Update` once for each row. Its answers tell which rows are left, where
the rows that the filter shows stand among them, and which records are marked as
filtered: a record is shared by all rows of its key, so the last of them decides.
-/

namespace ProcExpX

open Library WinSys

/-- `Update` does not touch the `Filtered` flag. -/
@[simp] theorem ProcessInfoEx.update_filtered (px : ProcessInfoEx) (clock : Clock) :
    (px.update clock).2.1.filtered = px.filtered := by
  rcases px.update_cases clock with ⟨_, h⟩ | ⟨_, h⟩ <;> rw [h]

namespace ProcessesView

variable {v v' : ProcessesView}

/-- Whether a row is hidden depends on its process and the filter only. -/
theorem hides_congr (hpm : v'.pm = v.pm) (host : Host) (filter : WString) :
    v'.hides host filter = v.hides host filter := by
  funext p
  rw [hides, hpm, hides]

/-- The flag in the record of a row depends on what is found under its key only. -/
theorem infoEx_filtered_eq (host : Host) (p : Ref ProcessInfo) :
    (v.infoEx host p).filtered = (v.processesEx.lookup (v.key p)).any (·.filtered) := by
  unfold infoEx
  cases v.processesEx.lookup (v.key p) <;> rfl

/-- The record of a row after it has been written. -/
theorem infoEx_setProcessInfoEx (host : Host) (v : ProcessesView) (p : Ref ProcessInfo)
    (px : ProcessInfoEx) : (v.setProcessInfoEx p px).infoEx host p = px := by
  have hkey : (v.setProcessInfoEx p px).key p = v.key p := rfl
  rw [infoEx, hkey, lookup_setProcessInfoEx, if_pos rfl, Option.getD_some]

end ProcessesView

namespace Session

variable {host : Host}

namespace Purge

variable (filter : WString) {l : Purge} {pi : Ref ProcessInfo}

/-- A round notes the position of a row that stays and is shown. -/
theorem purgeRow_indices (host : Host) (hpi : l.session.view.processes[l.i]? = some pi) :
    (purgeRow host filter l).indices = l.indices ++
      if (l.session.updateRow host pi).2 || l.session.view.hides host filter pi then []
      else [l.i] := by
  obtain ⟨hpm, _, _⟩ := updateRow_view host l.session pi
  rw [purgeRow_eq host filter l hpi, ProcessesView.hides_congr hpm]
  cases (l.session.updateRow host pi).2 <;> cases l.session.view.hides host filter pi <;> simp

/-- A round that keeps its row writes into its record whether the row is hidden. -/
theorem purgeRow_filtered (host : Host) (hpi : l.session.view.processes[l.i]? = some pi)
    (hstays : (l.session.updateRow host pi).2 = false) :
    ((purgeRow host filter l).session.view.infoEx host pi).filtered =
      l.session.view.hides host filter pi := by
  obtain ⟨hpm, _, _⟩ := updateRow_view host l.session pi
  rw [purgeRow_eq host filter l hpi, hstays, ProcessesView.hides_congr hpm,
    if_neg Bool.false_ne_true]
  cases l.session.view.hides host filter pi with
  | true =>
    rw [if_pos rfl]
    dsimp only [onView, ProcessesView.hideRow]
    rw [ProcessesView.infoEx_setProcessInfoEx]
  | false =>
    rw [if_neg Bool.false_ne_true, ProcessesView.infoEx, lookup_updateRow,
      ProcessesView.key_congr hpm, if_pos rfl, Option.getD_some, ProcessInfoEx.update_filtered]
    rfl

/-- The rows that are left after some answers of `Update`. -/
def leftRows (answers : List (Ref ProcessInfo × Bool)) : List (Ref ProcessInfo) :=
  (answers.filter fun a => !a.2).map Prod.fst

/-- The last answer of `Update` for a row with a given key. -/
def lastAnswer (key : Ref ProcessInfo → ProcessOrThreadKey) (k : ProcessOrThreadKey)
    (answers : List (Ref ProcessInfo × Bool)) : Option (Ref ProcessInfo × Bool) :=
  answers.reverse.find? fun a => key a.1 = k

/-- With one more answer, the last one for its key is that one, and for other keys it is the one
before. -/
theorem lastAnswer_concat (key : Ref ProcessInfo → ProcessOrThreadKey) (k : ProcessOrThreadKey)
    (answers : List (Ref ProcessInfo × Bool)) (a : Ref ProcessInfo × Bool) :
    lastAnswer key k (answers ++ [a]) =
      if key a.1 = k then some a else lastAnswer key k answers := by
  unfold lastAnswer
  rw [List.reverse_append, List.reverse_singleton, List.singleton_append, List.find?_cons]
  by_cases hk : key a.1 = k <;> simp [hk]

/-- There is a last answer for the key of every row that is left. -/
theorem exists_lastAnswer (key : Ref ProcessInfo → ProcessOrThreadKey)
    {answers : List (Ref ProcessInfo × Bool)} {p : Ref ProcessInfo} (hp : p ∈ leftRows answers) :
    ∃ a, lastAnswer key (key p) answers = some a := by
  obtain ⟨a, ha, rfl⟩ := List.mem_map.mp hp
  rw [← Option.isSome_iff_exists, lastAnswer, List.find?_isSome]
  exact ⟨a, List.mem_reverse.mpr (List.mem_of_mem_filter ha), decide_eq_true rfl⟩

/-- If no two rows have one key, the last answer for the key of a row that is left is the
one for the row. -/
theorem lastAnswer_of_nodup {key : Ref ProcessInfo → ProcessOrThreadKey}
    {answers : List (Ref ProcessInfo × Bool)} (hkeys : ((answers.map Prod.fst).map key).Nodup)
    {p : Ref ProcessInfo} (hp : p ∈ leftRows answers) :
    lastAnswer key (key p) answers = some (p, false) := by
  obtain ⟨a, hlast⟩ := exists_lastAnswer key hp
  obtain ⟨b, hb, rfl⟩ := List.mem_map.mp hp
  obtain ⟨hb, hstays⟩ := List.mem_filter.mp hb
  have ha : a ∈ answers := List.mem_reverse.mp (List.mem_of_find?_eq_some hlast)
  have hkey : key a.1 = key b.1 := by simpa using List.find?_some hlast
  rw [List.map_map] at hkeys
  rw [hlast, List.inj_on_of_nodup_map hkeys ha hb hkey]
  exact congrArg some (Prod.ext rfl (Bool.not_eq_true' _ ▸ hstays))

/-- With one more answer, its row is left as well unless the answer was to take it out. -/
theorem leftRows_concat (answers : List (Ref ProcessInfo × Bool)) (a : Ref ProcessInfo × Bool) :
    leftRows (answers ++ [a]) = leftRows answers ++ if a.2 then [] else [a.1] := by
  unfold leftRows
  rw [List.filter_append, List.map_append]
  cases h : a.2 <;> simp [h]

/-- **The invariant of the loop**, told by the answers of `Update` so far. -/
structure Traces (host : Host) (s : Session) (answers : List (Ref ProcessInfo × Bool))
    (l : Purge) : Prop where
  /-- The manager is the same. -/
  pm_eq : l.session.view.pm = s.view.pm
  /-- The answers are recorded. -/
  updates_eq : l.session.history.updates = s.history.updates ++ answers
  /-- `Update` has been called for the first rows, in order. -/
  asked : answers.map Prod.fst = s.view.processes.take answers.length
  /-- The rows are those left so far and those to come. -/
  processes_eq : l.session.view.processes = leftRows answers ++ s.view.processes.drop answers.length
  /-- The next row follows those left so far. -/
  i_eq : l.i = (leftRows answers).length
  /-- The positions noted are those of the rows left that are shown. -/
  indices_eq : l.indices =
    positions ((leftRows answers).map fun p => !s.view.hides host (s.view.filter host) p)
  /-- A record is marked as filtered when the last row of its key is left and hidden. -/
  filtered_eq : ∀ p, (l.session.view.infoEx host p).filtered =
    match lastAnswer s.view.key (s.view.key p) answers with
    | some (q, gone) => !gone && s.view.hides host (s.view.filter host) q
    | none => (s.view.infoEx host p).filtered

/-- Before the first round there is no answer, and the invariant holds. -/
theorem Traces.start (host : Host) (s : Session) : Traces host s [] ⟨s, 0, []⟩ :=
  ⟨rfl, (List.append_nil _).symm, by simp, by simp [leftRows], rfl, rfl, fun _ => rfl⟩

/-- The row of a round is the first one that has not been asked. -/
theorem Traces.row_eq {s : Session} {answers : List (Ref ProcessInfo × Bool)}
    (h : Traces host s answers l) : l.row = s.view.processes[answers.length]? := by
  rw [Purge.row, h.processes_eq, h.i_eq, List.getElem?_append_right (Nat.le_refl _), Nat.sub_self,
    List.getElem?_drop, Nat.add_zero]

/-- The row of a round stands between those left so far and those to come. -/
theorem Traces.processes_eq_cons {s : Session} {answers : List (Ref ProcessInfo × Bool)}
    (h : Traces host s answers l) (hpi : l.row = some pi) : l.session.view.processes =
      leftRows answers ++ pi :: s.view.processes.drop (answers.length + 1) := by
  obtain ⟨hlt, hget⟩ := List.getElem?_eq_some_iff.mp (h.row_eq.symm.trans hpi)
  rw [h.processes_eq, List.drop_eq_getElem_cons hlt, hget]

/-- When all rows have been asked, the rows are those that are left. -/
theorem Traces.processes_of_all {s : Session} {answers : List (Ref ProcessInfo × Bool)}
    (h : Traces host s answers l) (hasked : answers.map Prod.fst = s.view.processes) :
    l.session.view.processes = leftRows answers := by
  rw [h.processes_eq, ← List.length_map Prod.fst, hasked, List.drop_length, List.append_nil]

/-- After one more answer one more row has been asked. -/
theorem Traces.asked_concat {s : Session} {answers : List (Ref ProcessInfo × Bool)}
    (h : Traces host s answers l) (hpi : l.row = some pi) (gone : Bool) :
    (answers ++ [(pi, gone)]).map Prod.fst =
      s.view.processes.take (answers ++ [(pi, gone)]).length := by
  rw [List.map_append, h.asked, List.length_append, List.length_singleton, List.take_add_one,
    ← h.row_eq, hpi]
  rfl

/-- **One round** adds its answer to the trace and keeps the invariant. -/
theorem Traces.round {s : Session} {answers : List (Ref ProcessInfo × Bool)}
    (h : Traces host s answers l) (hpi : l.row = some pi) :
    Traces host s (answers ++ [(pi, (l.session.updateRow host pi).2)])
      (purgeRow host (s.view.filter host) l) := by
  have hkey := ProcessesView.key_congr h.pm_eq
  have hhides := ProcessesView.hides_congr h.pm_eq host (s.view.filter host)
  have hasked := h.asked_concat hpi (l.session.updateRow host pi).2
  have hrows := h.processes_eq_cons hpi
  have hindices := purgeRow_indices (s.view.filter host) host hpi
  rw [hhides, h.indices_eq, h.i_eq] at hindices
  rcases l.purgeRow_answer host (s.view.filter host) hpi with ⟨hgone, he⟩ | ⟨hstays, hk⟩
  · rw [hgone] at hasked hindices ⊢
    have hleft : leftRows (answers ++ [(pi, true)]) = leftRows answers := by
      rw [leftRows_concat, if_pos rfl, List.append_nil]
    refine ⟨he.pm_eq.trans h.pm_eq, ?_, hasked, ?_, ?_, ?_, fun p => ?_⟩
    · rw [he.updates_eq, h.updates_eq, List.append_assoc]
    · rw [he.processes_eq, hrows, h.i_eq, hleft, List.eraseIdx_append_of_length_le (Nat.le_refl _),
        Nat.sub_self, List.length_append]
      rfl
    · rw [he.i_eq, h.i_eq, hleft]
    · rw [hindices, hleft, Bool.true_or, if_pos rfl, List.append_nil]
    · rw [ProcessesView.infoEx_filtered_eq, he.lookup_eq, he.key_eq, hkey, lastAnswer_concat]
      by_cases hp : s.view.key pi = s.view.key p
      · rw [if_pos hp.symm, if_pos hp]
        rfl
      · rw [if_neg (Ne.symm hp), if_neg hp, ← h.filtered_eq, ProcessesView.infoEx_filtered_eq, hkey]
  · have hfiltered := purgeRow_filtered (s.view.filter host) host hpi hstays
    rw [hstays] at hasked hindices ⊢
    have hleft : leftRows (answers ++ [(pi, false)]) = leftRows answers ++ [pi] := by
      rw [leftRows_concat]
      rfl
    refine ⟨hk.pm_eq.trans h.pm_eq, ?_, hasked, ?_, ?_, ?_, fun p => ?_⟩
    · rw [hk.updates_eq, h.updates_eq, List.append_assoc]
    · rw [hk.processes_eq, hrows, hleft, List.length_append, List.append_assoc]
      rfl
    · rw [hk.i_eq, h.i_eq, hleft, List.length_append]
      rfl
    · rw [hindices, hleft, List.map_append, List.map_singleton, positions_concat, List.length_map,
        Bool.false_or]
      cases s.view.hides host (s.view.filter host) pi <;> rfl
    · obtain ⟨px, _, _, hlookup⟩ := hk.lookup_eq
      rw [ProcessesView.infoEx_filtered_eq, hlookup, hk.key_eq, hkey, if_pos rfl, hhides]
        at hfiltered
      rw [ProcessesView.infoEx_filtered_eq, hlookup, hk.key_eq, hkey, lastAnswer_concat]
      by_cases hp : s.view.key pi = s.view.key p
      · rw [if_pos hp.symm, if_pos hp, hfiltered]
        rfl
      · rw [if_neg (Ne.symm hp), if_neg hp, ← h.filtered_eq, ProcessesView.infoEx_filtered_eq, hkey]

end Purge

/-- After `n` rounds the first `n` rows have been asked. -/
theorem purgeAt_traces (host : Host) (s : Session) {n : ℕ} (hn : n ≤ s.view.processes.length) :
    ∃ answers, answers.length = n ∧ Purge.Traces host s answers (s.purgeAt host n) := by
  induction n with
  | zero => exact ⟨[], rfl, .start host s⟩
  | succ n ih =>
    obtain ⟨answers, hlength, h⟩ := ih (Nat.le_of_succ_le hn)
    have hlt : answers.length < s.view.processes.length := hlength ▸ hn
    have hrow : (s.purgeAt host n).row = some s.view.processes[answers.length] :=
      h.row_eq.trans (List.getElem?_eq_getElem hlt)
    rw [purgeAt_succ]
    exact ⟨_, by rw [List.length_append, List.length_singleton, hlength], h.round hrow⟩

/-- **The whole loop** calls `Update` once for each row, in order, and its answers tell
what the loop leaves. -/
theorem purge_traces (host : Host) (s : Session) :
    ∃ answers, answers.map Prod.fst = s.view.processes ∧
      Purge.Traces host s answers (s.purge host) := by
  obtain ⟨answers, hlength, h⟩ := purgeAt_traces host s (Nat.le_refl _)
  refine ⟨answers, ?_, h⟩
  rw [h.asked, hlength, List.take_length]

end Session

end ProcExpX
