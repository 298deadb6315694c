import ProcExpX.App.PurgeLoop

/-!
# The rounds of the purge loop

A round takes its row out precisely when the highlight of a terminated process is
over at the reading of the clock that the round makes. What the loop as a whole does
is shown round by round.
-/

namespace ProcExpX

open Library WinSys

/-- The time of a highlight is over at the next reading of the clock. -/
def ProcessInfoEx.Expired (px : ProcessInfoEx) (clock : Clock) : Prop :=
  clock.getTickCount.1.toUInt64 > px.expiryTime

/-- Whether the time of a highlight is over is decidable. -/
instance (px : ProcessInfoEx) (clock : Clock) : Decidable (px.Expired clock) :=
  inferInstanceAs (Decidable (_ > _))

/-- `Update` answers yes precisely for a record marked terminated whose time is over. -/
theorem ProcessInfoEx.update_fst_iff (px : ProcessInfoEx) (clock : Clock) :
    (px.update clock).1 = true ↔ px.isTerminated = true ∧ px.Expired clock := by
  unfold update Expired
  cases px.isTerminated <;> cases px.isNew <;> simp <;> split <;> simp_all

namespace Session

variable {host : Host}

/-- The row `pi` is marked terminated, and its highlight is over when the next round
looks at it. -/
def HighlightOver (host : Host) (s : Session) (pi : Ref ProcessInfo) : Prop :=
  (s.view.infoEx host pi).isTerminated = true ∧ (s.view.infoEx host pi).Expired s.clock

/-- Whether the highlight of a row is over is decidable. -/
instance (host : Host) (s : Session) (pi : Ref ProcessInfo) : Decidable (s.HighlightOver host pi) :=
  inferInstanceAs (Decidable (_ ∧ _))

/-- The answer of `Update` in a round. -/
theorem updateRow_snd_iff (host : Host) (s : Session) (pi : Ref ProcessInfo) :
    (s.updateRow host pi).2 = true ↔ s.HighlightOver host pi := by
  unfold updateRow
  rw [ProcessesView.getProcessInfoEx_eq]
  exact ProcessInfoEx.update_fst_iff _ _

/-- The row that the next round looks at. -/
def Purge.row (l : Purge) : Option (Ref ProcessInfo) := l.session.view.processes[l.i]?

/-- A round records the answer of `Update`. -/
theorem Purge.purgeRow_updates (host : Host) (filter : WString) (l : Purge)
    {pi : Ref ProcessInfo} (hpi : l.row = some pi) :
    (purgeRow host filter l).session.history.updates =
      l.session.history.updates ++ [(pi, (l.session.updateRow host pi).2)] := by
  rw [purgeRow_eq host filter l hpi]
  split
  · rfl
  · split <;> rfl

/-- **One round** takes its row out precisely when `Update` answers yes. -/
theorem Purge.purgeRow_answer (host : Host) (filter : WString) (l : Purge)
    {pi : Ref ProcessInfo} (hpi : l.row = some pi) :
    (l.session.updateRow host pi).2 = true ∧ l.Erases host (purgeRow host filter l) pi ∨
      (l.session.updateRow host pi).2 = false ∧ l.Keeps host (purgeRow host filter l) pi := by
  have hanswer : ∀ returned, (purgeRow host filter l).session.history.updates =
      l.session.history.updates ++ [(pi, returned)] →
        (l.session.updateRow host pi).2 = returned := by
    intro returned heq
    have hlast := List.append_cancel_left ((l.purgeRow_updates host filter hpi).symm.trans heq)
    exact (Prod.mk.inj (List.cons.inj hlast).1).2
  rcases purgeRow_cases host filter l hpi with he | hk
  · exact Or.inl ⟨hanswer true he.updates_eq, he⟩
  · exact Or.inr ⟨hanswer false hk.updates_eq, hk⟩

/-- A round leaves the records of other keys alone. -/
theorem Purge.purgeRow_lookup_of_ne (host : Host) (filter : WString) (l : Purge)
    {pi : Ref ProcessInfo} (hpi : l.row = some pi) {k : ProcessOrThreadKey}
    (hk : k ≠ l.session.view.key pi) :
    (purgeRow host filter l).session.view.processesEx.lookup k =
      l.session.view.processesEx.lookup k := by
  rcases purgeRow_cases host filter l hpi with he | hkeeps
  · rw [he.lookup_eq, if_neg hk]
  · obtain ⟨_, _, _, hlookup⟩ := hkeeps.lookup_eq
    rw [hlookup, if_neg hk]

/-- **One round** takes its row out precisely when its highlight is over. -/
theorem Purge.purgeRow_expiry (host : Host) (filter : WString) (l : Purge)
    {pi : Ref ProcessInfo} (hpi : l.row = some pi) :
    l.session.HighlightOver host pi ∧ l.Erases host (purgeRow host filter l) pi ∨
      ¬ l.session.HighlightOver host pi ∧ l.Keeps host (purgeRow host filter l) pi := by
  rw [← updateRow_snd_iff, Bool.not_eq_true]
  exact l.purgeRow_answer host filter hpi

/-- The loop ends with its last round. -/
theorem purgeLoop_succ (host : Host) (filter : WString) (n : ℕ) (l : Purge) :
    purgeLoop host filter (n + 1) l = purgeRow host filter (purgeLoop host filter n l) := by
  induction n generalizing l with
  | zero => rfl
  | succ n ih => exact ih (purgeRow host filter l)

/-- The purge loop of a frame after its first rounds. -/
def purgeAt (host : Host) (s : Session) (n : ℕ) : Purge :=
  purgeLoop host (s.view.filter host) n ⟨s, 0, []⟩

/-- One more round. -/
theorem purgeAt_succ (host : Host) (s : Session) (n : ℕ) :
    s.purgeAt host (n + 1) = purgeRow host (s.view.filter host) (s.purgeAt host n) :=
  purgeLoop_succ host _ n _

/-- A property of the session and the row at the start of each round. -/
def EachRound (host : Host) (s : Session) (P : Session → Ref ProcessInfo → Prop) : Prop :=
  ∀ n < s.view.processes.length, ∀ pi, (s.purgeAt host n).row = some pi →
    P (s.purgeAt host n).session pi

/-- A decidable property can be checked round by round. -/
instance (host : Host) (s : Session) (P : Session → Ref ProcessInfo → Prop)
    [∀ s pi, Decidable (P s pi)] : Decidable (s.EachRound host P) :=
  inferInstanceAs (Decidable (∀ n < s.view.processes.length, ∀ pi ∈ (s.purgeAt host n).row,
    P (s.purgeAt host n).session pi))

/-- The invariant of the loop after `n` of its rounds: the rows not yet visited are
those from position `i` on, and `P` holds. -/
structure PurgedTo (host : Host) (s : Session) (P : Purge → Prop) (n : ℕ) : Prop where
  /-- The number of rows left. -/
  count : (s.purgeAt host n).session.view.processes.length + n =
    (s.purgeAt host n).i + s.view.processes.length
  /-- The property. -/
  holds : P (s.purgeAt host n)

/-- **Round by round.** What holds at the start and is kept by a round that takes its
row out and by a round that keeps it holds at the end, when all rows have been visited. -/
theorem purge_rounds (host : Host) (s : Session) {P : Purge → Prop} (hstart : P ⟨s, 0, []⟩)
    (herase : ∀ n < s.view.processes.length, ∀ pi l', (s.purgeAt host n).row = some pi →
      P (s.purgeAt host n) → (s.purgeAt host n).session.HighlightOver host pi →
        (s.purgeAt host n).Erases host l' pi → P l')
    (hkeep : ∀ n < s.view.processes.length, ∀ pi l', (s.purgeAt host n).row = some pi →
      P (s.purgeAt host n) → ¬ (s.purgeAt host n).session.HighlightOver host pi →
        (s.purgeAt host n).Keeps host l' pi → P l') :
    P (s.purge host) ∧ (s.purge host).session.view.processes.length = (s.purge host).i := by
  have hrounds : ∀ n ≤ s.view.processes.length, s.PurgedTo host P n := by
    intro n
    induction n with
    | zero => exact fun _ => ⟨Nat.add_comm _ _, hstart⟩
    | succ n ih =>
      intro hn
      obtain ⟨hcount, hholds⟩ := ih (Nat.le_of_succ_le hn)
      have hlt : (s.purgeAt host n).i < (s.purgeAt host n).session.view.processes.length := by
        omega
      have hrow : (s.purgeAt host n).row = some _ := List.getElem?_eq_getElem hlt
      rcases Purge.purgeRow_expiry host (s.view.filter host) _ hrow with ⟨hover, he⟩ | ⟨hover, hk⟩
      · rw [← purgeAt_succ] at he
        refine ⟨?_, herase n hn _ _ hrow hholds hover he⟩
        rw [he.processes_eq, List.length_eraseIdx_of_lt hlt, he.i_eq]
        omega
      · rw [← purgeAt_succ] at hk
        refine ⟨?_, hkeep n hn _ _ hrow hholds hover hk⟩
        rw [hk.processes_eq, hk.i_eq]
        omega
  obtain ⟨hcount, hholds⟩ := hrounds _ le_rfl
  exact ⟨hholds, Nat.add_right_cancel hcount⟩

end Session

end ProcExpX
