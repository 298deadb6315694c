import Mathlib.Algebra.Group.Nat.Defs
import ProcExpX.App.ProcessInfoEx
import ProcExpX.Library.AtEach

/-!
# Highlights and the uptime

`New` and `Term` set the end of a highlight from the 64-bit uptime, and `Update`
compares it with the 32-bit one. Here the calls on one record come at arbitrary
times, and the highlights that end on time are told from the others.
-/

namespace ProcExpX

open Library WinSys

/-- A clock whose readings all show one time. -/
def Clock.still (time : UInt64) : Clock := ⟨fun _ => time, 0⟩

namespace ProcessInfoEx

/-- A call on a record, with the uptime at which it is made. -/
inductive Call where
  /-- `New(ms)`. -/
  | new (ms : UInt32) (time : UInt64)
  /-- `Term(ms)`. -/
  | term (ms : UInt32) (time : UInt64)
  /-- `Update()`. -/
  | update (time : UInt64)

/-- The call is no `Term`. -/
def Call.IsNoTerm : Call → Prop
  | .term _ _ => False
  | _ => True

/-- The record after a call. -/
def call (px : ProcessInfoEx) : Call → ProcessInfoEx
  | .new ms time => (px.new ms (.still time)).1
  | .term ms time => (px.term ms (.still time)).1
  | .update time => (px.update (.still time)).2.1

/-- The record after some calls. -/
def calls (px : ProcessInfoEx) (cs : List Call) : ProcessInfoEx := cs.foldl call px

/-- The answer of an `Update` at a time. -/
def answer (px : ProcessInfoEx) (time : UInt64) : Bool := (px.update (.still time)).1

/-- The end of a highlight of `ms` milliseconds set at a time. -/
def ending (ms : UInt32) (time : UInt64) : ℕ := time.toNat + ms.toNat

/-- The time is after the end of a highlight. -/
def Late (E : ℕ) (time : UInt64) : Prop := E < time.toNat

/-- Whether a highlight is over at a time is decidable. -/
instance (E : ℕ) (time : UInt64) : Decidable (Late E time) := inferInstanceAs (Decidable (_ < _))

/-- The answers of `Update` at successive times, with no call in between: yes
precisely at the first time after the end of the highlight. -/
def AnswersAtEnd (px : ProcessInfoEx) (E : ℕ) (times : List UInt64) : Prop :=
  AtEach (fun before time => (px.calls (before.map .update)).answer time = true ↔
    (∀ earlier ∈ before, ¬ Late E earlier) ∧ Late E time) times

/-- While `Update` is called at successive times it never answers yes, and the
record is new until the first time after the end of the highlight. -/
def NewUntilEnd (px : ProcessInfoEx) (E : ℕ) (times : List UInt64) : Prop :=
  AtEach (fun before time => (px.calls (before.map .update)).answer time = false) times ∧
    ∀ before rest, times = before ++ rest →
      ((px.calls (before.map .update)).isNew = true ↔ ∀ time ∈ before, ¬ Late E time)

/-- The highlights of a sequence of calls on a record end on time. -/
structure Punctual (px : ProcessInfoEx) (cs : List Call) : Prop where
  /-- A terminated record says so once, when its highlight has ended. -/
  term : ∀ before ms time times rest,
    cs = before ++ .term ms time :: (times.map .update ++ rest) →
      (px.calls (before ++ [.term ms time])).AnswersAtEnd (ending ms time) times
  /-- A new record that was never terminated loses its mark when its highlight has
  ended. -/
  new : ∀ before ms time times rest,
    cs = before ++ .new ms time :: (times.map .update ++ rest) → (∀ c ∈ before, c.IsNoTerm) →
      (px.calls (before ++ [.new ms time])).NewUntilEnd (ending ms time) times

/-- The low 32 bits of a time tell whether it is after the end of a highlight, when
the end is kept modulo 2^64: a time after the end has them after the end too, and
for an end beyond 2^64 no time has them after the part kept. -/
def LowBitsTell (E : ℕ) (time : UInt64) : Prop :=
  if E < 2 ^ 64 then Late E time → E < time.toNat % 2 ^ 32
  else time.toNat % 2 ^ 32 ≤ E - 2 ^ 64

/-- At each of the times, up to the first one after the end of the highlight, the low
32 bits tell. -/
def TellsInTime (E : ℕ) (times : List UInt64) : Prop :=
  AtEach (fun before time => (∀ earlier ∈ before, ¬ Late E earlier) → LowBitsTell E time) times

/-- After each mark of a sequence of calls, the low 32 bits of the uptime tell at
each `Update` up to the first one after the end of the highlight. -/
structure Timely (cs : List Call) : Prop where
  /-- After each `Term`. -/
  term : ∀ before ms time times rest,
    cs = before ++ .term ms time :: (times.map .update ++ rest) →
      TellsInTime (ending ms time) times
  /-- After each `New` with no `Term` before it. -/
  new : ∀ before ms time times rest,
    cs = before ++ .new ms time :: (times.map .update ++ rest) → (∀ c ∈ before, c.IsNoTerm) →
      TellsInTime (ending ms time) times

/-- The comparison `Update` makes at a time with a highlight that ends at `E`. -/
def Over (E : ℕ) (time : UInt64) : Prop := E % 2 ^ 64 < time.toNat % 2 ^ 32

/-- The comparison is right precisely when the low 32 bits tell. -/
theorem over_iff_late_iff {E : ℕ} (hE : E < 2 ^ 65) (time : UInt64) :
    (Over E time ↔ Late E time) ↔ LowBitsTell E time := by
  have hlt := time.toNat_lt
  have hle : time.toNat % 2 ^ 32 ≤ time.toNat := Nat.mod_le _ _
  unfold Over Late LowBitsTell
  split
  · have hmod : E % 2 ^ 64 = E := Nat.mod_eq_of_lt ‹_›
    rw [hmod]
    exact ⟨fun h => h.mpr, fun h => ⟨fun hover => Nat.lt_of_lt_of_le hover hle, h⟩⟩
  · have hmod : E % 2 ^ 64 = E - 2 ^ 64 := by omega
    have hend : ¬ E < time.toNat := by omega
    rw [hmod, iff_false_right hend, Nat.not_lt]

/-- The end of a highlight has at most one carry beyond 64 bits. -/
theorem ending_lt (ms : UInt32) (time : UInt64) : ending ms time < 2 ^ 65 := by
  have hms := ms.toNat_lt
  have htime := time.toNat_lt
  unfold ending
  omega

/-- The end of a highlight is stored as a 64-bit number. -/
theorem toNat_stored (ms : UInt32) (time : UInt64) :
    (time + ms.toUInt64).toNat = ending ms time % 2 ^ 64 := by
  rw [UInt64.toNat_add, UInt32.toNat_toUInt64, ending]

/-- The low 32 bits tell in time precisely when the comparison is right up to the end
of the highlight. -/
theorem tellsInTime_iff {E : ℕ} (hE : E < 2 ^ 65) (times : List UInt64) :
    TellsInTime E times ↔ AtEach.AgreeUntil (Over E) (Late E) times := by
  unfold TellsInTime AtEach.AgreeUntil AtEach
  simp only [over_iff_late_iff hE]

variable {px : ProcessInfoEx} {E : ℕ} {times : List UInt64}

/-- The record without its marks. -/
def unmarked (px : ProcessInfoEx) : ProcessInfoEx :=
  { px with isTerminated := false, isNew := false }

/-- A record with no mark has none to lose. -/
theorem unmarked_eq (hnew : px.isNew = false) (hterm : px.isTerminated = false) :
    px.unmarked = px := by
  cases px
  cases hnew
  cases hterm
  rfl

/-- `Update` finds a highlight expired precisely when the low bits of the time are past its stored
end. -/
theorem expired_still (hE : px.expiryTime.toNat = E % 2 ^ 64) (time : UInt64) :
    (Clock.still time).getTickCount.1.toUInt64 > px.expiryTime ↔ Over E time := by
  rw [gt_iff_lt, UInt64.lt_iff_toNat_lt, hE]
  rfl

/-- An `Update` at a time after the end kept takes the marks off, and answers with the
terminated mark. -/
theorem update_over (hE : px.expiryTime.toNat = E % 2 ^ 64) {time : UInt64} (h : Over E time) :
    px.answer time = px.isTerminated ∧ px.call (.update time) = px.unmarked := by
  have hover := (expired_still hE time).mpr h
  unfold answer call update
  split
  · rename_i hnone
    obtain ⟨hnew, hterm⟩ : px.isNew = false ∧ px.isTerminated = false := by simpa using hnone
    exact ⟨hterm.symm, (unmarked_eq hnew hterm).symm⟩
  · dsimp only
    rw [if_pos hover]
    exact ⟨rfl, rfl⟩

/-- An `Update` at a time up to the end kept does nothing. -/
theorem update_not_over (hE : px.expiryTime.toNat = E % 2 ^ 64) {time : UInt64}
    (h : ¬ Over E time) : px.answer time = false ∧ px.call (.update time) = px := by
  have hover := mt (expired_still hE time).mp h
  unfold answer call update
  split
  · exact ⟨rfl, rfl⟩
  · dsimp only
    rw [if_neg hover]
    exact ⟨rfl, rfl⟩

/-- Calls with one more at the end are made one after the other. -/
theorem calls_concat (px : ProcessInfoEx) (cs : List Call) (c : Call) :
    px.calls (cs ++ [c]) = (px.calls cs).call c := by
  unfold calls
  rw [List.foldl_append]
  rfl

/-- The record after any number of `Update`s: as it was, or without its marks when one
of them came after the end kept. -/
theorem calls_updates (hE : px.expiryTime.toNat = E % 2 ^ 64) (times : List UInt64) :
    ((∀ time ∈ times, ¬ Over E time) ∧ px.calls (times.map .update) = px) ∨
      ((∃ time ∈ times, Over E time) ∧ px.calls (times.map .update) = px.unmarked) := by
  induction times using List.reverseRecOn with
  | nil => exact Or.inl ⟨by simp, rfl⟩
  | append_singleton times time ih =>
    rw [List.map_append, List.map_singleton, calls_concat]
    rcases ih with ⟨hnone, heq⟩ | ⟨⟨earlier, hearlier, hover⟩, heq⟩
    · rw [heq]
      by_cases hover : Over E time
      · exact Or.inr ⟨⟨time, by simp, hover⟩, (update_over hE hover).2⟩
      · refine Or.inl ⟨?_, (update_not_over hE hover).2⟩
        simp only [List.forall_mem_append, List.forall_mem_singleton]
        exact ⟨hnone, hover⟩
    · refine Or.inr ⟨⟨earlier, List.mem_append_left _ hearlier, hover⟩, ?_⟩
      have hunmarked : px.unmarked.expiryTime.toNat = E % 2 ^ 64 := hE
      rw [heq]
      by_cases hover : Over E time
      · exact (update_over hunmarked hover).2
      · exact (update_not_over hunmarked hover).2

/-- The answer of an `Update` after others: yes for a terminated record at the first
time after the end kept. -/
theorem answer_calls_updates (hE : px.expiryTime.toNat = E % 2 ^ 64) (times : List UInt64)
    (time : UInt64) : (px.calls (times.map .update)).answer time = true ↔
      px.isTerminated = true ∧ (∀ earlier ∈ times, ¬ Over E earlier) ∧ Over E time := by
  rcases calls_updates hE times with ⟨hnone, heq⟩ | ⟨⟨earlier, hearlier, hover⟩, heq⟩
  · rw [heq, and_iff_right hnone]
    by_cases hover : Over E time
    · rw [(update_over hE hover).1, and_iff_left hover]
    · rw [(update_not_over hE hover).1]
      simp [hover]
  · have hno : px.unmarked.answer time = false := rfl
    rw [heq, hno]
    refine iff_of_false Bool.false_ne_true ?_
    rintro ⟨_, hnone, _⟩
    exact hnone earlier hearlier hover

/-- The new mark after any number of `Update`s. -/
theorem isNew_calls_updates (hE : px.expiryTime.toNat = E % 2 ^ 64) (hnew : px.isNew = true)
    (times : List UInt64) :
    (px.calls (times.map .update)).isNew = true ↔ ∀ time ∈ times, ¬ Over E time := by
  rcases calls_updates hE times with ⟨hnone, heq⟩ | ⟨⟨earlier, hearlier, hover⟩, heq⟩
  · rw [heq]
    exact iff_of_true hnew hnone
  · rw [heq]
    exact iff_of_false Bool.false_ne_true fun hnone => hnone earlier hearlier hover

/-- A terminated record answers at the end of its highlight precisely when the low 32
bits tell in time. -/
theorem answersAtEnd_iff (hlt : E < 2 ^ 65) (hE : px.expiryTime.toNat = E % 2 ^ 64)
    (hterm : px.isTerminated = true) : px.AnswersAtEnd E times ↔ TellsInTime E times := by
  rw [tellsInTime_iff hlt, ← AtEach.firsts_agree_iff]
  unfold AnswersAtEnd AtEach
  simp only [answer_calls_updates hE, and_iff_right hterm]

/-- A new record loses its mark at the end of its highlight precisely when the low 32
bits tell in time. -/
theorem newUntilEnd_iff (hlt : E < 2 ^ 65) (hE : px.expiryTime.toNat = E % 2 ^ 64)
    (hnew : px.isNew = true) (hterm : px.isTerminated = false) :
    px.NewUntilEnd E times ↔ TellsInTime E times := by
  rw [tellsInTime_iff hlt, ← AtEach.none_agree_iff]
  unfold NewUntilEnd
  simp only [isNew_calls_updates hE hnew]
  refine and_iff_right ?_
  intro before time rest _
  rw [← Bool.not_eq_true, answer_calls_updates hE]
  rintro ⟨hmark, _⟩
  rw [hterm] at hmark
  cases hmark

/-- Without a `Term` a record does not get the terminated mark. -/
theorem isTerminated_calls (px : ProcessInfoEx) (hterm : px.isTerminated = false) (cs : List Call)
    (hcs : ∀ c ∈ cs, c.IsNoTerm) : (px.calls cs).isTerminated = false := by
  induction cs using List.reverseRecOn with
  | nil => exact hterm
  | append_singleton cs c ih =>
    obtain ⟨hbefore, hc⟩ := List.forall_mem_append.mp hcs
    rw [calls_concat]
    have hno := ih hbefore
    cases c with
    | new ms time => exact hno
    | term ms time => exact absurd (hc _ (List.mem_singleton_self _)) id
    | update time =>
      unfold call
      dsimp only
      rcases (px.calls cs).update_cases (.still time) with ⟨_, hsame⟩ | ⟨_, hoff⟩
      · rw [hsame, hno]
      · rw [hoff]

/-- **Highlights that end on time.** Over every sequence of calls on a fresh record, all
highlights end on time precisely when the low 32 bits of the uptime tell at every
`Update` that still finds a highlight on. -/
theorem punctual_iff (rawExpiry : UInt64) (pi : Ref ProcessInfo) (cs : List Call) :
    (make rawExpiry pi).Punctual cs ↔ Timely cs := by
  have hterm : ∀ before ms time times,
      ((make rawExpiry pi).calls (before ++ [.term ms time])).AnswersAtEnd (ending ms time) times ↔
        TellsInTime (ending ms time) times := by
    intro before ms time times
    rw [calls_concat]
    exact answersAtEnd_iff (ending_lt ms time) (toNat_stored ms time) rfl
  have hnew : ∀ before ms time times, (∀ c ∈ before, c.IsNoTerm) →
      (((make rawExpiry pi).calls (before ++ [.new ms time])).NewUntilEnd (ending ms time) times ↔
        TellsInTime (ending ms time) times) := by
    intro before ms time times hbefore
    rw [calls_concat]
    exact newUntilEnd_iff (ending_lt ms time) (toNat_stored ms time) rfl
      (isTerminated_calls _ rfl before hbefore)
  constructor
  · intro h
    exact ⟨fun before ms time times rest heq =>
        (hterm _ _ _ _).mp (h.term before ms time times rest heq),
      fun before ms time times rest heq hbefore =>
        (hnew _ _ _ _ hbefore).mp (h.new before ms time times rest heq hbefore)⟩
  · intro h
    exact ⟨fun before ms time times rest heq =>
        (hterm _ _ _ _).mpr (h.term before ms time times rest heq),
      fun before ms time times rest heq hbefore =>
        (hnew _ _ _ _ hbefore).mpr (h.new before ms time times rest heq hbefore)⟩

/-- The uptime at a call. -/
def Call.time : Call → UInt64
  | .new _ time => time
  | .term _ time => time
  | .update time => time

/-- In the first 2^32 milliseconds all highlights end on time. -/
theorem punctual_of_time_lt (rawExpiry : UInt64) (pi : Ref ProcessInfo) (cs : List Call)
    (hcs : ∀ c ∈ cs, c.time.toNat < 2 ^ 32) : (make rawExpiry pi).Punctual cs := by
  have htells : ∀ (before : List Call) (c : Call) (ms : UInt32) (times : List UInt64)
      (rest : List Call), cs = before ++ c :: (times.map .update ++ rest) →
        TellsInTime (ending ms c.time) times := by
    rintro before c ms times rest rfl earlier time later rfl _
    have hc := hcs c (by simp)
    have htime : time.toNat < 2 ^ 32 := hcs (.update time) (by simp)
    have hms := ms.toNat_lt
    unfold LowBitsTell ending
    rw [if_pos (by omega), Nat.mod_eq_of_lt htime]
    exact id
  rw [punctual_iff]
  exact ⟨fun before ms time times rest heq => htells before (.term ms time) ms times rest heq,
    fun before ms time times rest heq _ => htells before (.new ms time) ms times rest heq⟩

/-- A record marked terminated for two seconds just when the low 32 bits of the uptime
start again from zero does not answer after three seconds. -/
theorem wrapped_highlight_stays :
    ¬ (make 0 ⟨0⟩).Punctual [.term 2000 4294967296, .update 4294970296] := by
  intro h
  have hend := h.term [] 2000 4294967296 [4294970296] [] rfl
  have hfirst := AtEach.singleton_iff.mp hend
  exact absurd (hfirst.mpr ⟨by simp, by decide⟩) (by decide)

end ProcessInfoEx

end ProcExpX
