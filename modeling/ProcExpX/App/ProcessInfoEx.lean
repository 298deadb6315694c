import ProcExpX.WinSys.Objects

/-!
# The view's own record of a process

`ProcessInfoEx` marks a row of the view as new or terminated for the time of a
highlight. The cached texts, attributes and icon are left out: none of them feeds
back into the marks.
-/

namespace ProcExpX

open Library WinSys

/-- The system uptime in milliseconds as successive readings return it. -/
structure Clock where
  /-- The readings, in the order they are taken. -/
  readings : ℕ → UInt64
  /-- The number of readings taken so far. -/
  taken : ℕ

/-- The clock after one more reading. -/
def Clock.next (c : Clock) : Clock := { c with taken := c.taken + 1 }

/-- `GetTickCount64`. -/
def Clock.getTickCount64 (c : Clock) : UInt64 × Clock := (c.readings c.taken, c.next)

/-- `GetTickCount`: the low 32 bits of the uptime. -/
def Clock.getTickCount (c : Clock) : UInt32 × Clock := ((c.readings c.taken).toUInt32, c.next)

/-- `ProcessInfoEx`. -/
structure ProcessInfoEx where
  /-- `_expiryTime`, unknown until the first mark is set. -/
  expiryTime : UInt64
  /-- `_pi`. -/
  pi : Ref ProcessInfo
  /-- `_isNew`. -/
  isNew : Bool
  /-- `_isTerminated`. -/
  isTerminated : Bool
  /-- `Filtered`. -/
  filtered : Bool

namespace ProcessInfoEx

/-- The constructor, which leaves the expiry time as the memory was. -/
def make (rawExpiry : UInt64) (pi : Ref ProcessInfo) : ProcessInfoEx :=
  { expiryTime := rawExpiry, pi := pi, isNew := false, isTerminated := false, filtered := false }

/-- `New`. -/
def new (px : ProcessInfoEx) (ms : UInt32) (clock : Clock) : ProcessInfoEx × Clock :=
  let (now, clock) := clock.getTickCount64
  ({ px with isNew := true, expiryTime := now + ms.toUInt64 }, clock)

/-- `Term`. -/
def term (px : ProcessInfoEx) (ms : UInt32) (clock : Clock) : ProcessInfoEx × Clock :=
  let (now, clock) := clock.getTickCount64
  ({ px with isNew := false, isTerminated := true, expiryTime := now + ms.toUInt64 }, clock)

/-- `Update`: take expired marks off, and answer whether the terminated mark was
among them. An unmarked record does not look at the clock. -/
def update (px : ProcessInfoEx) (clock : Clock) : Bool × ProcessInfoEx × Clock :=
  if !px.isNew && !px.isTerminated then (false, px, clock)
  else
    let term := px.isTerminated
    let (now, clock) := clock.getTickCount
    if now.toUInt64 > px.expiryTime then
      (term, { px with isTerminated := false, isNew := false }, clock)
    else (false, px, clock)

variable (px : ProcessInfoEx) (ms : UInt32) (clock : Clock)

/-- Marking a record as terminated keeps its process. -/
@[simp] theorem term_pi : (px.term ms clock).1.pi = px.pi := rfl

/-- Marking a record as new leaves it with its process. -/
@[simp] theorem new_pi : (px.new ms clock).1.pi = px.pi := rfl

/-- Marking a record as new leaves the terminated mark as it is. -/
@[simp] theorem new_isTerminated : (px.new ms clock).1.isTerminated = px.isTerminated := rfl

/-- What `Update` can do: leave the record alone and answer no, or take both marks
off and answer with the terminated mark. -/
theorem update_cases :
    ((px.update clock).1 = false ∧ (px.update clock).2.1 = px) ∨
      ((px.update clock).1 = px.isTerminated ∧
        (px.update clock).2.1 = { px with isTerminated := false, isNew := false }) := by
  unfold update
  split
  · exact Or.inl ⟨rfl, rfl⟩
  · dsimp only
    split
    · exact Or.inr ⟨rfl, rfl⟩
    · exact Or.inl ⟨rfl, rfl⟩

/-- `Update` keeps the process of a record. -/
@[simp] theorem update_pi : (px.update clock).2.1.pi = px.pi := by
  rcases px.update_cases clock with ⟨_, h⟩ | ⟨_, h⟩ <;> rw [h]

/-- `Update` leaves the expiry time as it is. -/
@[simp] theorem update_expiryTime : (px.update clock).2.1.expiryTime = px.expiryTime := by
  rcases px.update_cases clock with ⟨_, h⟩ | ⟨_, h⟩ <;> rw [h]

/-- `Update` answers yes only for a record marked terminated. -/
theorem isTerminated_of_update (h : (px.update clock).1 = true) : px.isTerminated = true := by
  rcases px.update_cases clock with ⟨hno, _⟩ | ⟨hmark, _⟩
  · rw [hno] at h
    cases h
  · rwa [hmark] at h

/-- As long as `Update` answers no the terminated mark stays as it is. -/
theorem update_isTerminated (h : (px.update clock).1 = false) :
    (px.update clock).2.1.isTerminated = px.isTerminated := by
  rcases px.update_cases clock with ⟨_, hsame⟩ | ⟨hmark, hoff⟩
  · rw [hsame]
  · rw [hoff, ← hmark, h]

end ProcessInfoEx

end ProcExpX
