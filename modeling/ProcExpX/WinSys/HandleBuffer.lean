import Mathlib.Logic.Function.Iterate
import ProcExpX.Library.Loop
import ProcExpX.Library.Reader
import ProcExpX.WinSys.HandlesTracker

/-!
# The buffer of a handle query

`EnumHandles` asks for the handles of a process with a buffer of four megabytes, and as long
as that is too small with one of the length asked for and four kilobytes more. In the meantime
the process goes on opening handles. Here the tracker works on the bytes that the last query
leaves in the buffer; elsewhere it is handed the entries that the bytes stand for.
-/

namespace WinSys

open Library Library.Reader

/-- `PROCESS_HANDLE_TABLE_ENTRY_INFO`, without its reserved member. -/
structure HandleTableEntry where
  /-- `HandleValue`. -/
  handleValue : Handle
  /-- `HandleCount`. -/
  handleCount : UInt64
  /-- `PointerCount`. -/
  pointerCount : UInt64
  /-- `GrantedAccess`. -/
  grantedAccess : UInt32
  /-- `ObjectTypeIndex`. -/
  objectTypeIndex : UInt32
  /-- `HandleAttributes`. -/
  handleAttributes : UInt32

/-- What the tracker takes from an entry. -/
def HandleTableEntry.info (entry : HandleTableEntry) : HandleEntryInfo :=
  ⟨entry.handleValue, entry.objectTypeIndex⟩

/-- `sizeof(PROCESS_HANDLE_TABLE_ENTRY_INFO)`. -/
def handleSize : ℕ := 40

/-- `FIELD_OFFSET(PROCESS_HANDLE_SNAPSHOT_INFORMATION, Handles)`. -/
def handlesOffset : ℕ := 16

/-- The members of a `PROCESS_HANDLE_TABLE_ENTRY_INFO` in the order of its layout. -/
def readHandle : Reader HandleTableEntry := do
  let handleValue ← uint64
  let handleCount ← uint64
  let pointerCount ← uint64
  let grantedAccess ← uint32
  let objectTypeIndex ← uint32
  let handleAttributes ← uint32
  -- `Reserved`
  let _ ← take 4
  return {
    handleValue := handleValue, handleCount := handleCount, pointerCount := pointerCount
    grantedAccess := grantedAccess, objectTypeIndex := objectTypeIndex
    handleAttributes := handleAttributes }

/-- A `PROCESS_HANDLE_SNAPSHOT_INFORMATION`. The loops over its entries count in 32 bits, and
would not end for more. -/
def readHandles : Reader HandleSnapshot := do
  let numberOfHandles ← uint64
  -- `Reserved`
  let _ ← take 8
  let handles ← many readHandle numberOfHandles.toNat
  if h : (handles.val.map HandleTableEntry.info).length < 2 ^ 32 then
    return ⟨handles.val.map HandleTableEntry.info, h⟩
  else failure

/-- The answer to one query. -/
inductive HandleAnswer
  /-- `STATUS_SUCCESS`, with what is in the buffer. -/
  | success (bytes : List UInt8)
  /-- `STATUS_BUFFER_TOO_SMALL`, with the length that is asked for. -/
  | bufferTooSmall (len : UInt32)
  /-- Any other status. -/
  | failure

/-- What a call of `EnumHandles` meets outside the tracker, with the buffers as they are. -/
structure HandleWorld where
  /-- Whether the history is to be cleared. -/
  clearHistory : Bool
  /-- Whether `WaitForSingleObject` finds the process exited. -/
  exited : Bool
  /-- The answer to each query, for a buffer of the given size. -/
  answers : ℕ → Int32 → HandleAnswer
  /-- The order in which the closed handles are copied. -/
  order : IterationOrder

/-- The same with the answers as snapshots. -/
def HandleWorld.answered (world : HandleWorld) (query : HandleQuery) : HandleCall :=
  { clearHistory := world.clearHistory, exited := world.exited, query := query
    order := world.order }

/-- The local variables of the loop that queries. -/
structure HandleLocals where
  /-- `size`. -/
  size : Int32
  /-- The number of queries that were too small. -/
  queries : ℕ
  /-- What a successful query has left in the buffer. -/
  buffer : Option (List UInt8)

/-- One round of the loop that queries. There is no buffer of a negative size. -/
def queryRound (answers : ℕ → Int32 → HandleAnswer) (l : HandleLocals) : Round HandleLocals :=
  if l.size < 0 then .wrong
  else
    match answers l.queries l.size with
    | .success bytes => .leave { l with buffer := some bytes }
    | .bufferTooSmall len =>
      .again { l with size := (len + (1 : UInt32) <<< 12).toInt32, queries := l.queries + 1 }
    | .failure => .leave l

/-- `EnumHandles` on the buffer, if its first loop ends within `fuel` rounds and no memory
outside of the buffer is read. -/
def HandlesTracker.enumHandlesIn (world : HandleWorld) (fuel : ℕ) (t : HandlesTracker) :
    Option (HandlesTracker × UInt32) :=
  if t.isValid && !world.exited then
    (loop (queryRound world.answers) fuel ⟨(1 : Int32) <<< 22, 0, none⟩).bind fun l =>
      match l.buffer with
      | none => some (t.enumHandles (world.answered .failure))
      | some bytes => (readHandles bytes).map fun read =>
          t.enumHandles (world.answered (.success read.1))
  else some (t.enumHandles (world.answered .failure))

/-- The entry of a handle at a place. -/
def putHandle (raw : ℕ → UInt8) (place : ℕ) (entry : HandleTableEntry) : List UInt8 :=
  [put64 entry.handleValue, put64 entry.handleCount, put64 entry.pointerCount,
    put32 entry.grantedAccess, put32 entry.objectTypeIndex, put32 entry.handleAttributes,
    pad raw (place + 36) 4].flatten

/-- The entries of a handle table, with their number in front. -/
def putHandles (raw : ℕ → UInt8) (table : List HandleTableEntry) : List UInt8 :=
  put64 (.ofNat table.length) ++ (pad raw 8 8 ++ putMany handleSize (putHandle raw) 16 table)

/-- An entry is read as it was written. -/
theorem readHandle_putHandle (raw : ℕ → UInt8) (place : ℕ) (entry : HandleTableEntry)
    (rest : List UInt8) :
    readHandle (putHandle raw place entry ++ rest) = some (entry, rest) := by
  simp only [readHandle, putHandle, List.flatten_cons, List.append_assoc, run_uint64, run_uint32,
    run_pad]
  rfl

/-- The entries of a table are read as they were written, whatever follows. -/
theorem readHandles_putHandles (raw : ℕ → UInt8) {table : List HandleTableEntry}
    (hlength : (table.map HandleTableEntry.info).length < 2 ^ 32) (rest : List UInt8) :
    (readHandles (putHandles raw table ++ rest)).map Prod.fst =
      some ⟨table.map HandleTableEntry.info, hlength⟩ := by
  have hcount : table.length = (UInt64.ofNat table.length).toNat := by
    rw [List.length_map] at hlength
    rw [UInt64.toNat_ofNat_of_lt' (by show _ < 2 ^ 64; omega)]
  simp only [readHandles, putHandles, List.append_assoc, run_uint64, run_pad,
    run_many (readHandle_putHandle raw) hcount]
  rw [dif_pos hlength]
  rfl

/-- The size of a handle table in a buffer. -/
def handlesSize (table : List HandleTableEntry) : ℕ :=
  handlesOffset + handleSize * table.length

/-- The process that is queried, which opens and closes handles between the queries, and the
system that answers them. -/
structure HandleSystem where
  /-- The handle table of the process at each query. -/
  tables : ℕ → List HandleTableEntry
  /-- A process has no more than 2^24 handles. -/
  tables_length : ∀ n, (tables n).length ≤ 2 ^ 24
  /-- Whether a query fails whatever the size of its buffer. -/
  fails : ℕ → Bool
  /-- How much the system asks for beyond what the table needs. -/
  spare : ℕ → ℕ
  /-- That is no more than a gigabyte. -/
  spare_le : ∀ n, spare n ≤ 2 ^ 30
  /-- What the bytes hold that no member covers. -/
  raw : ℕ → UInt8

/-- A process without handles. -/
instance : Inhabited HandleSystem where
  default :=
    { tables := fun _ => [], tables_length := fun _ => by decide, fails := fun _ => false
      spare := fun _ => 0, spare_le := fun _ => by decide, raw := fun _ => 0 }

namespace HandleSystem

variable (sys : HandleSystem)

/-- The answer to a query. -/
def answer (n : ℕ) (size : Int32) : HandleAnswer :=
  let needed := handlesSize (sys.tables n)
  if sys.fails n then .failure
  else if size.toInt < needed then .bufferTooSmall (.ofNat (needed + sys.spare n))
  else .success (putHandles sys.raw (sys.tables n) ++
    pad sys.raw needed (size.toInt.toNat - needed))

/-- A table has a length of 32 bits. -/
theorem info_length (n : ℕ) :
    ((sys.tables n).map HandleTableEntry.info).length < 2 ^ 32 := by
  have hlength := sys.tables_length n
  rw [List.length_map]
  omega

/-- The answer to a query with a buffer that is large enough. -/
def outcome (n : ℕ) : HandleQuery :=
  if sys.fails n then .failure
  else .success ⟨(sys.tables n).map HandleTableEntry.info, sys.info_length n⟩

/-- A number of queries in a row could be too small. -/
structure Outgrown (n : ℕ) : Prop where
  /-- They did not fail. -/
  answered : ∀ k < n, sys.fails k = false
  /-- The process had more handles than the first buffer takes. -/
  first : 0 < n → 104857 < (sys.tables 0).length
  /-- At each of the others it had more than 102 handles above those at the one before. -/
  next : ∀ k, k + 1 < n → (sys.tables k).length + 102 < (sys.tables (k + 1)).length

/-- The loop is about to make a query. -/
structure Asking (l : HandleLocals) : Prop where
  /-- Those before were too small. -/
  outgrown : sys.Outgrown l.queries
  /-- The size of the first buffer. -/
  first : l.queries = 0 → l.size.toInt = 4194304
  /-- The size of a later one. -/
  next : ∀ k, l.queries = k + 1 →
    l.size.toInt = handlesSize (sys.tables k) + sys.spare k + 4096
  /-- There is nothing in the buffer. -/
  empty : l.buffer = none

/-- The loop is left after a query. -/
def Asked (n : ℕ) (l : HandleLocals) : Prop :=
  if sys.fails n then l.buffer = none
  else ∃ rest, l.buffer = some (putHandles sys.raw (sys.tables n) ++ rest)

variable {sys}

/-- A buffer has the size that it is meant to have. -/
theorem toInt_size {needed : ℕ} (h : needed + 4096 < 2 ^ 31) :
    ((UInt32.ofNat needed + (1 : UInt32) <<< 12).toInt32).toInt = needed + 4096 := by
  have hslack : (1 : UInt32) <<< 12 = UInt32.ofNat 4096 := by decide
  rw [hslack, ← UInt32.ofNat_add]
  exact Int32.toInt_ofNat_of_lt h

/-- No buffer is of a negative size. -/
theorem Asking.size_nonneg {l : HandleLocals} (h : sys.Asking l) : 0 ≤ l.size.toInt := by
  cases hqueries : l.queries with
  | zero =>
    have hsize := h.first hqueries
    omega
  | succ k =>
    have hsize := h.next k hqueries
    omega

/-- A query that is too small is followed by one with a larger buffer. -/
theorem Asking.retry {l : HandleLocals} (h : sys.Asking l) (hfails : sys.fails l.queries = false)
    (hsmall : l.size.toInt < handlesSize (sys.tables l.queries)) {size : Int32}
    (hsize : size.toInt = handlesSize (sys.tables l.queries) + sys.spare l.queries + 4096) :
    sys.Asking { l with size := size, queries := l.queries + 1 } := by
  refine ⟨⟨fun k hk => ?_, fun _ => ?_, fun k hk => ?_⟩, fun hzero => ?_, fun k hk => ?_, h.empty⟩
  · rcases Nat.lt_succ_iff_lt_or_eq.mp hk with hlt | rfl
    · exact h.outgrown.answered k hlt
    · exact hfails
  · rcases Nat.eq_zero_or_pos l.queries with hzero | hpos
    · have hfirst := h.first hzero
      rw [hfirst, hzero] at hsmall
      unfold handlesSize handlesOffset handleSize at hsmall
      omega
    · exact h.outgrown.first hpos
  · rcases Nat.lt_succ_iff_lt_or_eq.mp hk with hlt | heq
    · exact h.outgrown.next k hlt
    · have hnext := h.next k heq.symm
      rw [hnext, ← heq] at hsmall
      unfold handlesSize handlesOffset handleSize at hsmall
      omega
  · cases hzero
  · obtain rfl := Nat.succ.inj hk
    exact hsize

/-- **One query.** The loop is left with the outcome of the query, or goes on with a larger
buffer. -/
theorem Asking.round {l : HandleLocals} (h : sys.Asking l) :
    (∃ l', queryRound sys.answer l = .again l' ∧ sys.Asking l' ∧
      2 ^ 31 - l'.size.toInt.toNat < 2 ^ 31 - l.size.toInt.toNat) ∨
    ∃ l', queryRound sys.answer l = .leave l' ∧ ∃ n, sys.Outgrown n ∧ sys.Asked n l' := by
  have hnonneg := h.size_nonneg
  have hsize : ¬ l.size < 0 := by
    rw [Int32.lt_iff_toInt_lt]
    exact Int.not_lt.mpr hnonneg
  unfold queryRound answer
  rw [if_neg hsize]
  dsimp only
  by_cases hfails : sys.fails l.queries = true
  · rw [if_pos hfails]
    refine Or.inr ⟨l, rfl, l.queries, h.outgrown, ?_⟩
    rw [Asked, if_pos hfails]
    exact h.empty
  rw [if_neg hfails]
  by_cases hsmall : l.size.toInt < handlesSize (sys.tables l.queries)
  · rw [if_pos hsmall]
    have hlength := sys.tables_length l.queries
    have hspare := sys.spare_le l.queries
    have hfits : handlesSize (sys.tables l.queries) + sys.spare l.queries + 4096 < 2 ^ 31 := by
      unfold handlesSize handlesOffset handleSize
      omega
    have hnext := toInt_size hfits
    rw [Int.natCast_add] at hnext
    refine Or.inl ⟨_, rfl, h.retry (by simpa using hfails) hsmall hnext, ?_⟩
    dsimp only
    omega
  · rw [if_neg hsmall]
    refine Or.inr ⟨_, rfl, l.queries, h.outgrown, ?_⟩
    rw [Asked, if_neg hfails]
    exact ⟨_, rfl⟩

/-- The loop starts with a buffer of four megabytes. -/
theorem start_asking : sys.Asking ⟨(1 : Int32) <<< 22, 0, none⟩ where
  outgrown := by
    refine ⟨?_, ?_, ?_⟩
    · intro k hk
      cases hk
    · intro hpos
      cases hpos
    · intro k hk
      cases hk
  first _ := by decide
  next k hk := by cases hk
  empty := rfl

/-- Queries that are too small do not change the outcome. -/
theorem snapshot_bufferTooSmall (query : HandleQuery) (n : ℕ) :
    (HandleQuery.bufferTooSmall^[n] query).snapshot = query.snapshot := by
  induction n generalizing query with
  | zero => rfl
  | succ n ih =>
    rw [Function.iterate_succ_apply, ih]
    rfl

end HandleSystem

namespace HandlesTracker

/-- The answers to the queries matter by the snapshot that they end with. -/
theorem enumHandles_congr (t : HandlesTracker) (world : HandleWorld) {q q' : HandleQuery}
    (h : q.snapshot = q'.snapshot) :
    t.enumHandles (world.answered q) = t.enumHandles (world.answered q') := by
  unfold enumHandles HandleWorld.answered
  dsimp only
  rw [h]

/-- Without queries it does not matter how they would be answered. -/
theorem enumHandles_unasked {t : HandlesTracker} {world : HandleWorld}
    (hunasked : (t.isValid && !world.exited) = false) (q q' : HandleQuery) :
    t.enumHandles (world.answered q) = t.enumHandles (world.answered q') := by
  cases hvalid : t.isValid with
  | false => simp [enumHandles, hvalid]
  | true =>
    have hexited : world.exited = true := by simpa [hvalid] using hunasked
    rw [enumHandles_exited hvalid hexited, enumHandles_exited hvalid hexited]
    rfl

/-- **The query loop ends.** However many handles the process opens between the queries,
`EnumHandles` returns, and does what it does when it is handed the entries of the table at the
last query. A second query is made only if the process had more than 104857 handles at the
first, and each one after that only if at the query before there were more than 102 handles
above those at the one before that. -/
theorem enumHandlesIn_system (t : HandlesTracker) (world : HandleWorld) (sys : HandleSystem) :
    let world := { world with answers := sys.answer }
    ∃ n, sys.Outgrown n ∧ ∀ fuel, 2 ^ 31 < fuel →
      t.enumHandlesIn world fuel =
        some (t.enumHandles (world.answered (HandleQuery.bufferTooSmall^[n] (sys.outcome n)))) := by
  intro world
  cases hasked : t.isValid && !world.exited with
  | false =>
    refine ⟨0, HandleSystem.start_asking.outgrown, fun fuel _ => ?_⟩
    unfold enumHandlesIn
    rw [hasked, enumHandles_unasked hasked .failure]
    rfl
  | true =>
    obtain ⟨l, hloop, n, houtgrown, hl⟩ := loop_leaves
      (fun l : HandleLocals => 2 ^ 31 - l.size.toInt.toNat)
      (fun l (hl : sys.Asking l) => hl.round) HandleSystem.start_asking
    refine ⟨n, houtgrown, fun fuel hfuel => ?_⟩
    have hleft : loop (queryRound world.answers) fuel ⟨(1 : Int32) <<< 22, 0, none⟩ = some l :=
      hloop fuel (by omega)
    have hanswers := t.enumHandles_congr world
      (HandleSystem.snapshot_bufferTooSmall (sys.outcome n) n)
    unfold enumHandlesIn
    rw [hasked, if_pos rfl, hleft, Option.bind_some, hanswers, HandleSystem.outcome]
    unfold HandleSystem.Asked at hl
    by_cases hfails : sys.fails n = true
    · rw [if_pos hfails] at hl ⊢
      rw [hl]
    · rw [if_neg hfails] at hl ⊢
      obtain ⟨rest, hbuffer⟩ := hl
      have hread := readHandles_putHandles sys.raw (sys.info_length n) rest
      obtain ⟨read, hread, hsnapshot⟩ := Option.map_eq_some_iff.mp hread
      rw [hbuffer]
      dsimp only
      rw [hread, Option.map_some, hsnapshot]

end HandlesTracker

end WinSys
