import Mathlib.Algebra.Group.Nat.Defs
import Mathlib.Data.Nat.Notation

/-!
# Reading records from bytes

A reader takes what it needs off the front of the bytes, or fails if they are too few.
Records are written field by field, the low byte of a number first, and a reader that
takes the fields in the same order gets them back, whatever follows.
-/

namespace Library

/-- Take something off the front of some bytes, if there are enough of them. -/
abbrev Reader := StateT (List UInt8) Option

/-- The lowest bytes of a number, the low byte first. -/
def leBytes : ℕ → ℕ → List UInt8
  | 0, _ => []
  | width + 1, n => UInt8.ofNat n :: leBytes width (n / 256)

/-- The number that bytes make up, the low byte first. -/
def leValue : List UInt8 → ℕ
  | [] => 0
  | b :: bytes => b.toNat + 256 * leValue bytes

/-- There are as many bytes as asked for. -/
@[simp] theorem length_leBytes (width n : ℕ) : (leBytes width n).length = width := by
  induction width generalizing n with
  | zero => rfl
  | succ width ih => rw [leBytes, List.length_cons, ih]

/-- A number that fits is made up by its bytes. -/
theorem leValue_leBytes {width n : ℕ} (h : n < 256 ^ width) :
    leValue (leBytes width n) = n := by
  induction width generalizing n with
  | zero =>
    have hn : n = 0 := by simpa using h
    rw [hn]
    rfl
  | succ width ih =>
    have hdiv : n / 256 < 256 ^ width := by
      rw [Nat.div_lt_iff_lt_mul (by decide)]
      rwa [Nat.pow_succ] at h
    rw [leBytes, leValue, ih hdiv, UInt8.toNat_ofNat']
    omega

/-- A 16-bit number as bytes. -/
def put16 (n : UInt16) : List UInt8 := leBytes 2 n.toNat

/-- A 32-bit number as bytes. -/
def put32 (n : UInt32) : List UInt8 := leBytes 4 n.toNat

/-- A 64-bit number as bytes. -/
def put64 (n : UInt64) : List UInt8 := leBytes 8 n.toNat

/-- Bytes that are not written, at a place of memory with any content. -/
def pad (raw : ℕ → UInt8) (place n : ℕ) : List UInt8 :=
  (List.range n).map fun i => raw (place + i)

/-- The size of a 16-bit number. -/
@[simp] theorem length_put16 (n : UInt16) : (put16 n).length = 2 := length_leBytes 2 _

/-- The size of a 32-bit number. -/
@[simp] theorem length_put32 (n : UInt32) : (put32 n).length = 4 := length_leBytes 4 _

/-- The size of a 64-bit number. -/
@[simp] theorem length_put64 (n : UInt64) : (put64 n).length = 8 := length_leBytes 8 _

/-- The size of bytes that are not written. -/
@[simp] theorem length_pad (raw : ℕ → UInt8) (place n : ℕ) : (pad raw place n).length = n := by
  simp [pad]

namespace Reader

variable {α β : Type}

/-- A number of bytes. -/
def take (n : ℕ) : Reader (List UInt8) := fun bytes =>
  if n ≤ bytes.length then some (bytes.take n, bytes.drop n) else none

/-- A 16-bit number. -/
def uint16 : Reader UInt16 := do return UInt16.ofNat (leValue (← take 2))

/-- A 32-bit number. -/
def uint32 : Reader UInt32 := do return UInt32.ofNat (leValue (← take 4))

/-- A 64-bit number. -/
def uint64 : Reader UInt64 := do return UInt64.ofNat (leValue (← take 8))

/-- A signed 32-bit number. -/
def int32 : Reader Int32 := do return (← uint32).toInt32

/-- A signed 64-bit number. -/
def int64 : Reader Int64 := do return (← uint64).toInt64

/-- As many of a kind as asked for, one after another. -/
def many (r : Reader α) : (n : ℕ) → Reader {l : List α // l.length = n}
  | 0 => return ⟨[], rfl⟩
  | n + 1 => do
    let a ← r
    let l ← many r n
    return ⟨a :: l.val, by rw [List.length_cons, l.property]⟩

/-- Taking bytes takes those in front. -/
theorem run_take {bytes : List UInt8} {n : ℕ} (h : bytes.length = n) (f : List UInt8 → Reader β)
    (rest : List UInt8) : (take n >>= f) (bytes ++ rest) = f bytes rest := by
  subst h
  show (take bytes.length (bytes ++ rest)).bind (fun p => f p.1 p.2) = f bytes rest
  rw [take, if_pos (by simp), List.take_left, List.drop_left]
  rfl

/-- Bytes that are not written can be taken like others. -/
theorem run_pad (raw : ℕ → UInt8) (place n : ℕ) (f : List UInt8 → Reader β)
    (rest : List UInt8) :
    (take n >>= f) (pad raw place n ++ rest) = f (pad raw place n) rest :=
  run_take (length_pad raw place n) f rest

/-- A 16-bit number that was written is read. -/
theorem run_uint16 (n : UInt16) (f : UInt16 → Reader β) (rest : List UInt8) :
    (uint16 >>= f) (put16 n ++ rest) = f n rest := by
  rw [uint16, bind_assoc, run_take (length_put16 n), pure_bind,
    put16, leValue_leBytes n.toNat_lt, UInt16.ofNat_toNat]

/-- A 32-bit number that was written is read. -/
theorem run_uint32 (n : UInt32) (f : UInt32 → Reader β) (rest : List UInt8) :
    (uint32 >>= f) (put32 n ++ rest) = f n rest := by
  rw [uint32, bind_assoc, run_take (length_put32 n), pure_bind,
    put32, leValue_leBytes n.toNat_lt, UInt32.ofNat_toNat]

/-- A 64-bit number that was written is read. -/
theorem run_uint64 (n : UInt64) (f : UInt64 → Reader β) (rest : List UInt8) :
    (uint64 >>= f) (put64 n ++ rest) = f n rest := by
  rw [uint64, bind_assoc, run_take (length_put64 n), pure_bind,
    put64, leValue_leBytes n.toNat_lt, UInt64.ofNat_toNat]

/-- A signed 32-bit number that was written is read. -/
theorem run_int32 (n : Int32) (f : Int32 → Reader β) (rest : List UInt8) :
    (int32 >>= f) (put32 n.toUInt32 ++ rest) = f n rest := by
  rw [int32, bind_assoc, run_uint32, pure_bind]
  rfl

/-- A signed 64-bit number that was written is read. -/
theorem run_int64 (n : Int64) (f : Int64 → Reader β) (rest : List UInt8) :
    (int64 >>= f) (put64 n.toUInt64 ++ rest) = f n rest := by
  rw [int64, bind_assoc, run_uint64, pure_bind]
  rfl

end Reader

/-- Members of one size written one after another, each of which may depend on its place. -/
def putMany {α : Type} (size : ℕ) (put : ℕ → α → List UInt8) : ℕ → List α → List UInt8
  | _, [] => []
  | place, a :: l => put place a ++ putMany size put (place + size) l

/-- How many bytes there are in members of one size. -/
theorem length_putMany {α : Type} {size : ℕ} {put : ℕ → α → List UInt8}
    (hput : ∀ place a, (put place a).length = size) (place : ℕ) (l : List α) :
    (putMany size put place l).length = size * l.length := by
  induction l generalizing place with
  | nil => rfl
  | cons a l ih =>
    rw [putMany, List.length_append, hput, ih, List.length_cons, Nat.mul_add]
    omega

/-- Members that were written one after another are read. -/
theorem Reader.run_many {α β : Type} {r : Reader α} {size : ℕ} {put : ℕ → α → List UInt8}
    (hread : ∀ place a rest, r (put place a ++ rest) = some (a, rest)) {l : List α} {n : ℕ}
    (hn : l.length = n) (place : ℕ) (f : {l : List α // l.length = n} → Reader β)
    (rest : List UInt8) :
    (many r n >>= f) (putMany size put place l ++ rest) = f ⟨l, hn⟩ rest := by
  have hmany : many r n (putMany size put place l ++ rest) = some (⟨l, hn⟩, rest) := by
    clear f
    induction l generalizing n place with
    | nil =>
      subst hn
      rfl
    | cons a l ih =>
      subst hn
      rw [putMany, List.append_assoc]
      show (r (put place a ++ (putMany size put (place + size) l ++ rest))).bind _ = _
      rw [hread, Option.bind_some]
      show (many r l.length (putMany size put (place + size) l ++ rest)).bind _ = _
      rw [ih rfl, Option.bind_some]
      rfl
  show (many r n (putMany size put place l ++ rest)).bind _ = _
  rw [hmany]
  rfl

end Library
