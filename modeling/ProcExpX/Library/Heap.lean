import Mathlib.Logic.Function.Basic
import Mathlib.Data.Nat.Notation

/-!
# A heap of mutable objects

Objects with identity live in cells addressed by a counter. Memory that has not
been handed out yet has unknown content: a fresh object is built over it, so a
member that its constructor leaves alone keeps whatever the memory held.
-/

namespace Library

/-- A pointer to an object of type `α`. Two pointers are the same object
precisely when their addresses agree. -/
structure Ref (α : Type) where
  /-- The address of the object. -/
  addr : ℕ

/-- Pointers can be compared whether or not the objects can. -/
instance {α : Type} : DecidableEq (Ref α) := fun r r' =>
  decidable_of_iff (r.addr = r'.addr) (by cases r; cases r'; simp)

/-- A heap of objects: cells below `next` are in use, the others are raw memory. -/
structure Heap (α : Type) where
  /-- The content of every cell, in use or not. -/
  cells : ℕ → α
  /-- The first address that has not been handed out. -/
  next : ℕ

namespace Heap

variable {α : Type}

/-- The object a pointer points to. -/
def read (h : Heap α) (r : Ref α) : α := h.cells r.addr

/-- Overwrite the object a pointer points to. -/
def write (h : Heap α) (r : Ref α) (a : α) : Heap α :=
  { h with cells := Function.update h.cells r.addr a }

/-- Apply a change to the object a pointer points to. -/
def modify (h : Heap α) (r : Ref α) (f : α → α) : Heap α := h.write r (f (h.read r))

/-- The pointer that the next allocation returns. -/
def fresh (h : Heap α) : Ref α := ⟨h.next⟩

/-- Allocate an object with the given content at the fresh address. -/
def allocate (h : Heap α) (a : α) : Heap α :=
  { cells := Function.update h.cells h.next a, next := h.next + 1 }

/-- A pointer to an object that has been allocated. -/
def Live (h : Heap α) (r : Ref α) : Prop := r.addr < h.next

/-- Whether a pointer has been handed out is decidable. -/
instance (h : Heap α) (r : Ref α) : Decidable (h.Live r) :=
  inferInstanceAs (Decidable (r.addr < h.next))

/-- Reading back a written object. -/
@[simp] theorem read_write_self (h : Heap α) (r : Ref α) (a : α) : (h.write r a).read r = a := by
  simp [read, write]

/-- A write leaves the other objects alone. -/
theorem read_write_of_ne (h : Heap α) {r r' : Ref α} (hne : r' ≠ r) (a : α) :
    (h.write r a).read r' = h.read r' := by
  have haddr : r'.addr ≠ r.addr := fun heq => hne (by cases r; cases r'; simpa using heq)
  simp [read, write, haddr]

/-- A write keeps the pointers in use. -/
@[simp] theorem live_write {h : Heap α} {r r' : Ref α} {a : α} :
    (h.write r a).Live r' ↔ h.Live r' := Iff.rfl

/-- The last of two writes to one object wins. -/
@[simp] theorem write_write (h : Heap α) (r : Ref α) (a b : α) :
    (h.write r a).write r b = h.write r b := by
  simp [write]

/-- Reading back a newly allocated object. -/
@[simp] theorem read_allocate_fresh (h : Heap α) (a : α) : (h.allocate a).read h.fresh = a := by
  simp [read, allocate, fresh]

/-- An allocation leaves the other cells alone. -/
theorem read_allocate_of_ne (h : Heap α) {r : Ref α} (hne : r ≠ h.fresh) (a : α) :
    (h.allocate a).read r = h.read r := by
  have haddr : r.addr ≠ h.next := fun heq => hne (by cases r; simpa [fresh] using heq)
  simp [read, allocate, haddr]

/-- Writing to the object just allocated is allocating the written object. -/
@[simp] theorem write_allocate_fresh (h : Heap α) (a b : α) :
    (h.allocate a).write h.fresh b = h.allocate b := by
  simp [write, allocate, fresh]

/-- An allocation uses up one address. -/
@[simp] theorem next_allocate (h : Heap α) (a : α) : (h.allocate a).next = h.next + 1 := rfl

/-- The pointers in use after an allocation are the old ones and the fresh one. -/
theorem live_allocate {h : Heap α} {r : Ref α} {a : α} :
    (h.allocate a).Live r ↔ h.Live r ∨ r = h.fresh := by
  cases r
  simp only [Live, next_allocate, fresh, Ref.mk.injEq]
  omega

/-- The fresh pointer is not in use. -/
theorem not_live_fresh (h : Heap α) : ¬ h.Live h.fresh := Nat.lt_irrefl _

/-- A pointer in use is not the fresh one. -/
theorem Live.ne_fresh {h : Heap α} {r : Ref α} (hr : h.Live r) : r ≠ h.fresh :=
  fun heq => h.not_live_fresh (heq ▸ hr)

end Heap

end Library
