import Mathlib.Data.Nat.Notation

/-!
# Keys of processes and threads

A pid or thread id is reused by the system, so `Keys.h` identifies a process or
thread by its creation time together with its id. Strings of the wide character
type and handle values are fixed here as well.
-/

namespace WinSys

/-- A `WCHAR`, one UTF-16 code unit. -/
abbrev WChar := UInt16

/-- A `std::wstring`: code units, NUL allowed. -/
abbrev WString := List WChar

/-- A wide string literal of the source. -/
def wide (s : String) : WString := s.toList.map fun c => UInt16.ofNat c.toNat

/-- A `HANDLE`, which `SYSTEM_PROCESS_INFORMATION` also uses for ids. -/
abbrev Handle := UInt64

/-- `HandleToULong`: the low 32 bits of a handle. -/
def handleToULong (h : Handle) : UInt32 := h.toUInt32

/-- `ProcessOrThreadKey`: creation time and id. Two keys are equal when both
members are. -/
structure ProcessOrThreadKey where
  /-- The creation time, in 100 ns units. -/
  created : Int64
  /-- The process or thread id. -/
  id : UInt32
  deriving DecidableEq, Repr, Inhabited

end WinSys
