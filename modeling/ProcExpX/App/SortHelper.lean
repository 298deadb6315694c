import Mathlib.Data.Int.Order.Basic
import Mathlib.Data.List.Lex
import ProcExpX.Library.Sorting
import ProcExpX.WinSys.Keys

/-!
# Comparisons for sorting

`SortHelper` with the parts of the C runtime that it and the filter rely on. All
comparisons are strict weak orders in both directions.
-/

namespace ProcExpX

open Library WinSys

/-- The text conversions of the current locale. -/
structure Locale where
  /-- `towlower`. -/
  towlower : WChar → WChar
  /-- `CString::MakeLower`. -/
  makeLower : WString → WString
  /-- The conversion of a `char` string that assignment to a `CString` performs. -/
  widen : List UInt8 → WString

/-- `towlower` in the locale that a program starts with, which only knows the letters of
ASCII. -/
def asciiLower (c : WChar) : WChar := if 65 ≤ c ∧ c ≤ 90 then c + 32 else c

/-- The locale that a program starts with. -/
def Locale.ascii : Locale := ⟨asciiLower, List.map asciiLower, List.map UInt8.toUInt16⟩

/-- `c_str()` as its readers see it: the code units before the first NUL. -/
def cStr (s : WString) : WString := s.takeWhile (· ≠ 0)

/-- The value that case-insensitive comparison looks at: the code units in lower case. -/
def Locale.fold (locale : Locale) (s : WString) : List ℕ :=
  s.map fun c => (locale.towlower c).toNat

/-- `_wcsicmp`: compare in lower case, code unit by code unit. -/
def Locale.wcsicmp (locale : Locale) (s1 s2 : WString) : ℤ :=
  if locale.fold s1 < locale.fold s2 then -1 else if locale.fold s2 < locale.fold s1 then 1 else 0

namespace SortHelper

/-- `SortNumbers`. -/
def sortNumbers {N : Type} [LT N] [DecidableLT N] (n1 n2 : N) (ascending : Bool) : Bool :=
  if ascending then decide (n2 > n1) else decide (n2 < n1)

/-- `SortStrings` for `std::wstring`: empty strings stand last in both directions. -/
def sortStrings (locale : Locale) (s1 s2 : WString) (ascending : Bool) : Bool :=
  if s1.isEmpty && s2.isEmpty then false
  else if s1.isEmpty then false
  else if s2.isEmpty then true
  else
    let compare := locale.wcsicmp (cStr s2) (cStr s1)
    if ascending then decide (compare > 0) else decide (compare < 0)

/-- Numbers whose order is that of an integer value are ordered strictly and weakly. -/
theorem sortNumbers_strictWeak {N : Type} [LT N] [DecidableLT N] (value : N → ℤ)
    (hvalue : ∀ a b : N, a < b ↔ value a < value b) (ascending : Bool) :
    StrictWeak fun n1 n2 : N => sortNumbers n1 n2 ascending := by
  cases ascending with
  | true =>
    refine StrictWeak.of_value value fun a b => ?_
    simp [sortNumbers, hvalue]
  | false =>
    refine StrictWeak.swap (StrictWeak.of_value value fun a b => ?_)
    simp [sortNumbers, hvalue]

section Numbers

variable {α : Type} (ascending : Bool)

/-- Rows are ordered strictly and weakly by an unsigned 32-bit member. -/
theorem sortUInt32_strictWeak (f : α → UInt32) :
    StrictWeak fun a b => sortNumbers (f a) (f b) ascending :=
  (sortNumbers_strictWeak (fun n : UInt32 => (n.toNat : ℤ))
    (fun _ _ => UInt32.lt_iff_toNat_lt.trans Int.ofNat_lt.symm) ascending).on f

/-- Rows are ordered strictly and weakly by an unsigned 64-bit member. -/
theorem sortUInt64_strictWeak (f : α → UInt64) :
    StrictWeak fun a b => sortNumbers (f a) (f b) ascending :=
  (sortNumbers_strictWeak (fun n : UInt64 => (n.toNat : ℤ))
    (fun _ _ => UInt64.lt_iff_toNat_lt.trans Int.ofNat_lt.symm) ascending).on f

/-- Rows are ordered strictly and weakly by a signed 32-bit member. -/
theorem sortInt32_strictWeak (f : α → Int32) :
    StrictWeak fun a b => sortNumbers (f a) (f b) ascending :=
  (sortNumbers_strictWeak Int32.toInt (fun _ _ => Int32.lt_iff_toInt_lt) ascending).on f

/-- Rows are ordered strictly and weakly by a signed 64-bit member. -/
theorem sortInt64_strictWeak (f : α → Int64) :
    StrictWeak fun a b => sortNumbers (f a) (f b) ascending :=
  (sortNumbers_strictWeak Int64.toInt (fun _ _ => Int64.lt_iff_toInt_lt) ascending).on f

end Numbers

/-- The sign of a comparison, read as an order. -/
theorem wcsicmp_pos {locale : Locale} {s1 s2 : WString} :
    0 < locale.wcsicmp s1 s2 ↔ locale.fold s2 < locale.fold s1 := by
  unfold Locale.wcsicmp
  split
  · rename_i hlt
    simpa using hlt.le
  · split <;> simp_all

/-- The sign of a comparison, read as an order. -/
theorem wcsicmp_neg {locale : Locale} {s1 s2 : WString} :
    locale.wcsicmp s1 s2 < 0 ↔ locale.fold s1 < locale.fold s2 := by
  unfold Locale.wcsicmp
  split
  · simp_all
  · split <;> simp_all

/-- Strings are ordered strictly and weakly. -/
theorem sortStrings_strictWeak (locale : Locale) (ascending : Bool) :
    StrictWeak fun s1 s2 => sortStrings locale s1 s2 ascending := by
  have hcompare : StrictWeak fun s1 s2 : WString =>
      if ascending then decide (locale.wcsicmp (cStr s2) (cStr s1) > 0)
      else decide (locale.wcsicmp (cStr s2) (cStr s1) < 0) := by
    cases ascending with
    | true =>
      refine StrictWeak.of_value (fun s => locale.fold (cStr s)) fun a b => ?_
      simp [wcsicmp_pos]
    | false =>
      refine StrictWeak.swap (StrictWeak.of_value (fun s => locale.fold (cStr s)) fun a b => ?_)
      simp [wcsicmp_neg]
  have hlast := hcompare.last List.isEmpty
  have heq : (fun s1 s2 => sortStrings locale s1 s2 ascending) = fun s1 s2 : WString =>
      if s1.isEmpty then false else if s2.isEmpty then true
      else if ascending then decide (locale.wcsicmp (cStr s2) (cStr s1) > 0)
      else decide (locale.wcsicmp (cStr s2) (cStr s1) < 0) := by
    funext s1 s2
    unfold sortStrings
    cases s1.isEmpty <;> simp
  rw [heq]
  exact hlast

end SortHelper

end ProcExpX
