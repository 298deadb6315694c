import Mathlib.Data.Int.Notation
import ProcExpX.Library.Decimal
import ProcExpX.Library.Parts
import ProcExpX.Library.Wrapping
import ProcExpX.WinSys.Keys

/-!
# Formatted numbers

`FormatHelper` writes byte counts in groups of three digits, and time spans with
milliseconds. The former is exactly right. The format of the latter lacks a percent sign,
so that no time span is written with its milliseconds.
-/

namespace ProcExpX.FormatHelper

open Library WinSys

/-- `CString::Left`: the first characters of a text. -/
def left (text : List UInt8) (count : ℕ) : List UInt8 := text.take count

/-- `CString::Right`: the last characters of a text. -/
def right (text : List UInt8) (count : ℕ) : List UInt8 := text.drop (text.length - count)

/-- The separator of groups. -/
def comma : UInt8 := 44

/-- The loop of `FormatWithCommas`, with its local variables. -/
def insertCommas (result : List UInt8) (i : ℕ) : List UInt8 :=
  if (result.length : ℤ) - i > 0 then
    insertCommas (left result (result.length - i) ++ [comma] ++ right result i) (i + 4)
  else result
termination_by result.length - i
decreasing_by
  simp only [left, right, List.length_append, List.length_take, List.length_drop,
    List.length_singleton]
  omega

/-- `FormatWithCommas`. -/
def formatWithCommas (size : Int64) : List UInt8 :=
  insertCommas (signedDecimal size.toInt) 3

section Commas

/-- **One round of the loop** cuts three digits off the first group. -/
theorem insertCommas_cut {front digits : List UInt8} {groups : List (List UInt8)}
    (hfront : front ≠ []) (hdigits : digits.length = 3) (hgroups : ∀ g ∈ groups, g.length = 3) :
    insertCommas ([comma].intercalate ((front ++ digits) :: groups)) (4 * groups.length + 3) =
      insertCommas ([comma].intercalate (front :: digits :: groups))
        (4 * (digits :: groups).length + 3) := by
  have hpositive := List.length_pos_iff.mpr hfront
  have hback : ([comma].intercalate (digits :: groups)).length = 4 * groups.length + 3 := by
    rw [length_intercalate digits hgroups, hdigits]
    omega
  rw [← append_intercalate, insertCommas, if_pos]
  · have hleft : left (front ++ [comma].intercalate (digits :: groups))
        ((front ++ [comma].intercalate (digits :: groups)).length - (4 * groups.length + 3)) =
        front := by
      rw [left, List.length_append, hback, Nat.add_sub_cancel, List.take_left]
    have hright : right (front ++ [comma].intercalate (digits :: groups))
        (4 * groups.length + 3) = [comma].intercalate (digits :: groups) := by
      rw [right, List.length_append, hback, Nat.add_sub_cancel, List.drop_left]
    rw [hleft, hright, List.intercalate_cons_cons, List.length_cons]
    congr 1
  · rw [List.length_append, hback]
    omega

/-- The loop ends when the first group has three digits at most. -/
theorem insertCommas_short {front : List UInt8} {groups : List (List UInt8)}
    (hfront : front.length ≤ 3) (hgroups : ∀ g ∈ groups, g.length = 3) :
    insertCommas ([comma].intercalate (front :: groups)) (4 * groups.length + 3) =
      [comma].intercalate (front :: groups) := by
  rw [insertCommas, if_neg]
  rw [length_intercalate front hgroups]
  omega

/-- **The loop** ends with groups of three digits behind a first group of one to three. -/
theorem insertCommas_groups (front : List UInt8) (groups : List (List UInt8))
    (hfront : front ≠ []) (hgroups : ∀ g ∈ groups, g.length = 3) :
    ∃ first later, insertCommas ([comma].intercalate (front :: groups))
        (4 * groups.length + 3) = [comma].intercalate (first :: later) ∧
      (1 ≤ first.length ∧ first.length ≤ 3) ∧ (∀ g ∈ later, g.length = 3) ∧
        (first :: later).flatten = (front :: groups).flatten := by
  induction hlength : front.length using Nat.strongRecOn generalizing front groups with
  | ind n ih =>
    by_cases hshort : n ≤ 3
    · refine ⟨front, groups, insertCommas_short (hlength ▸ hshort) hgroups, ?_, hgroups, rfl⟩
      exact ⟨List.length_pos_iff.mpr hfront, hlength ▸ hshort⟩
    · have hcut : front = front.take (n - 3) ++ front.drop (n - 3) :=
        (List.take_append_drop (n - 3) front).symm
      have htake : (front.take (n - 3)).length = n - 3 := by
        rw [List.length_take]
        omega
      have hdrop : (front.drop (n - 3)).length = 3 := by
        rw [List.length_drop]
        omega
      have hne : front.take (n - 3) ≠ [] := by
        rw [← List.length_pos_iff, htake]
        omega
      have hgroups' : ∀ g ∈ front.drop (n - 3) :: groups, g.length = 3 :=
        List.forall_mem_cons.mpr ⟨hdrop, hgroups⟩
      obtain ⟨first, later, heq, hfirst, hlater, hflat⟩ :=
        ih (n - 3) (by omega) _ _ hne hgroups' htake
      refine ⟨first, later, ?_, hfirst, hlater, ?_⟩
      · rw [← heq, ← insertCommas_cut hne hdrop hgroups, ← hcut]
      · rw [hflat, List.flatten_cons, List.flatten_cons, List.flatten_cons, ← List.append_assoc,
          ← hcut]

/-- A text is a number in groups of three digits. -/
structure InGroups (n : ℕ) (text : List UInt8) : Prop where
  /-- Without the commas it is the decimal representation of the number. -/
  digits : text.filter (· ≠ comma) = decimal n
  /-- That has no leading zero. -/
  leading : n ≠ 0 → (text.filter (· ≠ comma)).head? ≠ some 48
  /-- The first group has one to three digits, and every later group exactly three. -/
  groups : ∃ first later, text.splitOn comma = first :: later ∧
    (1 ≤ first.length ∧ first.length ≤ 3) ∧ ∀ g ∈ later, g.length = 3
  /-- It does not begin with a comma. -/
  begins : text.head? ≠ some comma
  /-- It does not end with a comma. -/
  ends : text.getLast? ≠ some comma

/-- The loop puts the digits of a number into groups. -/
theorem insertCommas_decimal (n : ℕ) : InGroups n (insertCommas (decimal n) 3) := by
  obtain ⟨first, later, heq, hfirst, hlater, hflat⟩ :=
    insertCommas_groups (decimal n) [] (decimal_ne_nil n) (by simp)
  rw [List.intercalate_singleton] at heq
  have heq' : insertCommas (decimal n) 3 = [comma].intercalate (first :: later) := heq
  rw [List.flatten_singleton] at hflat
  have hdigit : ∀ b ∈ decimal n, b ≠ comma := by
    rintro b hb rfl
    exact absurd (decimal_range hb).1 (by decide)
  have hsep : ∀ g ∈ first :: later, comma ∉ g := fun g hg hcomma =>
    hdigit comma (hflat ▸ List.mem_flatten.mpr ⟨g, hg, hcomma⟩) rfl
  have hne : ∀ g ∈ first :: later, g ≠ [] := by
    intro g hg
    rw [← List.length_pos_iff]
    rcases List.mem_cons.mp hg with rfl | hg
    · exact hfirst.1
    · rw [hlater g hg]
      decide
  have hfilter : (insertCommas (decimal n) 3).filter (· ≠ comma) = decimal n := by
    rw [heq', filter_intercalate hsep, hflat]
  refine ⟨hfilter, fun hn => ?_, ⟨first, later, ?_, hfirst, hlater⟩, ?_, ?_⟩
  · rw [hfilter]
    exact head_decimal_ne hn
  · rw [heq']
    exact List.splitOn_intercalate comma hsep (List.cons_ne_nil _ _)
  · rw [heq']
    exact head_intercalate_ne (hne first List.mem_cons_self) (hsep first List.mem_cons_self) later
  · rw [heq']
    exact getLast_intercalate_ne fun g hg => ⟨hne g hg, hsep g hg⟩

/-- A number that is not negative is written with its digits alone. -/
theorem signedDecimal_of_nonneg {i : ℤ} (hi : 0 ≤ i) : signedDecimal i = decimal i.toNat := by
  cases i with
  | ofNat n => rfl
  | negSucc n => omega

/-- **Numbers with commas.** Each number that is not negative is written in groups of three
digits, and no two of them alike. -/
theorem formatWithCommas_inGroups (n : Int64) (hn : 0 ≤ n) :
    InGroups n.toInt.toNat (formatWithCommas n) ∧
      ∀ m : Int64, 0 ≤ m → formatWithCommas m = formatWithCommas n → m = n := by
  have hgroups : ∀ n : Int64, 0 ≤ n → InGroups n.toInt.toNat (formatWithCommas n) := by
    intro n hn
    rw [formatWithCommas, signedDecimal_of_nonneg (Int64.le_iff_toInt_le.mp hn)]
    exact insertCommas_decimal n.toInt.toNat
  refine ⟨hgroups n hn, fun m hm hsame => ?_⟩
  have hdigits : decimal m.toInt.toNat = decimal n.toInt.toNat := by
    rw [← (hgroups m hm).digits, ← (hgroups n hn).digits, hsame]
  have hvalue := decimal_injective hdigits
  have hm' : 0 ≤ m.toInt := Int64.le_iff_toInt_le.mp hm
  have hn' : 0 ≤ n.toInt := Int64.le_iff_toInt_le.mp hn
  exact Int64.toInt_inj.mp (by omega)

/-- A number of seven digits is written with two commas, and differs from one of six digits. -/
theorem formatWithCommas_inGroups_seven_digits :
    InGroups 1234567 (formatWithCommas 1234567) ∧
      formatWithCommas 123456 ≠ formatWithCommas 1234567 := by
  obtain ⟨hgroups, hunique⟩ := formatWithCommas_inGroups 1234567 (by decide)
  exact ⟨hgroups, fun hsame => absurd (hunique 123456 (by decide) hsame) (by decide)⟩

example : formatWithCommas 1234567 =
    ascii ['1', ',', '2', '3', '4', ',', '5', '6', '7'] := by decide +kernel

end Commas

section TimeSpans

/-- The conversion `%I64d` in a wide text. -/
def number (n : Int64) : WString := (signedDecimal n.toInt).map UInt8.toUInt16

/-- The conversion `%02d` in a wide text. -/
def twoDigits (n : Int64) : WString :=
  List.replicate (2 - (number n).length) 0x30 ++ number n

/-- `CTimeSpan::Format` of whole seconds by `%D.%H:%M:%S`. -/
def timeSpanFormat (seconds : Int64) : WString :=
  let minutes := seconds / 60
  let hours := seconds / 3600
  let days := seconds / 86400
  number days ++ wide "." ++ twoDigits (hours - days * 24) ++ wide ":" ++
    twoDigits (minutes - hours * 60) ++ wide ":" ++ twoDigits (seconds - minutes * 60)

/-- An argument of `CString::Format`. -/
inductive FormatArgument
  /-- A text. -/
  | text (s : WString)
  /-- A number. -/
  | number (n : Int64)

/-- `CString::Format`, of whose conversions only `%s` is needed. Whatever is not a
conversion stands for itself. -/
def format : WString → List FormatArgument → WString
  | 0x25 :: 0x73 :: pattern, .text s :: arguments => s ++ format pattern arguments
  | c :: pattern, arguments => c :: format pattern arguments
  | [], _ => []

/-- `TimeSpanToString`. The string is formatted over itself, so that what `%s` reads of it
is left open. -/
def timeSpanToString (overwritten : WString → WString) (ts : Int64) : WString :=
  let str := timeSpanFormat (ts / 10000000)
  format (wide "%s.03d") [.text (overwritten str), .number (ts / 10000 % 1000)]

/-- A wide text of digits. -/
def IsNumber (s : WString) : Prop := s ≠ [] ∧ ∀ c ∈ s, 48 ≤ c.toNat ∧ c.toNat ≤ 57

/-- The number that a text of digits stands for. -/
def value (s : WString) : ℕ := s.foldl (fun n c => 10 * n + (c.toNat - 48)) 0

/-- A text reads as days, hours, minutes and seconds with three digits of milliseconds,
which come to a number of milliseconds. -/
def ReadsAs (text : WString) (milliseconds : ℕ) : Prop :=
  ∃ days hours minutes seconds fraction : WString,
    (IsNumber days ∧ IsNumber hours ∧ IsNumber minutes ∧ IsNumber seconds ∧
      IsNumber fraction ∧ fraction.length = 3) ∧
    text = days ++ wide "." ++ hours ++ wide ":" ++ minutes ++ wide ":" ++ seconds ++
      wide "." ++ fraction ∧
    milliseconds = (((value days * 24 + value hours) * 60 + value minutes) * 60 +
      value seconds) * 1000 + value fraction

/-- A text that reads as some number ends with a digit. -/
theorem ReadsAs.ends_with_digit {text : WString} {milliseconds : ℕ}
    (h : ReadsAs text milliseconds) : ∃ c, text.getLast? = some c ∧ c.toNat ≤ 57 := by
  obtain ⟨days, hours, minutes, seconds, fraction, hfields, rfl, _⟩ := h
  obtain ⟨hne, hdigits⟩ := hfields.2.2.2.2.1
  refine ⟨fraction.getLast hne, ?_, (hdigits _ (List.getLast_mem hne)).2⟩
  rw [List.getLast?_append_of_ne_nil _ hne, List.getLast?_eq_some_getLast hne]

/-- One more digit makes ten times the value and the digit. -/
theorem value_concat (s : WString) (c : WChar) :
    value (s ++ [c]) = 10 * value s + (c.toNat - 48) := by
  rw [value, List.foldl_append]
  rfl

/-- Zeros in front do not count. -/
theorem value_zeros (count : ℕ) (s : WString) :
    value (List.replicate count 0x30 ++ s) = value s := by
  induction count with
  | zero => rfl
  | succ count ih => exact ih

/-- The digits of a number stand for it. -/
theorem value_decimal (n : ℕ) : value ((decimal n).map UInt8.toUInt16) = n := by
  have hdigits : ∀ d < 10, (Nat.digitChar d).val.toUInt8.toUInt16.toNat - 48 = d := by decide
  induction n using decimal_induction with
  | digit d hd =>
    rw [decimal_of_lt hd]
    exact (value_concat [] _).trans ((Nat.zero_add _).trans (hdigits d hd))
  | more n hten ih =>
    rw [decimal_of_ten_le hten, List.map_append]
    have hdigit := hdigits (n % 10) (by omega)
    have hconcat := value_concat ((decimal (n / 10)).map UInt8.toUInt16)
      (Nat.digitChar (n % 10)).val.toUInt8.toUInt16
    rw [ih, hdigit] at hconcat
    exact hconcat.trans (by omega)

/-- A number that is not negative is written in digits, which stand for it. -/
theorem number_spec {n : Int64} {k : ℕ} (hn : n.toInt = k) :
    IsNumber (number n) ∧ value (number n) = k := by
  have hdigits : number n = (decimal k).map UInt8.toUInt16 := by
    rw [number, hn]
    rfl
  rw [hdigits]
  refine ⟨⟨?_, fun c hc => ?_⟩, value_decimal k⟩
  · rw [Ne, List.map_eq_nil_iff]
    exact decimal_ne_nil k
  · obtain ⟨b, hb, rfl⟩ := List.mem_map.mp hc
    rw [UInt8.toNat_toUInt16]
    exact decimal_range hb

/-- So it is with two digits. -/
theorem twoDigits_spec {n : Int64} {k : ℕ} (hn : n.toInt = k) :
    IsNumber (twoDigits n) ∧ value (twoDigits n) = k := by
  obtain ⟨⟨hne, hdigits⟩, hvalue⟩ := number_spec hn
  refine ⟨⟨List.append_ne_nil_of_right_ne_nil _ hne, fun c hc => ?_⟩,
    (value_zeros _ _).trans hvalue⟩
  rcases List.mem_append.mp hc with hzero | hdigit
  · rw [List.eq_of_mem_replicate hzero]
    decide
  · exact hdigits c hdigit

/-- The four fields of a number of seconds come to that number. -/
theorem fields_sum (n : ℕ) :
    ((n / 86400 * 24 + n / 3600 % 24) * 60 + n / 60 % 60) * 60 + n % 60 = n := by
  omega

/-- **The seconds are right.** Followed by three digits the text of a number of seconds
that is not negative reads as that many seconds and the milliseconds of the digits. -/
theorem timeSpanFormat_readsAs {seconds : Int64} (hseconds : 0 ≤ seconds.toInt)
    {fraction : WString} (hfraction : IsNumber fraction) (hlength : fraction.length = 3) :
    ReadsAs (timeSpanFormat seconds ++ wide "." ++ fraction)
      (seconds.toInt.toNat * 1000 + value fraction) := by
  obtain ⟨n, hn⟩ := Int.eq_ofNat_of_zero_le hseconds
  have hminutes : (seconds / 60).toInt = (n / 60 : ℕ) := by
    rw [toInt_div_of_nonneg hseconds (by decide), hn]
    rfl
  have hhours : (seconds / 3600).toInt = (n / 3600 : ℕ) := by
    rw [toInt_div_of_nonneg hseconds (by decide), hn]
    rfl
  have hdays : (seconds / 86400).toInt = (n / 86400 : ℕ) := by
    rw [toInt_div_of_nonneg hseconds (by decide), hn]
    rfl
  have hsecond : (seconds - seconds / 60 * 60).toInt = (n % 60 : ℕ) := by
    have hquotient : (seconds / 60).toInt = seconds.toInt / 60 := by omega
    rw [toInt_remainder hseconds (by decide) hquotient, hn]
    rfl
  have hminute : (seconds / 60 - seconds / 3600 * 60).toInt = (n / 60 % 60 : ℕ) := by
    have hquotient : (seconds / 3600).toInt = (seconds / 60).toInt / 60 := by omega
    rw [toInt_remainder (by omega) (by decide) hquotient, hminutes]
    rfl
  have hhour : (seconds / 3600 - seconds / 86400 * 24).toInt = (n / 3600 % 24 : ℕ) := by
    have hquotient : (seconds / 86400).toInt = (seconds / 3600).toInt / 24 := by omega
    rw [toInt_remainder (by omega) (by decide) hquotient, hhours]
    rfl
  obtain ⟨hdayDigits, hdayValue⟩ := number_spec hdays
  obtain ⟨hhourDigits, hhourValue⟩ := twoDigits_spec hhour
  obtain ⟨hminuteDigits, hminuteValue⟩ := twoDigits_spec hminute
  obtain ⟨hsecondDigits, hsecondValue⟩ := twoDigits_spec hsecond
  refine ⟨_, _, _, _, fraction, ⟨hdayDigits, hhourDigits, hminuteDigits, hsecondDigits,
    hfraction, hlength⟩, rfl, ?_⟩
  rw [hdayValue, hhourValue, hminuteValue, hsecondValue, fields_sum, hn, Int.toNat_natCast]

variable (overwritten : WString → WString)

/-- Behind the text of the seconds the format always writes the same. -/
theorem timeSpanToString_eq (ts : Int64) : timeSpanToString overwritten ts =
    overwritten (timeSpanFormat (ts / 10000000)) ++ wide ".03d" := rfl

/-- Time spans in the same second are written alike. -/
theorem exists_same_second {ts : Int64} (hts : 0 ≤ ts) :
    ∃ ts' : Int64, 0 ≤ ts' ∧ ts'.toInt / 10000 ≠ ts.toInt / 10000 ∧
      ts' / 10000000 = ts / 10000000 := by
  have hnonneg : 0 ≤ ts.toInt := Int64.le_iff_toInt_le.mp hts
  have hbound := ts.toInt_lt
  let other : ℤ := ts.toInt / 10000000 * 10000000 +
    if ts.toInt / 10000 % 1000 = 0 then 10000 else 0
  have hother : other = ts.toInt / 10000000 * 10000000 +
    if ts.toInt / 10000 % 1000 = 0 then 10000 else 0 := rfl
  have hvalue : (Int64.ofInt other).toInt = other := by
    apply Int64.toInt_ofInt_of_le
    · split at hother <;> omega
    · split at hother <;> omega
  have hseconds : ∀ x : Int64, 0 ≤ x.toInt → (x / 10000000).toInt = x.toInt / 10000000 :=
    fun x hx => toInt_div_of_nonneg hx (by decide)
  have hother' : 0 ≤ (Int64.ofInt other).toInt := by
    rw [hvalue]
    split at hother <;> omega
  refine ⟨Int64.ofInt other, Int64.le_iff_toInt_le.mpr hother', ?_, Int64.toInt_inj.mp ?_⟩
  · rw [hvalue]
    split at hother <;> omega
  · rw [hseconds _ hother', hseconds ts hnonneg, hvalue]
    split at hother <;> omega

/-- **Time spans lose their milliseconds.** No time span that is not negative is written as
a text that reads as its milliseconds, and each shares its text with another one that
differs from it by milliseconds. -/
theorem timeSpanToString_loses_milliseconds (ts : Int64) (hts : 0 ≤ ts) :
    ¬ ReadsAs (timeSpanToString overwritten ts) (ts.toInt.toNat / 10000) ∧
      ∃ ts' : Int64, 0 ≤ ts' ∧ ts'.toInt / 10000 ≠ ts.toInt / 10000 ∧
        timeSpanToString overwritten ts' = timeSpanToString overwritten ts := by
  constructor
  · intro h
    obtain ⟨c, hlast, hdigit⟩ := h.ends_with_digit
    rw [timeSpanToString_eq, List.getLast?_append_of_ne_nil _ (by decide)] at hlast
    obtain rfl := Option.some.inj hlast
    exact absurd hdigit (by decide)
  · obtain ⟨ts', hts', hdiffers, hsame⟩ := exists_same_second hts
    refine ⟨ts', hts', hdiffers, ?_⟩
    rw [timeSpanToString_eq, timeSpanToString_eq, hsame]

/-- One second and a half is printed like another span that is not as long. -/
theorem timeSpanToString_loses_half :
    ¬ ReadsAs (timeSpanToString id 15000000) 1500 ∧
      ∃ ts' : Int64, 0 ≤ ts' ∧ ts'.toInt / 10000 ≠ 1500 ∧
        timeSpanToString id ts' = timeSpanToString id 15000000 :=
  timeSpanToString_loses_milliseconds id 15000000 (by decide)

/-- One second and a half is written like one second, with the rest of the format behind
it. -/
theorem half_second_not_written :
    timeSpanToString id 15000000 = wide "0.00:00:01.03d" ∧
      timeSpanToString id 10000000 = timeSpanToString id 15000000 ∧
        ¬ ReadsAs (timeSpanToString id 15000000) 1500 := by
  have htext : timeSpanToString id 15000000 = wide "0.00:00:01.03d" := by decide
  refine ⟨htext, by decide, fun h => ?_⟩
  obtain ⟨c, hlast, hdigit⟩ := h.ends_with_digit
  rw [htext] at hlast
  obtain rfl := Option.some.inj hlast
  exact absurd hdigit (by decide)

end TimeSpans

end ProcExpX.FormatHelper
