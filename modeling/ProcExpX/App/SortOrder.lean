import Mathlib.Data.List.TakeWhile
import ProcExpX.App.RowSteps

/-!
# The order of the rows

`DoSort` compares strings with `SortHelper::SortStrings`, which has four overloads. Of
the C runtime they only need that its comparisons without regard to case all go by one
preorder of the texts.
-/

namespace ProcExpX

open Library WinSys

/-- The comparisons of the C runtime and ATL without regard to case. -/
structure CaseComparison where
  /-- The wide string of the same text as a `char` string. -/
  widen : List UInt8 → WString
  /-- Only the empty string is widened to the empty one. -/
  widen_eq_nil : ∀ s, widen s = [] ↔ s = []
  /-- A string without a NUL is widened to one without a NUL. -/
  widen_nonzero : ∀ s, 0 ∉ s → 0 ∉ widen s
  /-- The preorder of the texts. -/
  le : WString → WString → Prop
  /-- It is total. -/
  total : ∀ a b, le a b ∨ le b a
  /-- It is transitive. -/
  trans : ∀ a b c, le a b → le b c → le a c
  /-- `_stricmp`. -/
  stricmp : List UInt8 → List UInt8 → ℤ
  /-- It goes by the texts. -/
  stricmp_threeWay : ThreeWay (fun a b => le (widen a) (widen b)) stricmp
  /-- `_wcsicmp`. -/
  wcsicmp : WString → WString → ℤ
  /-- It goes by the texts. -/
  wcsicmp_threeWay : ThreeWay le wcsicmp
  /-- `CString::CompareNoCase`. -/
  compareNoCase : WString → WString → ℤ
  /-- It goes by the texts. -/
  compareNoCase_threeWay : ThreeWay le compareNoCase

/-- `c_str()` of a `char` string as its readers see it: the bytes before the first NUL. -/
def cStrA (s : List UInt8) : List UInt8 := s.takeWhile (· ≠ 0)

namespace SortHelper

/-- The body that the overloads of `SortStrings` share: what counts as empty stands last
in both directions. -/
def sortTexts {α : Type} (isEmpty : α → Bool) (compareNoCase : α → α → ℤ) (s1 s2 : α)
    (ascending : Bool) : Bool :=
  if isEmpty s1 && isEmpty s2 then false
  else if isEmpty s1 then false
  else if isEmpty s2 then true
  else
    let compare := compareNoCase s2 s1
    if ascending then decide (compare > 0) else decide (compare < 0)

variable (c : CaseComparison)

/-- `SortStrings` for `CString`. -/
def sortCStrings : WString → WString → Bool → Bool :=
  sortTexts List.isEmpty fun s2 s1 => c.compareNoCase (cStr s2) (cStr s1)

/-- `SortStrings` for `std::string`. -/
def sortStdStrings : List UInt8 → List UInt8 → Bool → Bool :=
  sortTexts List.isEmpty fun s2 s1 => c.stricmp (cStrA s2) (cStrA s1)

/-- `SortStrings` for `std::wstring`. -/
def sortStdWStrings : WString → WString → Bool → Bool :=
  sortTexts List.isEmpty fun s2 s1 => c.wcsicmp (cStr s2) (cStr s1)

/-- The text that a `const wchar_t*` points to. Nothing is read through a null one. -/
def pointee (s : Option WString) : WString := cStr (s.getD [])

/-- `SortStrings` for `const wchar_t*`, which is null or points to text. -/
def sortPointers : Option WString → Option WString → Bool → Bool :=
  sortTexts (fun s => (pointee s).isEmpty) fun s2 s1 => c.wcsicmp (pointee s2) (pointee s1)

/-- What sorting relies on: a strict weak order in both directions, in which empty strings
stand last, and others stand in the opposite order when the direction is changed. -/
structure SortsStrings {α : Type} (isEmpty : α → Bool) (sort : α → α → Bool → Bool) : Prop where
  /-- The order is strict and weak. -/
  strictWeak : ∀ ascending, StrictWeak fun s1 s2 => sort s1 s2 ascending
  /-- Empty strings stand after all others. -/
  empty_last : ∀ s e ascending, isEmpty s = false → isEmpty e = true →
    sort s e ascending = true ∧ sort e s ascending = false
  /-- The descending order is the converse of the ascending one. -/
  descending : ∀ s1 s2, isEmpty s1 = false → isEmpty s2 = false →
    sort s1 s2 false = sort s2 s1 true

/-- The shared body sorts if its comparison goes by a total preorder. -/
theorem sortTexts_sorts {α : Type} {le : α → α → Prop} {compare : α → α → ℤ}
    (h : ThreeWay le compare) (total : ∀ a b, le a b ∨ le b a)
    (trans : ∀ a b c, le a b → le b c → le a c) (isEmpty : α → Bool) :
    SortsStrings isEmpty (sortTexts isEmpty compare) := by
  have hless := h.strictWeak total trans
  refine ⟨fun ascending => ?_, fun s e ascending hs he => ?_, fun s1 s2 hs1 hs2 => ?_⟩
  · have hcompare : StrictWeak fun s1 s2 : α =>
        if ascending then decide (compare s2 s1 > 0) else decide (compare s2 s1 < 0) := by
      cases ascending with
      | true =>
        have heq : (fun s1 s2 => decide (compare s2 s1 > 0)) =
            fun s1 s2 => decide (compare s1 s2 < 0) := by
          funext s1 s2
          exact decide_eq_decide.mpr (h.pos_iff_neg s1 s2)
        simpa only [heq, if_true] using hless
      | false => exact hless.swap
    have hbody : (fun s1 s2 => sortTexts isEmpty compare s1 s2 ascending) = fun s1 s2 =>
        if isEmpty s1 then false else if isEmpty s2 then true
        else if ascending then decide (compare s2 s1 > 0) else decide (compare s2 s1 < 0) := by
      funext s1 s2
      unfold sortTexts
      cases isEmpty s1 <;> cases isEmpty s2 <;> rfl
    rw [hbody]
    exact hcompare.last isEmpty
  · unfold sortTexts
    rw [hs, he]
    exact ⟨rfl, rfl⟩
  · unfold sortTexts
    rw [hs1, hs2]
    exact decide_eq_decide.mpr (h.pos_iff_neg s2 s1).symm

/-- Two comparisons of the same texts by one preorder sort alike. -/
theorem sortTexts_congr {α β : Type} {le : α → α → Prop} {le' : β → β → Prop}
    {compare : α → α → ℤ} {compare' : β → β → ℤ} (h : ThreeWay le compare)
    (h' : ThreeWay le' compare') {isEmpty : α → Bool} {isEmpty' : β → Bool} {s1 s2 : α}
    {t1 t2 : β} (h1 : isEmpty s1 = isEmpty' t1) (h2 : isEmpty s2 = isEmpty' t2)
    (hle : le s1 s2 ↔ le' t1 t2) (hge : le s2 s1 ↔ le' t2 t1) (ascending : Bool) :
    sortTexts isEmpty compare s1 s2 ascending = sortTexts isEmpty' compare' t1 t2 ascending := by
  have hneg : compare s2 s1 < 0 ↔ compare' t2 t1 < 0 := by rw [h.neg_iff, h'.neg_iff, hle]
  have hpos : compare s2 s1 > 0 ↔ compare' t2 t1 > 0 := by
    rw [gt_iff_lt, gt_iff_lt, h.pos_iff, h'.pos_iff, hge]
  unfold sortTexts
  dsimp only
  rw [h1, h2, decide_eq_decide.mpr hneg, decide_eq_decide.mpr hpos]

end SortHelper

namespace CaseComparison

variable (c : CaseComparison)

/-- The four overloads of `SortStrings` agree on texts without a NUL, and a null pointer
counts as the empty text. -/
structure OverloadsAgree : Prop where
  /-- `CString` and `std::wstring`. -/
  cString : ∀ s1 s2 ascending, 0 ∉ s1 → 0 ∉ s2 →
    SortHelper.sortCStrings c s1 s2 ascending = SortHelper.sortStdWStrings c s1 s2 ascending
  /-- `const wchar_t*` and `std::wstring`. -/
  pointer : ∀ s1 s2 ascending, 0 ∉ s1 → 0 ∉ s2 →
    SortHelper.sortPointers c (some s1) (some s2) ascending =
      SortHelper.sortStdWStrings c s1 s2 ascending
  /-- A null `const wchar_t*` and an empty one. -/
  null : ∀ s ascending,
    SortHelper.sortPointers c none s ascending = SortHelper.sortPointers c (some []) s ascending ∧
      SortHelper.sortPointers c s none ascending = SortHelper.sortPointers c s (some []) ascending
  /-- `std::string` and `std::wstring`. -/
  stdString : ∀ s1 s2 ascending, 0 ∉ s1 → 0 ∉ s2 →
    SortHelper.sortStdStrings c s1 s2 ascending =
      SortHelper.sortStdWStrings c (c.widen s1) (c.widen s2) ascending

/-- A text without a NUL is read to its end. -/
theorem cStr_eq {s : WString} (hs : 0 ∉ s) : cStr s = s :=
  List.takeWhile_eq_self_iff.mpr fun _ hu => decide_eq_true fun hzero => hs (hzero ▸ hu)

/-- A text without a NUL is read to its end. -/
theorem cStrA_eq {s : List UInt8} (hs : 0 ∉ s) : cStrA s = s :=
  List.takeWhile_eq_self_iff.mpr fun _ hb => decide_eq_true fun hzero => hs (hzero ▸ hb)

/-- **The overloads** agree. -/
theorem overloads_agree : c.OverloadsAgree where
  cString s1 s2 ascending _ _ := SortHelper.sortTexts_congr (c.compareNoCase_threeWay.on cStr)
    (c.wcsicmp_threeWay.on cStr) rfl rfl Iff.rfl Iff.rfl ascending
  pointer s1 s2 ascending hs1 hs2 := by
    refine SortHelper.sortTexts_congr (c.wcsicmp_threeWay.on SortHelper.pointee)
      (c.wcsicmp_threeWay.on cStr) ?_ ?_ Iff.rfl Iff.rfl ascending
    · exact congrArg List.isEmpty (cStr_eq hs1)
    · exact congrArg List.isEmpty (cStr_eq hs2)
  null s ascending := ⟨rfl, rfl⟩
  stdString s1 s2 ascending hs1 hs2 := by
    have hempty : ∀ s, s.isEmpty = (c.widen s).isEmpty := by
      intro s
      rw [Bool.eq_iff_iff, List.isEmpty_iff, List.isEmpty_iff, c.widen_eq_nil]
    refine SortHelper.sortTexts_congr (c.stricmp_threeWay.on cStrA) (c.wcsicmp_threeWay.on cStr)
      (hempty s1) (hempty s2) ?_ ?_ ascending
    all_goals rw [cStrA_eq hs1, cStrA_eq hs2, cStr_eq (c.widen_nonzero s1 hs1),
      cStr_eq (c.widen_nonzero s2 hs2)]

/-- The shared body sorts with any comparison that goes by the texts. -/
theorem sorts {α : Type} {text : α → WString} {compare : α → α → ℤ}
    (h : ThreeWay (fun a b => c.le (text a) (text b)) compare) (isEmpty : α → Bool) :
    SortHelper.SortsStrings isEmpty (SortHelper.sortTexts isEmpty compare) := by
  apply SortHelper.sortTexts_sorts h
  · exact fun a b => c.total (text a) (text b)
  · exact fun a b d => c.trans (text a) (text b) (text d)

/-- What `DoSort` and `SortStrings` do with such comparisons. -/
structure OrdersRows : Prop where
  /-- In every column and direction the rows are compared by a strict weak order. -/
  rows : ∀ (v : ProcessesView) (answers : SortAnswers) (col : ℕ) (asc : Bool),
    StrictWeak (v.sortsBeforeBy (SortHelper.sortStdWStrings c) answers col asc)
  /-- The order is asymmetric. -/
  rows_asymm : ∀ (v : ProcessesView) (answers : SortAnswers) (col : ℕ) (asc : Bool) (r1 r2),
    v.sortsBeforeBy (SortHelper.sortStdWStrings c) answers col asc r1 r2 = true →
      v.sortsBeforeBy (SortHelper.sortStdWStrings c) answers col asc r2 r1 = false
  /-- The overloads agree. -/
  overloads : c.OverloadsAgree
  /-- The overload for `CString`. -/
  cString : SortHelper.SortsStrings List.isEmpty (SortHelper.sortCStrings c)
  /-- The overload for `std::string`. -/
  stdString : SortHelper.SortsStrings List.isEmpty (SortHelper.sortStdStrings c)
  /-- The overload for `std::wstring`. -/
  stdWString : SortHelper.SortsStrings List.isEmpty (SortHelper.sortStdWStrings c)
  /-- The overload for `const wchar_t*`. -/
  pointer : SortHelper.SortsStrings (fun s => (SortHelper.pointee s).isEmpty)
    (SortHelper.sortPointers c)

/-- **The order of the rows.** -/
theorem orders_rows : c.OrdersRows := by
  have hwide : SortHelper.SortsStrings List.isEmpty (SortHelper.sortStdWStrings c) :=
    c.sorts (c.wcsicmp_threeWay.on cStr) _
  have hrows : ∀ (v : ProcessesView) (answers : SortAnswers) (col : ℕ) (asc : Bool),
      StrictWeak (v.sortsBeforeBy (SortHelper.sortStdWStrings c) answers col asc) :=
    fun v answers col asc =>
      ProcessesView.sortsBeforeBy_strictWeak (hwide.strictWeak asc) v answers col
  refine ⟨hrows, fun v answers col asc r1 r2 hless => ?_, c.overloads_agree, ?_, ?_, hwide, ?_⟩
  · have horder := hrows v answers col asc
    rw [← Bool.not_eq_true]
    exact fun hgreater => horder.irrefl r1 (horder.trans r1 r2 r1 hless hgreater)
  · exact c.sorts (c.compareNoCase_threeWay.on cStr) _
  · exact c.sorts (c.stricmp_threeWay.on cStrA) _
  · exact c.sorts (c.wcsicmp_threeWay.on SortHelper.pointee) _

/-- The comparison of lower-case texts in a locale. -/
def ofLocale (locale : Locale) (widen_eq_nil : ∀ s, locale.widen s = [] ↔ s = [])
    (widen_nonzero : ∀ s, 0 ∉ s → 0 ∉ locale.widen s) : CaseComparison where
  widen := locale.widen
  widen_eq_nil := widen_eq_nil
  widen_nonzero := widen_nonzero
  le a b := locale.fold a ≤ locale.fold b
  total _ _ := le_total _ _
  trans _ _ _ := le_trans
  stricmp a b := locale.wcsicmp (locale.widen a) (locale.widen b)
  stricmp_threeWay := ⟨fun _ _ => SortHelper.wcsicmp_neg.trans not_le.symm,
    fun _ _ => SortHelper.wcsicmp_pos.trans not_le.symm⟩
  wcsicmp := locale.wcsicmp
  wcsicmp_threeWay := ⟨fun _ _ => SortHelper.wcsicmp_neg.trans not_le.symm,
    fun _ _ => SortHelper.wcsicmp_pos.trans not_le.symm⟩
  compareNoCase := locale.wcsicmp
  compareNoCase_threeWay := ⟨fun _ _ => SortHelper.wcsicmp_neg.trans not_le.symm,
    fun _ _ => SortHelper.wcsicmp_pos.trans not_le.symm⟩

/-- The comparison of the plain host, which only widens `char` strings. -/
def plain : CaseComparison :=
  ofLocale Host.plain.locale (fun _ => List.map_eq_nil_iff) (fun s hs hzero => by
    obtain ⟨b, hb, hbzero⟩ := List.mem_map.mp hzero
    have hb0 : b = 0 := UInt8.toNat_inj.mp (congrArg UInt16.toNat hbzero)
    exact hs (hb0 ▸ hb))

/-- The rows are ordered with the comparison of the plain host. -/
theorem orders_rows_plain : plain.OrdersRows :=
  plain.orders_rows

/-- The view sorts by such a comparison. -/
theorem sortsBefore_ofLocale (host : Host)
    (widen_eq_nil : ∀ s, host.locale.widen s = [] ↔ s = [])
    (widen_nonzero : ∀ s, 0 ∉ s → 0 ∉ host.locale.widen s) (v : ProcessesView) :
    v.sortsBefore host = v.sortsBeforeBy
      (SortHelper.sortStdWStrings (ofLocale host.locale widen_eq_nil widen_nonzero)) := rfl

end CaseComparison

end ProcExpX
