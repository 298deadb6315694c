import ProcExpX.App.Attributes
import ProcExpX.App.TableSteps
import ProcExpX.Library.Inquiry

/-!
# Sorting by cached answers

The user name, the path and the attributes of a process are asked of the system when they are
first needed, and then kept in the record of the process. If they are first needed in a sort,
the comparison that is passed to `std::sort` opens processes and fills records. Here such a
sort is compared with one whose comparison goes by fixed answers.
-/

namespace ProcExpX

open Library WinSys

/-- What the system answers at one moment about a process opened by pid. -/
structure SystemAnswers where
  /-- `GetUserName`, if the process can be opened. -/
  userName : UInt32 → Option WString
  /-- `GetFullImageName`, if the process can be opened. -/
  fullImageName : UInt32 → Option WString
  /-- What the attributes are worked out from, if the process can be opened. -/
  attributes : UInt32 → Option OpenedProcess

/-- The part of `ProcessInfoEx` that keeps answers of the system. -/
structure CachedAnswers extends CachedAttributes where
  /-- `_username`. -/
  username : WString
  /-- `_executablePath`. -/
  executablePath : WString

/-- The columns of the table that show an answer of the system. -/
inductive AnswerColumn
  | userName
  | executablePath
  | attributes
  deriving DecidableEq

/-- The index of a column in the table. -/
def AnswerColumn.index : AnswerColumn → ℕ
  | .userName => 2
  | .executablePath => 12
  | .attributes => 17

namespace CachedAnswers

/-- The constructor. -/
def make (pi : Ref ProcessInfo) : CachedAnswers :=
  { toCachedAttributes := .make pi, username := [], executablePath := [] }

variable (locale : Locale) (m : Impl) (now : SystemAnswers) (px : CachedAnswers)

/-- The record after `UserName`, which returns its `_username`. -/
def userName : CachedAnswers :=
  if px.username.isEmpty then
    if (m.process px.pi).id ≤ 4 then { px with username := wide "NT AUTHORITY\\SYSTEM" }
    else
      let username := (now.userName (m.process px.pi).id).getD []
      { px with username := if username.isEmpty then wide "<access denied>" else username }
  else px

/-- The record after `GetExecutablePath`, which returns its `_executablePath`. -/
def getExecutablePath : CachedAnswers :=
  if px.executablePath.isEmpty && (m.process px.pi).id != 0 then
    let path := (m.process px.pi).nativeImagePath
    -- Beyond the end of an empty path stands a NUL.
    if path.head? = some 0x5C then
      match now.fullImageName (m.process px.pi).id with
      | some name => { px with executablePath := name }
      | none => px
    else { px with executablePath := path }
  else px

/-- The record after `GetAttributes`, which returns its `_attributes`. -/
def getAttributes : CachedAnswers :=
  { px with
    toCachedAttributes := (px.toCachedAttributes.getAttributes locale m now.attributes).2 }

/-- The record after the member function that a column calls. -/
def asked : AnswerColumn → CachedAnswers
  | .userName => px.userName m now
  | .executablePath => px.getExecutablePath m now
  | .attributes => px.getAttributes locale m now

end CachedAnswers

/-- The records during a sort, and how many answers have been asked for. -/
structure AnswerCache where
  /-- `_processesEx`. -/
  records : UnorderedMap ProcessOrThreadKey CachedAnswers
  /-- The number of answers asked for so far. -/
  moment : ℕ

/-- What a sort meets outside the view. -/
structure SortWorld where
  /-- What the system answers at each moment. -/
  answers : ℕ → SystemAnswers
  /-- Which operand of a comparison is evaluated first. -/
  leftFirst : ℕ → Bool

namespace AnswerCache

variable (host : Host) (v : ProcessesView) (world : SortWorld) (column : AnswerColumn) (asc : Bool)

/-- The record that `GetProcessInfoEx` returns. -/
def infoEx (c : AnswerCache) (pi : Ref ProcessInfo) : CachedAnswers :=
  (c.records.lookup (v.key pi)).getD (.make pi)

/-- The answers that the records hold. -/
def answers (c : AnswerCache) : SortAnswers where
  userName pi := (c.infoEx v pi).username
  executablePath pi := (c.infoEx v pi).executablePath
  attributes pi := (c.infoEx v pi).attributes

/-- One operand of a comparison. -/
def evaluate (c : AnswerCache) (pi : Ref ProcessInfo) : AnswerCache where
  records := c.records.insert (v.key pi)
    ((c.infoEx v pi).asked host.locale v.pm (world.answers c.moment) column)
  moment := c.moment + 1

/-- One comparison. The operands are compared after both have been evaluated. -/
def compare (c : AnswerCache) (q : Ref ProcessInfo × Ref ProcessInfo) : Bool × AnswerCache :=
  let c :=
    if world.leftFirst c.moment then
      (c.evaluate host v world column q.1).evaluate host v world column q.2
    else (c.evaluate host v world column q.2).evaluate host v world column q.1
  (v.sortsBefore host (c.answers v) column.index asc q.1 q.2, c)

end AnswerCache

/-- `DoSort` by such a column, for an implementation of `std::sort` given by the comparisons
that it asks for. -/
def ProcessesView.doSortAsking (host : Host) (v : ProcessesView) (world : SortWorld)
    (column : AnswerColumn) (asc : Bool)
    (sort : List (Ref ProcessInfo) →
      Inquiry (Ref ProcessInfo × Ref ProcessInfo) Bool (List (Ref ProcessInfo)))
    (c : AnswerCache) : List (Ref ProcessInfo) × AnswerCache :=
  (sort v.processes).consult (AnswerCache.compare host v world column asc) c

/-- During the sort the path of no process becomes available or unavailable. -/
def SortWorld.PathsSteady (world : SortWorld) : Prop :=
  ∀ n k id, ((world.answers n).fullImageName id).getD [] = [] →
    ((world.answers k).fullImageName id).getD [] = []

namespace CachedAnswers

variable {locale : Locale} {m : Impl} {now later : SystemAnswers} {px : CachedAnswers}

/-- A user name that has been asked for is kept. -/
theorem userName_userName : (px.userName m now).userName m later = px.userName m now := by
  have hkept : ∀ px : CachedAnswers, px.username.isEmpty = false → px.userName m later = px := by
    intro px hname
    unfold userName
    rw [hname, if_neg Bool.false_ne_true]
  apply hkept
  unfold userName
  cases hname : px.username.isEmpty with
  | false =>
    rw [if_neg Bool.false_ne_true]
    exact hname
  | true =>
    rw [if_pos rfl]
    split
    · show (wide "NT AUTHORITY\\SYSTEM").isEmpty = false
      decide
    · dsimp only
      cases hopened : ((now.userName (m.process px.pi).id).getD []).isEmpty with
      | true =>
        show (wide "<access denied>").isEmpty = false
        decide
      | false => exact hopened

/-- Attributes are worked out once, and later answers do not change them. -/
theorem getAttributes_getAttributes :
    (px.getAttributes locale m now).getAttributes locale m later =
      px.getAttributes locale m now := by
  have hkept : ((px.getAttributes locale m now).toCachedAttributes.getAttributes locale m
      later.attributes).2 = (px.getAttributes locale m now).toCachedAttributes :=
    CachedAttributes.getAttributes_computed CachedAttributes.getAttributes_isComputed
  calc (px.getAttributes locale m now).getAttributes locale m later
      = { px.getAttributes locale m now with
          toCachedAttributes := ((px.getAttributes locale m now).toCachedAttributes.getAttributes
            locale m later.attributes).2 } := rfl
    _ = px.getAttributes locale m now := by rw [hkept]

/-- A path is kept unless it becomes available later. -/
theorem getExecutablePath_getExecutablePath
    (h : (now.fullImageName (m.process px.pi).id).getD [] = [] →
      (later.fullImageName (m.process px.pi).id).getD [] = []) :
    (px.getExecutablePath m now).getExecutablePath m later = px.getExecutablePath m now := by
  have hkept : ∀ px : CachedAnswers, px.executablePath.isEmpty = false →
      px.getExecutablePath m later = px := by
    intro px hpath
    unfold getExecutablePath
    rw [hpath, Bool.false_and, if_neg Bool.false_ne_true]
  -- An empty path is asked for again, and comes out empty again.
  have hagain : px.executablePath = [] → (later.fullImageName (m.process px.pi).id).getD [] = [] →
      (m.process px.pi).nativeImagePath.head? = some 0x5C →
        px.getExecutablePath m later = px := by
    intro hempty hlater hnative
    unfold getExecutablePath
    dsimp only
    rw [if_pos hnative]
    split
    · cases hname : later.fullImageName (m.process px.pi).id with
      | none => rfl
      | some name =>
        rw [hname, Option.getD_some] at hlater
        rw [hlater, ← hempty]
    · rfl
  have hwritten : ∀ path : WString, px.executablePath = [] → path.isEmpty = true →
      { px with executablePath := path } = px := by
    intro path hempty hpath
    rw [List.isEmpty_iff.mp hpath, ← hempty]
  cases hasked : px.executablePath.isEmpty && (m.process px.pi).id != 0 with
  | false =>
    have hsame : ∀ now, px.getExecutablePath m now = px := by
      intro now
      unfold getExecutablePath
      rw [hasked, if_neg Bool.false_ne_true]
    rw [hsame now, hsame later]
  | true =>
    have hempty : px.executablePath = [] :=
      List.isEmpty_iff.mp (Bool.and_eq_true_iff.mp hasked).1
    by_cases hnative : (m.process px.pi).nativeImagePath.head? = some 0x5C
    · have hnow : px.getExecutablePath m now =
          match now.fullImageName (m.process px.pi).id with
          | some name => { px with executablePath := name }
          | none => px := by
        unfold getExecutablePath
        rw [hasked, if_pos rfl]
        exact if_pos hnative
      rw [hnow]
      cases hname : now.fullImageName (m.process px.pi).id with
      | none => exact hagain hempty (h (by rw [hname, Option.getD_none])) hnative
      | some name =>
        dsimp only
        cases hlength : name.isEmpty with
        | true =>
          rw [hwritten name hempty hlength]
          refine hagain hempty (h ?_) hnative
          rw [hname, Option.getD_some, List.isEmpty_iff.mp hlength]
        | false => exact hkept _ hlength
    · have hnow : ∀ now, px.getExecutablePath m now =
          { px with executablePath := (m.process px.pi).nativeImagePath } := by
        intro now
        unfold getExecutablePath
        rw [hasked, if_pos rfl]
        exact if_neg hnative
      rw [hnow now]
      cases hlength : (m.process px.pi).nativeImagePath.isEmpty with
      | true =>
        rw [hwritten _ hempty hlength, hnow later]
        exact hwritten _ hempty hlength
      | false => exact hkept _ hlength

/-- **What has been asked for is kept**, a path unless it becomes available later. -/
theorem asked_asked {column : AnswerColumn}
    (h : column = .executablePath → (now.fullImageName (m.process px.pi).id).getD [] = [] →
      (later.fullImageName (m.process px.pi).id).getD [] = []) :
    (px.asked locale m now column).asked locale m later column =
      px.asked locale m now column := by
  cases column with
  | userName => exact userName_userName
  | executablePath => exact getExecutablePath_getExecutablePath (h rfl)
  | attributes => exact getAttributes_getAttributes

end CachedAnswers

namespace AnswerCache

variable {host : Host} {v : ProcessesView} {world : SortWorld} {column : AnswerColumn}
  {asc : Bool}

/-- The record of a process is there and does not change any more. -/
def Settled (host : Host) (v : ProcessesView) (world : SortWorld) (column : AnswerColumn)
    (c : AnswerCache) (pi : Ref ProcessInfo) : Prop :=
  ∃ px, c.records.lookup (v.key pi) = some px ∧
    ∀ n, px.asked host.locale v.pm (world.answers n) column = px

/-- A record that is there is the one that `GetProcessInfoEx` returns. -/
theorem infoEx_eq {c : AnswerCache} {pi : Ref ProcessInfo} {px : CachedAnswers}
    (h : c.records.lookup (v.key pi) = some px) : c.infoEx v pi = px := by
  unfold infoEx
  rw [h, Option.getD_some]

/-- Evaluating an operand settles its record. -/
theorem evaluate_settles (hsteady : column = .executablePath → world.PathsSteady)
    (c : AnswerCache) (pi : Ref ProcessInfo) :
    (c.evaluate host v world column pi).Settled host v world column pi := by
  refine ⟨_, AList.lookup_insert _, fun n => ?_⟩
  exact CachedAnswers.asked_asked fun hpath => hsteady hpath c.moment n _

/-- A settled record stays as it is. -/
theorem Settled.evaluate {c : AnswerCache} {pi : Ref ProcessInfo}
    (h : c.Settled host v world column pi) (pi' : Ref ProcessInfo) :
    (c.evaluate host v world column pi').Settled host v world column pi ∧
      (c.evaluate host v world column pi').infoEx v pi = c.infoEx v pi := by
  obtain ⟨px, hlookup, hstill⟩ := h
  have hkept : (c.evaluate host v world column pi').records.lookup (v.key pi) = some px := by
    unfold AnswerCache.evaluate
    by_cases hkey : v.key pi = v.key pi'
    · rw [hkey, AList.lookup_insert, infoEx_eq (hkey ▸ hlookup), hstill]
    · rw [AList.lookup_insert_ne hkey, hlookup]
  exact ⟨⟨px, hkept, hstill⟩, (infoEx_eq hkept).trans (infoEx_eq hlookup).symm⟩

/-- A comparison settles the records of both operands. -/
theorem compare_settles (hsteady : column = .executablePath → world.PathsSteady)
    (c : AnswerCache) (q : Ref ProcessInfo × Ref ProcessInfo) :
    (c.compare host v world column asc q).2.Settled host v world column q.1 ∧
      (c.compare host v world column asc q).2.Settled host v world column q.2 := by
  unfold compare
  dsimp only
  split
  · exact ⟨((evaluate_settles hsteady c q.1).evaluate q.2).1, evaluate_settles hsteady _ q.2⟩
  · exact ⟨evaluate_settles hsteady _ q.1, ((evaluate_settles hsteady c q.2).evaluate q.1).1⟩

/-- A settled record stays as it is in a comparison. -/
theorem Settled.compare {c : AnswerCache} {pi : Ref ProcessInfo}
    (h : c.Settled host v world column pi) (asc : Bool) (q : Ref ProcessInfo × Ref ProcessInfo) :
    (c.compare host v world column asc q).2.Settled host v world column pi ∧
      (c.compare host v world column asc q).2.infoEx v pi = c.infoEx v pi := by
  have htwo : ∀ first second, ((c.evaluate host v world column first).evaluate host v world
      column second).Settled host v world column pi ∧
        ((c.evaluate host v world column first).evaluate host v world column second).infoEx v pi =
          c.infoEx v pi := by
    intro first second
    obtain ⟨hfirst, hsame⟩ := h.evaluate first
    obtain ⟨hsecond, hsame'⟩ := hfirst.evaluate second
    exact ⟨hsecond, hsame'.trans hsame⟩
  unfold AnswerCache.compare
  dsimp only
  split
  · exact htwo q.1 q.2
  · exact htwo q.2 q.1

/-- A comparison by such a column depends on the records of its operands only. -/
theorem sortsBefore_answers {c c' : AnswerCache} {p1 p2 : Ref ProcessInfo}
    (h1 : c'.infoEx v p1 = c.infoEx v p1) (h2 : c'.infoEx v p2 = c.infoEx v p2) :
    v.sortsBefore host (c'.answers v) column.index asc p1 p2 =
      v.sortsBefore host (c.answers v) column.index asc p1 p2 := by
  unfold ProcessesView.sortsBefore ProcessesView.sortsBeforeBy answers
  cases column <;>
  · simp only [AnswerColumn.index]
    rw [h1, h2]

open scoped Classical in
/-- The result of a comparison whose operands have settled records. -/
noncomputable def known (host : Host) (v : ProcessesView) (world : SortWorld)
    (column : AnswerColumn) (asc : Bool) (c : AnswerCache)
    (q : Ref ProcessInfo × Ref ProcessInfo) : Option Bool :=
  if c.Settled host v world column q.1 ∧ c.Settled host v world column q.2 then
    some (v.sortsBefore host (c.answers v) column.index asc q.1 q.2)
  else none

/-- **The records remember** the comparisons they have settled. -/
theorem compare_remembers (hsteady : column = .executablePath → world.PathsSteady) :
    Inquiry.Remembers (compare host v world column asc) (known host v world column asc) where
  told c q := if_pos (compare_settles hsteady c q)
  kept c q q' a hknown := by
    unfold known at hknown
    split at hknown
    · rename_i hsettled
      obtain ⟨hfirst, hsame1⟩ := hsettled.1.compare asc q
      obtain ⟨hsecond, hsame2⟩ := hsettled.2.compare asc q
      rw [← hknown, known, if_pos ⟨hfirst, hsecond⟩, sortsBefore_answers hsame1 hsame2]
    · cases hknown

end AnswerCache

/-- **Sorting while asking.** Whatever the system answers at each moment and in whichever order
operands are evaluated, `DoSort` by user name or attributes puts the rows in the order that the
answers kept in the records call for, as if these had been there from the start. By path it
does so if no path becomes available or unavailable during the sort. -/
theorem ProcessesView.doSortAsking_eq (host : Host) (v : ProcessesView) (world : SortWorld)
    (column : AnswerColumn) (asc : Bool)
    (sort : List (Ref ProcessInfo) →
      Inquiry (Ref ProcessInfo × Ref ProcessInfo) Bool (List (Ref ProcessInfo)))
    (hsort : ∀ less l, host.stdSort.sort less l = (sort l).answeredBy fun q => less q.1 q.2)
    (hsteady : column = .executablePath → world.PathsSteady) (c : AnswerCache) :
    let after := v.doSortAsking host world column asc sort c
    after.1 = (v.doSort host (after.2.answers v) column.index asc).processes ∧
      after.1.Perm v.processes ∧
        after.1.Pairwise fun p p' =>
          v.sortsBefore host (after.2.answers v) column.index asc p' p = false := by
  intro after
  have hfixed : after.1 = (sort v.processes).answeredBy fun q =>
      v.sortsBefore host (after.2.answers v) column.index asc q.1 q.2 := by
    refine (AnswerCache.compare_remembers hsteady).consult_eq (sort v.processes) c ?_
    intro q a hknown
    unfold AnswerCache.known at hknown
    split at hknown
    · exact Option.some.inj hknown
    · cases hknown
  rw [← hsort] at hfixed
  have hweak := sortsBefore_strictWeak host v (after.2.answers v) column.index asc
  rw [hfixed]
  exact ⟨(congrArg Table.processes (table_doSort host v _ _ _)).symm,
    host.stdSort.perm _ hweak, host.stdSort.sorted _ hweak⟩

/-- A view of two processes, over memory that holds them. -/
private def twoRows (host : Host) : ProcessesView :=
  { (Session.initial host fun _ => 0).view with processes := [⟨0⟩, ⟨1⟩] }

/-- A host whose memory holds processes of different ids with device paths. -/
private def deviceHost : Host :=
  { Host.plain with
    stdSort := .insertion
    rawProcesses := fun n =>
      { (default : ProcessInfo) with
        id := 8 + 4 * UInt32.ofNat n
        key := ⟨0, 8 + 4 * UInt32.ofNat n⟩
        nativeImagePath := wide "\\Device" } }

/-- The second process cannot be opened at first, and sorts before the user name of the first
one by what is then kept for it. -/
theorem ProcessesView.doSortAsking_eq_access_denied :
    let world : SortWorld :=
      { answers := fun n =>
          { userName := fun _ => if n = 0 then none else some (wide "HOST\\user")
            fullImageName := fun _ => none
            attributes := fun _ => none }
        leftFirst := fun _ => true }
    let v := twoRows deviceHost
    let after := v.doSortAsking deviceHost world .userName true insertionInquiry ⟨∅, 0⟩
    after.1 = [⟨1⟩, ⟨0⟩] ∧
      after.1 = (v.doSort deviceHost (after.2.answers v) 2 true).processes ∧
      after.1.Perm v.processes ∧
        after.1.Pairwise fun p p' =>
          v.sortsBefore deviceHost (after.2.answers v) 2 true p' p = false := by
  intro world v after
  refine ⟨by decide +kernel, ?_⟩
  exact v.doSortAsking_eq deviceHost world .userName true insertionInquiry
    (fun less l => (insertionInquiry_sort less l).symm) (fun h => by cases h) ⟨∅, 0⟩

/-- A path that becomes available between two comparisons of the same rows changes their
result, so a sort by path may meet answers that no order explains. -/
theorem late_path_compared_twice :
    let world : SortWorld :=
      { answers := fun n =>
          { userName := fun _ => none
            fullImageName := fun id =>
              if id = 8 then (if n < 2 then none else some (wide "C:\\a")) else some (wide "C:\\b")
            attributes := fun _ => none }
        leftFirst := fun _ => true }
    let v := twoRows deviceHost
    let twice : Inquiry (Ref ProcessInfo × Ref ProcessInfo) Bool (Bool × Bool) :=
      .ask (⟨0⟩, ⟨1⟩) fun first => .ask (⟨0⟩, ⟨1⟩) fun second => .done (first, second)
    (twice.consult (AnswerCache.compare deviceHost v world .executablePath true) ⟨∅, 0⟩).1 =
      (false, true) := by
  decide +kernel

end ProcExpX
