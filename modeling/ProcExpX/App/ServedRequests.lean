import ProcExpX.App.Registries
import ProcExpX.Library.AtEach

/-!
# Which requests for properties are served

Closing a property window only marks it. The window menu of the next frame forgets it,
then the view still finds it under its key, and the loop over the windows drops it at
the end of that frame. A request that comes in between finds the window that is about
to be dropped.
-/

namespace ProcExpX.TabManager

open Library WinSys

variable {host : Host} {narrowing : Narrowing} {t : TabManager} {pi : Ref ProcessInfo}

/-- The state of a frame when its tables have been built and the requests made in them
answered, before the property windows are built. -/
def requested (t : TabManager) (host : Host) (narrowing : Narrowing) (f : TabFrame) :
    TabManager :=
  (t.buildWindowMenu f.menuOrder).buildTable host narrowing f.toFrame

/-- The user asks for the properties of a process in a frame, and does not close the
window found for it in the same frame. -/
structure AsksFor (host : Host) (narrowing : Narrowing) (t : TabManager) (f : TabFrame)
    (pi : Ref ProcessInfo) : Prop where
  /-- `GetOrAddProcessProperties` is called. -/
  asks : pi ∈ (t.requested host narrowing f).session.history.properties.drop
    t.session.history.properties.length
  /-- The window is not closed. -/
  stays : ∀ r, (t.requested host narrowing f).processProperties.lookup
    ((t.requested host narrowing f).session.view.key pi) = some r → f.closed r = false

/-- There is an open property window for a key in both registries. -/
def Serves (t : TabManager) (k : ProcessOrThreadKey) : Prop :=
  ∃ r, t.processProperties.lookup k = some r ∧ t.windows.lookup (t.nameOf r) = some r ∧
    t.isOpen r = true

/-- There is a property window for a key in the view that has been closed. -/
def JustClosed (t : TabManager) (k : ProcessOrThreadKey) : Prop :=
  ∃ r, t.processProperties.lookup k = some r ∧ t.isOpen r = false

/-- Whether a property window for a key has been closed is decidable. -/
instance (t : TabManager) (k : ProcessOrThreadKey) : Decidable (t.JustClosed k) :=
  decidable_of_iff ((t.processProperties.lookup k).any fun r => !t.isOpen r) (by
    unfold JustClosed
    cases t.processProperties.lookup k <;> simp)

/-- Requests leave the process view alone. -/
theorem foldl_getOrAdd_session (narrowing : Narrowing) (t : TabManager)
    (requests : List (Ref ProcessInfo)) :
    (requests.foldl (fun t pi => t.getOrAddProcessProperties narrowing pi) t).session =
      t.session := by
  induction requests generalizing t with
  | nil => rfl
  | cons pi requests ih =>
    rw [List.foldl_cons, ih]
    rcases getOrAddProcessProperties_cases narrowing t pi with ⟨_, hsame⟩ | ⟨_, r, hadds⟩
    · rw [hsame]
    · exact hadds.session_eq

/-- A window found under a key is found there after further requests, as open as
before. -/
theorem foldl_getOrAdd_found (narrowing : Narrowing) (requests : List (Ref ProcessInfo))
    {k : ProcessOrThreadKey} {r : Ref ProcessProperties}
    (hr : t.processProperties.lookup k = some r) (hlive : t.objects.Live r) :
    (requests.foldl (fun t pi => t.getOrAddProcessProperties narrowing pi)
        t).processProperties.lookup k = some r ∧
      (requests.foldl (fun t pi => t.getOrAddProcessProperties narrowing pi) t).isOpen r =
        t.isOpen r := by
  induction requests generalizing t with
  | nil => exact ⟨hr, rfl⟩
  | cons pi requests ih =>
    rw [List.foldl_cons]
    rcases getOrAddProcessProperties_cases narrowing t pi with ⟨_, hsame⟩ | ⟨hnone, r', hadds⟩
    · rw [hsame]
      exact ih hr hlive
    · obtain ⟨hfound, hopen⟩ := ih ((hadds.lookup_cases hnone).mpr (Or.inl hr))
        ((hadds.live_iff r).mpr (Or.inl hlive))
      exact ⟨hfound, hopen.trans (hadds.old hlive).2.2⟩

/-- A request that finds no window makes one that is open. -/
theorem foldl_getOrAdd_made (narrowing : Narrowing) {requests : List (Ref ProcessInfo)}
    (hpi : pi ∈ requests)
    (hnone : t.processProperties.lookup (t.session.view.key pi) = none) :
    ∃ r, (requests.foldl (fun t pi => t.getOrAddProcessProperties narrowing pi)
        t).processProperties.lookup (t.session.view.key pi) = some r ∧
      (requests.foldl (fun t pi => t.getOrAddProcessProperties narrowing pi) t).isOpen r =
        true := by
  induction requests generalizing t with
  | nil => cases hpi
  | cons first requests ih =>
    rw [List.foldl_cons]
    rcases getOrAddProcessProperties_cases narrowing t first with
      ⟨⟨r, hr⟩, hsame⟩ | ⟨hfree, r, hadds⟩
    · rw [hsame]
      rcases List.mem_cons.mp hpi with rfl | hrest
      · exact absurd (hr.symm.trans hnone) (Option.some_ne_none r)
      · exact ih hrest hnone
    · by_cases hkey : t.session.view.key pi = t.session.view.key first
      · obtain ⟨hfound, hopen⟩ := foldl_getOrAdd_found narrowing requests
          ((hadds.lookup_cases hfree).mpr (Or.inr ⟨hkey, rfl⟩))
          ((hadds.live_iff r).mpr (Or.inr rfl))
        exact ⟨r, hfound, hopen.trans hadds.new.2.2⟩
      · have hrest : pi ∈ requests := by
          rcases List.mem_cons.mp hpi with rfl | hrest
          · exact absurd rfl hkey
          · exact hrest
        have hnone' : (t.getOrAddProcessProperties narrowing first).processProperties.lookup
            (t.session.view.key pi) = none := by
          rw [Option.eq_none_iff_forall_ne_some]
          intro r' hr'
          rcases (hadds.lookup_cases hfree).mp hr' with hold | ⟨hsame, _⟩
          · exact absurd (hold.symm.trans hnone) (Option.some_ne_none r')
          · exact hkey hsame
        rw [← hadds.session_eq] at hnone' ⊢
        exact ih hrest hnone'

/-- **A request** finds the window that is there, or makes one that is open. -/
theorem foldl_getOrAdd_asked (narrowing : Narrowing) {requests : List (Ref ProcessInfo)}
    (hpi : pi ∈ requests)
    (hlive : ∀ k r, t.processProperties.lookup k = some r → t.objects.Live r) :
    ∃ r, (requests.foldl (fun t pi => t.getOrAddProcessProperties narrowing pi)
        t).processProperties.lookup (t.session.view.key pi) = some r ∧
      ((requests.foldl (fun t pi => t.getOrAddProcessProperties narrowing pi) t).isOpen r = true ↔
        ¬ t.JustClosed (t.session.view.key pi)) := by
  cases hlookup : t.processProperties.lookup (t.session.view.key pi) with
  | some r =>
    obtain ⟨hfound, hopen⟩ := foldl_getOrAdd_found narrowing requests hlookup
      (hlive _ r hlookup)
    refine ⟨r, hfound, ?_⟩
    rw [hopen]
    constructor
    · rintro hopen ⟨r', hr', hclosed⟩
      obtain rfl := Option.some.inj (hlookup.symm.trans hr')
      exact absurd (hopen.symm.trans hclosed) (by decide)
    · exact fun hkept => Bool.of_not_eq_false fun hclosed => hkept ⟨r, hlookup, hclosed⟩
  | none =>
    obtain ⟨r, hfound, hopen⟩ := foldl_getOrAdd_made narrowing hpi hlookup
    refine ⟨r, hfound, iff_of_true hopen ?_⟩
    rintro ⟨r', hr', _⟩
    exact absurd (hr'.symm.trans hlookup) (Option.some_ne_none r')

/-- The loop over the property windows leaves one that is not clicked as open as it
was. -/
theorem isOpen_buildProperties (order : IterationOrder) {closed : Ref ProcessProperties → Bool}
    {r : Ref ProcessProperties} (hr : closed r = false) :
    (t.buildProperties order closed).isOpen r = t.isOpen r := by
  have hloop : ∀ (rs : List (Ref ProcessProperties)) (l : Closing),
      ((rs.foldl (t.visitWindow closed) l).objects.read r).windowOpen =
        (l.objects.read r).windowOpen := by
    intro rs
    induction rs with
    | nil => exact fun _ => rfl
    | cons r' rs ih =>
      intro l
      rw [List.foldl_cons, ih]
      by_cases heq : r = r'
      · subst heq
        unfold visitWindow
        dsimp only
        split
        · rename_i hopen
          rw [Heap.read_write_self, hr, hopen]
          rfl
        · rfl
      · exact (looped_visitWindow t closed l r').unvisited r (by simpa using heq)
  exact hloop _ _

/-- **One frame.** A request is served precisely when the window of its key has not just
been closed. -/
theorem frame_serves_iff (h : t.Registered host) (ha : t.RegistriesAgree) {f : TabFrame}
    (hasks : t.AsksFor host narrowing f pi) :
    (t.frame host narrowing f).Serves ((t.requested host narrowing f).session.view.key pi) ↔
      ¬ t.JustClosed ((t.requested host narrowing f).session.view.key pi) := by
  have hsession : (t.requested host narrowing f).session = t.session.buildWindow host f.toFrame :=
    foldl_getOrAdd_session narrowing _ _
  obtain ⟨hreg, hopenAgree⟩ := buildTable_agree narrowing (h.buildWindowMenu f.menuOrder)
    (ha.buildWindowMenu f.menuOrder) f.toFrame
  have hagree := (buildProperties_agree hreg f.loopOrder f.closed hopenAgree).2
  have hlookup := lookup_buildProperties hreg f.loopOrder f.closed
  have hpi := hasks.asks
  have hstays := hasks.stays
  rw [hsession] at hpi hstays ⊢
  let t' : TabManager :=
    { t.buildWindowMenu f.menuOrder with session := t.session.buildWindow host f.toFrame }
  have hlive : ∀ k r, t'.processProperties.lookup k = some r → t'.objects.Live r := h.live
  obtain ⟨r, hr, hopen⟩ := foldl_getOrAdd_asked narrowing hpi hlive
  refine Iff.trans ?_ hopen
  constructor
  · rintro ⟨r', hr', _⟩
    obtain ⟨hfound, hopen'⟩ := (hlookup _ r').mp hr'
    rwa [Option.some.inj (hr.symm.trans hfound)]
  · intro hopen'
    have hr' := (hlookup _ r).mpr ⟨hr, hopen'⟩
    exact ⟨r, hr', (hagree.by_key _ r hr').2,
      (isOpen_buildProperties f.loopOrder (hstays r hr)).trans hopen'⟩

/-- **Which requests are served.** In every run, each request for the properties of a
process whose window is not closed in the same frame ends with an open window in both
registries precisely when no request comes in the frame after the window of its key has
been closed. -/
theorem run_serves_iff (host : Host) (narrowing : Narrowing) (readings : ℕ → UInt64)
    (frames : List TabFrame) :
    AtEach (fun before f => ∀ pi,
      (run host narrowing readings before).AsksFor host narrowing f pi →
        (run host narrowing readings (before ++ [f])).Serves
          ((run host narrowing readings (before ++ [f])).session.view.key pi)) frames ↔
      AtEach (fun before f => ∀ pi,
        (run host narrowing readings before).AsksFor host narrowing f pi →
          ¬ (run host narrowing readings before).JustClosed
            ((run host narrowing readings (before ++ [f])).session.view.key pi)) frames := by
  have hframe : ∀ before f pi, (run host narrowing readings before).AsksFor host narrowing f pi →
      ((run host narrowing readings (before ++ [f])).Serves
          ((run host narrowing readings (before ++ [f])).session.view.key pi) ↔
        ¬ (run host narrowing readings before).JustClosed
          ((run host narrowing readings (before ++ [f])).session.view.key pi)) := by
    intro before f pi hasks
    obtain ⟨hreg, hagree⟩ := run_agree host narrowing readings before
    rw [run_concat]
    exact frame_serves_iff hreg hagree hasks
  constructor
  · intro h before f after heq pi hasks
    exact (hframe before f pi hasks).mp (h before f after heq pi hasks)
  · intro h before f after heq pi hasks
    exact (hframe before f pi hasks).mpr (h before f after heq pi hasks)

/-- The properties of a process are asked for, the window is closed in the next frame,
and they are asked for again in the one after it. -/
theorem request_after_closing_lost :
    let world := (Call.answered .enumProcesses 100 (.bare 1 8) []).toEnumWorld
    let row : RowVisit := ⟨0, false, some ⟨false, false, true⟩, ⟨.stillOpen, .of [], false⟩⟩
    let frame (visits : List RowVisit) (closed : Bool) : TabFrame :=
      { Frame.idle world with
        visits := visits, menuOrder := .stored, loopOrder := .stored, closed := fun _ => closed }
    let readings := fun n => 1000 + UInt64.ofNat n
    ¬ AtEach (fun before f => ∀ pi,
      (run .plain .plain readings before).AsksFor .plain .plain f pi →
        (run .plain .plain readings (before ++ [f])).Serves
          ((run .plain .plain readings (before ++ [f])).session.view.key pi))
      [frame [row] false, frame [] true, frame [row] false] := by
  intro world row frame readings h
  have hasks : (run .plain .plain readings [frame [row] false, frame [] true]).AsksFor .plain
      .plain (frame [row] false) ⟨0⟩ := by
    refine ⟨?_, fun _ _ => rfl⟩
    decide +kernel
  obtain ⟨r, hr, _⟩ := h [frame [row] false, frame [] true] (frame [row] false) [] rfl ⟨0⟩ hasks
  have hlost : (run .plain .plain readings
      [frame [row] false, frame [] true, frame [row] false]).processProperties.lookup
        ((run .plain .plain readings
          [frame [row] false, frame [] true, frame [row] false]).session.view.key ⟨0⟩) = none := by
    decide +kernel
  exact absurd (hr.symm.trans hlost) (Option.some_ne_none r)

end ProcExpX.TabManager
