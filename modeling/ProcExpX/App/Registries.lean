import Mathlib.Data.List.TakeWhile
import ProcExpX.App.RequestedRows
import ProcExpX.App.TabManager

/-!
# The two registries of property windows

The pid and the creation time can be read back from the name of a property window,
whatever the image name, so names differ where keys do. Between the window menu and
the end of a frame the two registries agree on the open windows, and at the end of the
frame they hold the same ones.
-/

namespace ProcExpX

open Library WinSys

/-- The pid and the creation time are determined by the name. -/
theorem formatName_inj {image image' : List UInt8} {pid pid' : ℕ} {time time' : ℤ}
    (h : formatName image pid time = formatName image' pid' time') :
    pid = pid' ∧ time = time' := by
  have hcut : ∀ image pid time, formatName image pid time =
      (image ++ ascii [' ', '('] ++ decimal pid ++ ascii ") Properties#".toList) ++
        35 :: signedDecimal time := by
    intro image pid time
    have hhash : ascii ") Properties##".toList = ascii ") Properties#".toList ++ [35] := by decide
    rw [formatName, hhash]
    simp
  have hcut' : ∀ image pid, image ++ ascii [' ', '('] ++ decimal pid =
      (image ++ [32]) ++ 40 :: decimal pid := by
    intro image pid
    rw [show ascii [' ', '('] = [32, 40] from by decide]
    simp
  have htime : ∀ time : ℤ, (35 : UInt8) ∉ signedDecimal time := by
    intro time hmem
    rcases signedDecimal_range hmem with heq | hrange
    · exact absurd heq (by decide)
    · exact absurd hrange.1 (by decide)
  have hpid : ∀ pid : ℕ, (40 : UInt8) ∉ decimal pid :=
    fun pid hmem => absurd (decimal_range hmem).1 (by decide)
  rw [hcut, hcut] at h
  obtain ⟨hbefore, hafter⟩ := cut_at_last (htime time) (htime time') h
  have hfirst := List.append_cancel_right hbefore
  rw [hcut', hcut'] at hfirst
  exact ⟨decimal_injective (cut_at_last (hpid pid) (hpid pid') hfirst).2,
    signedDecimal_injective hafter⟩

/-- The name of a property window is not cut short. -/
theorem windowName_eq (narrowing : Narrowing) (p : ProcessInfo) : windowName narrowing p =
    formatName (narrowing.toBytes (cStr p.processName)) p.id.toNat p.createTime.toInt := by
  have himage : 0 ∉ narrowing.toBytes (cStr p.processName) := by
    refine narrowing.nonzero _ fun hmem => ?_
    simpa using List.mem_takeWhile_imp hmem
  rw [windowName, List.takeWhile_eq_self_iff]
  intro b hb
  rw [decide_eq_true_eq]
  rintro rfl
  rw [formatName, List.mem_append, List.mem_append, List.mem_append, List.mem_append] at hb
  rcases hb with (((hb | hb) | hb) | hb) | hb
  · exact himage hb
  · exact absurd hb (by decide)
  · exact absurd (decimal_range hb).1 (by decide)
  · exact absurd hb (by decide)
  · rcases signedDecimal_range hb with heq | hrange
    · exact absurd heq (by decide)
    · exact absurd hrange.1 (by decide)

/-- Processes with different keys have property windows of different names. -/
def WindowNamesDistinct (narrowing : Narrowing) : Prop :=
  ∀ p p' : ProcessInfo, p.KeyMade → p'.KeyMade → p.key ≠ p'.key →
    windowName narrowing p ≠ windowName narrowing p'

/-- The name of a property window of a process with a given key. -/
private def NamesKey (name : List UInt8) (key : ProcessOrThreadKey) : Prop :=
  ∃ image, name = formatName image key.id.toNat key.created.toInt

/-- The key can be read back from the name. -/
private theorem NamesKey.unique {name : List UInt8} {key key' : ProcessOrThreadKey}
    (h : NamesKey name key) (h' : NamesKey name key') : key = key' := by
  obtain ⟨image, rfl⟩ := h
  obtain ⟨image', heq⟩ := h'
  obtain ⟨hpid, htime⟩ := formatName_inj heq
  obtain ⟨created, id⟩ := key
  obtain ⟨created', id'⟩ := key'
  exact congrArg₂ ProcessOrThreadKey.mk (Int64.toInt_inj.mp htime) (UInt32.toNat_inj.mp hpid)

/-- A window is named by the key of its process. -/
private theorem namesKey_windowName (narrowing : Narrowing) {p : ProcessInfo} (hp : p.KeyMade) :
    NamesKey (windowName narrowing p) p.key := by
  rw [windowName_eq, show p.key = ⟨p.createTime, p.id⟩ from hp]
  exact ⟨_, rfl⟩

/-- Windows of different processes have **distinct names**, whatever their image names. -/
theorem windowNames_distinct (narrowing : Narrowing) : WindowNamesDistinct narrowing := by
  intro p p' hp hp' hne heq
  refine hne ((namesKey_windowName narrowing hp).unique ?_)
  rw [heq]
  exact namesKey_windowName narrowing hp'

namespace TabManager

variable {host : Host} {narrowing : Narrowing} {t : TabManager}

/-- Both registries hold the same property windows, each under its own key and name. -/
structure RegistriesAgree (t : TabManager) : Prop where
  /-- A window of the view is there under its own key, and in the menu under its name. -/
  by_key : ∀ k r, t.processProperties.lookup k = some r →
    t.keyOf r = k ∧ t.windows.lookup (t.nameOf r) = some r
  /-- A window of the menu is there under its own name, and in the view under its key. -/
  by_name : ∀ name r, t.windows.lookup name = some r →
    t.nameOf r = name ∧ t.processProperties.lookup (t.keyOf r) = some r

/-- **The invariant** of the registry of the view. -/
structure Registered (host : Host) (t : TabManager) : Prop where
  /-- Rows and requests are objects of the manager. -/
  identifies : t.session.Identifies host
  /-- The windows are allocated. -/
  live : ∀ k r, t.processProperties.lookup k = some r → t.objects.Live r
  /-- Their processes are objects of the manager. -/
  identified : ∀ k r, t.processProperties.lookup k = some r →
    t.session.Identified (t.objects.read r).pi
  /-- They are there under their own keys. -/
  own_key : ∀ k r, t.processProperties.lookup k = some r → t.keyOf r = k
  /-- Their names tell their keys. -/
  named : ∀ k r, t.processProperties.lookup k = some r → NamesKey (t.nameOf r) k

/-- Both registries agree on the open windows, and the menu has no others. -/
structure OpenAgree (t : TabManager) : Prop where
  /-- An open window of the view is in the menu. -/
  shown : ∀ k r, t.processProperties.lookup k = some r → t.isOpen r = true →
    t.windows.lookup (t.nameOf r) = some r
  /-- A window of the menu is open, and in the view. -/
  kept : ∀ name r, t.windows.lookup name = some r →
    t.nameOf r = name ∧ t.isOpen r = true ∧ t.processProperties.lookup (t.keyOf r) = some r

/-- **The window menu** prunes what is not open. -/
theorem RegistriesAgree.buildWindowMenu (h : t.RegistriesAgree) (order : IterationOrder) :
    (t.buildWindowMenu order).OpenAgree := by
  have hnames : ∀ name, name ∈ ((order.arrange t.windows.entries).filter
      fun e => !t.isOpen e.2).map Sigma.fst ↔
        ∃ r, t.windows.lookup name = some r ∧ t.isOpen r = false := by
    intro name
    simp only [List.mem_map, List.mem_filter, (order.perm _).mem_iff, Bool.not_eq_true']
    constructor
    · rintro ⟨⟨_, r⟩, ⟨hmem, hclosed⟩, rfl⟩
      exact ⟨r, AList.mem_lookup_iff.mpr hmem, hclosed⟩
    · rintro ⟨r, hr, hclosed⟩
      exact ⟨⟨name, r⟩, ⟨AList.mem_lookup_iff.mp hr, hclosed⟩, rfl⟩
  have hwindows : ∀ name r, (t.buildWindowMenu order).windows.lookup name = some r ↔
      t.windows.lookup name = some r ∧ t.isOpen r = true :=
    UnorderedMap.lookup_eraseAll_failing hnames
  constructor
  · exact fun k r hr hopen => (hwindows _ r).mpr ⟨(h.by_key k r hr).2, hopen⟩
  · intro name r hr
    obtain ⟨hr, hopen⟩ := (hwindows name r).mp hr
    exact ⟨(h.by_name name r hr).1, hopen, (h.by_name name r hr).2⟩

/-- Pruning the menu leaves the registry of the view alone. -/
theorem Registered.buildWindowMenu (h : t.Registered host) (order : IterationOrder) :
    (t.buildWindowMenu order).Registered host :=
  ⟨h.identifies, h.live, h.identified, h.own_key, h.named⟩

section Session

variable {session : Session} (hretains : t.session.Retains session)
include hretains

/-- Over a frame of the view the processes of the windows keep their keys. -/
theorem Registered.keyOf_eq (h : t.Registered host) {k : ProcessOrThreadKey}
    {r : Ref ProcessProperties} (hr : t.processProperties.lookup k = some r) :
    ({ t with session := session } : TabManager).keyOf r = t.keyOf r :=
  (hretains _ (h.identified k r hr)).2

/-- A frame of the view keeps the registry of the view. -/
theorem Registered.advance (h : t.Registered host) (hidentifies : session.Identifies host) :
    ({ t with session := session } : TabManager).Registered host where
  identifies := hidentifies
  live := h.live
  identified k r hr := (hretains _ (h.identified k r hr)).1
  own_key k r hr := (h.keyOf_eq hretains hr).trans (h.own_key k r hr)
  named := h.named

/-- It keeps the agreement on open windows. -/
theorem OpenAgree.advance (ha : t.OpenAgree) (h : t.Registered host) :
    ({ t with session := session } : TabManager).OpenAgree where
  shown := ha.shown
  kept name r hr := by
    obtain ⟨hname, hopen, hlookup⟩ := ha.kept name r hr
    refine ⟨hname, hopen, ?_⟩
    rw [h.keyOf_eq hretains hlookup]
    exact hlookup

end Session

section Request

variable {pi : Ref ProcessInfo}

/-- The property window that a request for the properties of `pi` adds. -/
structure Adds (narrowing : Narrowing) (t : TabManager) (pi : Ref ProcessInfo)
    (r : Ref ProcessProperties) (t' : TabManager) : Prop where
  /-- The view is the same. -/
  session_eq : t'.session = t.session
  /-- The window is new. -/
  fresh : ¬ t.objects.Live r
  /-- It is allocated, and the others still are. -/
  live_iff : ∀ r', t'.objects.Live r' ↔ t.objects.Live r' ∨ r' = r
  /-- Its content. -/
  read_new : t'.objects.read r = .make (windowName narrowing (t.session.view.pm.process pi)) pi
  /-- The content of the others is the same. -/
  read_old : ∀ r', t.objects.Live r' → t'.objects.read r' = t.objects.read r'
  /-- It is added to the view under the key of its process. -/
  processProperties_eq : t'.processProperties =
    t.processProperties.insertNew (t.session.view.key pi) r
  /-- It is added to the menu under its name. -/
  windows_eq : t'.windows =
    t.windows.insertNew (windowName narrowing (t.session.view.pm.process pi)) r

/-- **A request** finds a window, or adds one. -/
theorem getOrAddProcessProperties_cases (narrowing : Narrowing) (t : TabManager)
    (pi : Ref ProcessInfo) :
    (∃ r, t.processProperties.lookup (t.session.view.key pi) = some r) ∧
        t.getOrAddProcessProperties narrowing pi = t ∨
      t.processProperties.lookup (t.session.view.key pi) = none ∧
        ∃ r, t.Adds narrowing pi r (t.getOrAddProcessProperties narrowing pi) := by
  unfold getOrAddProcessProperties
  cases hlookup : t.processProperties.lookup (t.session.view.key pi) with
  | some r => exact Or.inl ⟨⟨r, rfl⟩, rfl⟩
  | none =>
    refine Or.inr ⟨rfl, t.objects.fresh, ⟨rfl, t.objects.not_live_fresh, fun r' => ?_, ?_, ?_, rfl,
      ?_⟩⟩
    · exact Heap.live_allocate
    · exact Heap.read_allocate_fresh _ _
    · exact fun r' hr' => Heap.read_allocate_of_ne _ hr'.ne_fresh _
    · dsimp only [addWindow, nameOf]
      rw [Heap.read_allocate_fresh]
      rfl

variable (h : t.Registered host) (ha : t.OpenAgree) (hpi : t.session.Identified pi)
  (hnone : t.processProperties.lookup (t.session.view.key pi) = none)
  {t' : TabManager} {r : Ref ProcessProperties} (hadds : t.Adds narrowing pi r t')

include hadds in
/-- What is told of a window that was there is the same. -/
theorem Adds.old {r' : Ref ProcessProperties} (hr' : t.objects.Live r') :
    t'.keyOf r' = t.keyOf r' ∧ t'.nameOf r' = t.nameOf r' ∧ t'.isOpen r' = t.isOpen r' := by
  unfold keyOf nameOf isOpen
  rw [hadds.session_eq, hadds.read_old r' hr']
  exact ⟨rfl, rfl, rfl⟩

include hadds in
/-- What is told of the new window. -/
theorem Adds.new : t'.keyOf r = t.session.view.key pi ∧
    t'.nameOf r = windowName narrowing (t.session.view.pm.process pi) ∧ t'.isOpen r = true := by
  unfold keyOf nameOf isOpen
  rw [hadds.session_eq, hadds.read_new]
  exact ⟨rfl, rfl, rfl⟩

include hadds hnone in
/-- The windows of the view are the old ones and the new one. -/
theorem Adds.lookup_cases {k : ProcessOrThreadKey} {r' : Ref ProcessProperties} :
    t'.processProperties.lookup k = some r' ↔
      t.processProperties.lookup k = some r' ∨ k = t.session.view.key pi ∧ r' = r := by
  rw [hadds.processProperties_eq, UnorderedMap.lookup_insertNew, hnone]
  by_cases hk : k = t.session.view.key pi
  · subst hk
    simp [hnone, eq_comm]
  · simp [hk]

include h hpi hnone hadds in
/-- **A new window** is registered in the view. -/
theorem Adds.registered : t'.Registered host := by
  have hname := namesKey_windowName narrowing hpi.2
  obtain ⟨hkeyNew, hnameNew, _⟩ := hadds.new
  refine ⟨hadds.session_eq ▸ h.identifies, fun k r' hr' => ?_, fun k r' hr' => ?_,
    fun k r' hr' => ?_, fun k r' hr' => ?_⟩
  all_goals rcases (hadds.lookup_cases hnone).mp hr' with hold | ⟨rfl, rfl⟩
  · exact (hadds.live_iff r').mpr (Or.inl (h.live k r' hold))
  · exact (hadds.live_iff r').mpr (Or.inr rfl)
  · rw [hadds.session_eq, hadds.read_old r' (h.live k r' hold)]
    exact h.identified k r' hold
  · rw [hadds.session_eq, hadds.read_new]
    exact hpi
  · exact (hadds.old (h.live k r' hold)).1.trans (h.own_key k r' hold)
  · exact hkeyNew
  · rw [(hadds.old (h.live k r' hold)).2.1]
    exact h.named k r' hold
  · rw [hnameNew]
    exact hname

include h ha hpi hnone in
/-- The name of a new window is not taken: its key could be read back from it. -/
theorem OpenAgree.name_free :
    t.windows.lookup (windowName narrowing (t.session.view.pm.process pi)) = none := by
  cases hlookup : t.windows.lookup (windowName narrowing (t.session.view.pm.process pi)) with
  | none => rfl
  | some r' =>
    obtain ⟨hname, _, hr'⟩ := ha.kept _ r' hlookup
    have hkey := h.named _ r' hr'
    rw [hname] at hkey
    have hsame := hkey.unique (namesKey_windowName narrowing hpi.2)
    rw [hsame] at hr'
    exact absurd (hr'.symm.trans hnone) (Option.some_ne_none r')

include h ha hpi hnone hadds in
/-- **A new window** is in the menu as well. -/
theorem Adds.openAgree : t'.OpenAgree := by
  have hfree : t.windows.lookup (windowName narrowing (t.session.view.pm.process pi)) = none :=
    ha.name_free h hpi hnone
  obtain ⟨hkeyNew, hnameNew, hopenNew⟩ := hadds.new
  have hwindows : ∀ name r', t'.windows.lookup name = some r' ↔ t.windows.lookup name = some r' ∨
      name = windowName narrowing (t.session.view.pm.process pi) ∧ r' = r := by
    intro name r'
    rw [hadds.windows_eq, UnorderedMap.lookup_insertNew, hfree]
    by_cases hname : name = windowName narrowing (t.session.view.pm.process pi)
    · subst hname
      simp [hfree, eq_comm]
    · simp [hname]
  constructor
  · intro k r' hr' hopen
    rcases (hadds.lookup_cases hnone).mp hr' with hold | ⟨rfl, rfl⟩
    · obtain ⟨_, hname, hsame⟩ := hadds.old (h.live k r' hold)
      rw [hname, hwindows]
      exact Or.inl (ha.shown k r' hold (hsame ▸ hopen))
    · exact (hwindows _ r').mpr (Or.inr ⟨hnameNew, rfl⟩)
  · intro name r' hr'
    rcases (hwindows name r').mp hr' with hold | ⟨rfl, rfl⟩
    · obtain ⟨hname, hopen, hlookup⟩ := ha.kept name r' hold
      obtain ⟨hkey, hname', hsame⟩ := hadds.old (h.live _ r' hlookup)
      rw [hkey, hname', hsame]
      exact ⟨hname, hopen, (hadds.lookup_cases hnone).mpr (Or.inl hlookup)⟩
    · rw [hkeyNew]
      exact ⟨hnameNew, hopenNew, (hadds.lookup_cases hnone).mpr (Or.inr ⟨rfl, rfl⟩)⟩

end Request

/-- **All requests** of a frame together keep the registries in agreement. -/
theorem foldl_getOrAdd (requests : List (Ref ProcessInfo)) (h : t.Registered host)
    (ha : t.OpenAgree) (hrequests : ∀ pi ∈ requests, t.session.Identified pi) :
    (requests.foldl (fun t pi => t.getOrAddProcessProperties narrowing pi) t).Registered host ∧
      (requests.foldl (fun t pi => t.getOrAddProcessProperties narrowing pi) t).OpenAgree := by
  induction requests generalizing t with
  | nil => exact ⟨h, ha⟩
  | cons pi requests ih =>
    have hpi := hrequests pi (by simp)
    have hrest : ∀ pi ∈ requests, t.session.Identified pi :=
      fun pi hpi => hrequests pi (by simp [hpi])
    rcases getOrAddProcessProperties_cases narrowing t pi with ⟨_, hsame⟩ | ⟨hnone, r, hadds⟩
    · rw [List.foldl_cons, hsame]
      exact ih h ha hrest
    · exact ih (hadds.registered h hpi hnone) (hadds.openAgree h ha hpi hnone)
        (hadds.session_eq ▸ hrest)

/-- `BuildTable` with the requests made in it. -/
theorem buildTable_agree (narrowing : Narrowing) (h : t.Registered host) (ha : t.OpenAgree)
    (f : Frame) :
    (t.buildTable host narrowing f).Registered host ∧
      (t.buildTable host narrowing f).OpenAgree := by
  obtain ⟨hidentifies, hretains⟩ := h.identifies.buildWindow f
  refine foldl_getOrAdd _ (h.advance hretains hidentifies) (ha.advance hretains h) fun pi hpi => ?_
  exact hidentifies.requests pi (List.mem_of_mem_drop hpi)

/-- What the loop over some property windows does. -/
structure Looped (t : TabManager) (l : Closing) (rs : List (Ref ProcessProperties))
    (l' : Closing) : Prop where
  /-- All windows keep their names and processes. -/
  same : ∀ r, (l'.objects.read r).name = (l.objects.read r).name ∧
    (l'.objects.read r).pi = (l.objects.read r).pi
  /-- They stay allocated. -/
  live_iff : ∀ r, l'.objects.Live r ↔ l.objects.Live r
  /-- The others are as open as before. -/
  unvisited : ∀ r ∉ rs, (l'.objects.read r).windowOpen = (l.objects.read r).windowOpen
  /-- The keys of the windows that were not open are noted. -/
  keys_eq : l'.keys = l.keys ++ (rs.filter fun r => !(l.objects.read r).windowOpen).map fun r =>
    t.session.view.key (l.objects.read r).pi

/-- A visit to one window draws it, and closes it if the user does. -/
theorem looped_visitWindow (t : TabManager) (closed : Ref ProcessProperties → Bool) (l : Closing)
    (r : Ref ProcessProperties) : t.Looped l [r] (t.visitWindow closed l r) := by
  unfold visitWindow
  dsimp only
  cases hopen : (l.objects.read r).windowOpen with
  | true =>
    rw [if_pos rfl]
    refine ⟨fun r' => ?_, fun r' => Iff.rfl, fun r' hr' => ?_, by simp [hopen]⟩
    · by_cases heq : r' = r
      · rw [heq, Heap.read_write_self]
        exact ⟨rfl, rfl⟩
      · rw [Heap.read_write_of_ne _ heq]
        exact ⟨rfl, rfl⟩
    · rw [Heap.read_write_of_ne _ (List.ne_of_not_mem_cons hr')]
  | false =>
    rw [if_neg Bool.false_ne_true]
    exact ⟨fun _ => ⟨rfl, rfl⟩, fun _ => Iff.rfl, fun _ _ => rfl, by simp [hopen]⟩

/-- **The loop.** Each window is visited once, so it is found as it was. -/
theorem looped_foldl (t : TabManager) (closed : Ref ProcessProperties → Bool)
    (rs : List (Ref ProcessProperties)) (hrs : rs.Nodup) (l : Closing) :
    t.Looped l rs (rs.foldl (t.visitWindow closed) l) := by
  induction rs generalizing l with
  | nil => exact ⟨fun _ => ⟨rfl, rfl⟩, fun _ => Iff.rfl, fun _ _ => rfl, by simp⟩
  | cons r rs ih =>
    obtain ⟨hr, hrs⟩ := List.nodup_cons.mp hrs
    have hfirst := looped_visitWindow t closed l r
    have hrest := ih hrs (t.visitWindow closed l r)
    have hne : ∀ r' ∈ rs, r' ∉ [r] := by
      intro r' hr' heq
      exact hr (List.mem_singleton.mp heq ▸ hr')
    refine ⟨fun r' => ?_, fun r' => (hrest.live_iff r').trans (hfirst.live_iff r'),
      fun r' hr' => ?_, ?_⟩
    · exact ⟨(hrest.same r').1.trans (hfirst.same r').1, (hrest.same r').2.trans (hfirst.same r').2⟩
    · rw [List.mem_cons, not_or] at hr'
      exact (hrest.unvisited r' hr'.2).trans (hfirst.unvisited r' (by simp [hr'.1]))
    · have hfilter :
          (rs.filter fun r' => !((t.visitWindow closed l r).objects.read r').windowOpen) =
            rs.filter fun r' => !(l.objects.read r').windowOpen :=
        List.filter_congr fun r' hr' => by rw [hfirst.unvisited r' (hne r' hr')]
      rw [List.foldl_cons, hrest.keys_eq, hfirst.keys_eq, hfilter]
      simp only [(hfirst.same _).2]
      rw [List.append_assoc, ← List.map_append, ← List.filter_append, List.singleton_append]

section Loop

variable (h : t.Registered host) (order : IterationOrder) (closed : Ref ProcessProperties → Bool)
include h

/-- The loop of `BuildWindow`, which visits each property window once. -/
private theorem looped_properties : t.Looped ⟨t.objects, []⟩ (t.processProperties.values order)
    ((t.processProperties.values order).foldl (t.visitWindow closed) ⟨t.objects, []⟩) := by
  refine looped_foldl t closed _ (UnorderedMap.values_nodup fun k k' r hr hr' => ?_) _
  rw [← h.own_key k r hr, h.own_key k' r hr']

/-- Windows that were closed before leave the view. -/
theorem lookup_buildProperties (k : ProcessOrThreadKey) (r : Ref ProcessProperties) :
    (t.buildProperties order closed).processProperties.lookup k = some r ↔
      t.processProperties.lookup k = some r ∧ t.isOpen r = true := by
  have hloop := looped_properties h order closed
  refine UnorderedMap.lookup_eraseAll_failing (fun k => ?_) k r
  rw [hloop.keys_eq, List.nil_append]
  simp only [List.mem_map, List.mem_filter, UnorderedMap.mem_values, Bool.not_eq_true']
  constructor
  · rintro ⟨r, ⟨⟨k', hr⟩, hclosed⟩, rfl⟩
    refine ⟨r, ?_, hclosed⟩
    rw [show t.session.view.key (t.objects.read r).pi = k' from h.own_key k' r hr, hr]
  · rintro ⟨r, hr, hclosed⟩
    exact ⟨r, ⟨⟨k, hr⟩, hclosed⟩, h.own_key k r hr⟩

/-- **The property windows.** Windows that were closed before leave the view, so both
registries hold the windows that were open. -/
theorem buildProperties_agree (ha : t.OpenAgree) :
    (t.buildProperties order closed).Registered host ∧
      (t.buildProperties order closed).RegistriesAgree := by
  have hloop := looped_properties h order closed
  have hlookup := lookup_buildProperties h order closed
  have hpi : ∀ r, ((t.buildProperties order closed).objects.read r).pi = (t.objects.read r).pi :=
    fun r => (hloop.same r).2
  have hname : ∀ r, (t.buildProperties order closed).nameOf r = t.nameOf r :=
    fun r => (hloop.same r).1
  have hkey : ∀ r, (t.buildProperties order closed).keyOf r = t.keyOf r :=
    fun r => congrArg t.session.view.key (hpi r)
  refine ⟨⟨h.identifies, fun k r hr => ?_, fun k r hr => ?_, fun k r hr => ?_, fun k r hr => ?_⟩,
    fun k r hr => ?_, fun name r hr => ?_⟩
  · exact (hloop.live_iff r).mpr (h.live k r ((hlookup k r).mp hr).1)
  · rw [hpi]
    exact h.identified k r ((hlookup k r).mp hr).1
  · rw [hkey]
    exact h.own_key k r ((hlookup k r).mp hr).1
  · rw [hname]
    exact h.named k r ((hlookup k r).mp hr).1
  · obtain ⟨hr, hopen⟩ := (hlookup k r).mp hr
    rw [hkey, hname]
    exact ⟨h.own_key k r hr, ha.shown k r hr hopen⟩
  · obtain ⟨hnamed, hopen, hr⟩ := ha.kept name r hr
    rw [hkey, hname]
    exact ⟨hnamed, (hlookup _ r).mpr ⟨hr, hopen⟩⟩

end Loop

/-- **One frame** keeps the agreement. -/
theorem frame_agree (h : t.Registered host) (ha : t.RegistriesAgree) (f : TabFrame) :
    (t.frame host narrowing f).Registered host ∧ (t.frame host narrowing f).RegistriesAgree := by
  obtain ⟨hrows, hopen⟩ := buildTable_agree narrowing (h.buildWindowMenu f.menuOrder)
    (ha.buildWindowMenu f.menuOrder) f.toFrame
  exact buildProperties_agree hrows f.loopOrder f.closed hopen

/-- A run of one more frame is the run before it and then the frame. -/
theorem run_concat (host : Host) (narrowing : Narrowing) (readings : ℕ → UInt64)
    (frames : List TabFrame) (f : TabFrame) : run host narrowing readings (frames ++ [f]) =
      (run host narrowing readings frames).frame host narrowing f := by
  simp [run]

/-- Every run keeps the registry of the view and the agreement. -/
theorem run_agree (host : Host) (narrowing : Narrowing) (readings : ℕ → UInt64)
    (frames : List TabFrame) : (run host narrowing readings frames).Registered host ∧
      (run host narrowing readings frames).RegistriesAgree := by
  induction frames using List.reverseRecOn with
  | nil =>
    refine ⟨⟨.initial host readings, ?_, ?_, ?_, ?_⟩, ?_, ?_⟩
    all_goals simp [run, initial]
  | append_singleton frames f ih =>
    rw [run_concat]
    exact frame_agree ih.1 ih.2 f

/-- **The registries agree** at the end of every frame of every run, and the names of
property windows differ where the keys of the processes do. -/
theorem run_registriesAgree (host : Host) (narrowing : Narrowing) (readings : ℕ → UInt64)
    (frames : List TabFrame) :
    (run host narrowing readings frames).RegistriesAgree ∧ WindowNamesDistinct narrowing :=
  ⟨(run_agree host narrowing readings frames).2, windowNames_distinct narrowing⟩

end TabManager

end ProcExpX
