import ProcExpX.App.RowsInStep

/-!
# The purge loop

One round of the purge loop either takes a row out together with its record,
because `Update` returned true for it, or writes its record back and moves on. The
loop therefore visits every row once, keeps the view in step, and leaves a record
beside each row that remains.
-/

namespace ProcExpX.Session

open Library WinSys

variable {host : Host}

namespace Purge

/-- What a round at the row `pi` does in any case. -/
structure Round (l l' : Purge) (pi : Ref ProcessInfo) (returned : Bool) : Prop where
  /-- The manager is the same. -/
  pm_eq : l'.session.view.pm = l.session.view.pm
  /-- There is no enumeration. -/
  calls_eq : l'.session.history.calls = l.session.history.calls
  /-- `Update` is called for the row. -/
  updates_eq : l'.session.history.updates = l.session.history.updates ++ [(pi, returned)]

/-- Every process has the same key after a round as before it. -/
theorem Round.key_eq {l l' : Purge} {pi : Ref ProcessInfo} {returned : Bool}
    (h : l.Round l' pi returned) : l'.session.view.key = l.session.view.key :=
  ProcessesView.key_congr h.pm_eq

/-- A round that takes out the row `pi`. -/
structure Erases (host : Host) (l l' : Purge) (pi : Ref ProcessInfo) : Prop
    extends l.Round l' pi true where
  /-- The row was marked terminated. -/
  marked : (l.session.view.infoEx host pi).isTerminated = true
  /-- The row is gone. -/
  processes_eq : l'.session.view.processes = l.session.view.processes.eraseIdx l.i
  /-- Its record is gone. -/
  lookup_eq : ∀ k, l'.session.view.processesEx.lookup k =
    if k = l.session.view.key pi then none else l.session.view.processesEx.lookup k
  /-- The next row has moved to the same position. -/
  i_eq : l'.i = l.i

/-- A round that keeps the row `pi`. -/
structure Keeps (host : Host) (l l' : Purge) (pi : Ref ProcessInfo) : Prop
    extends l.Round l' pi false where
  /-- The rows are the same. -/
  processes_eq : l'.session.view.processes = l.session.view.processes
  /-- Its record has been made if necessary, and its terminated mark is the same. -/
  lookup_eq : ∃ px, px.pi = (l.session.view.infoEx host pi).pi ∧
    px.isTerminated = (l.session.view.infoEx host pi).isTerminated ∧
    ∀ k, l'.session.view.processesEx.lookup k =
      if k = l.session.view.key pi then some px else l.session.view.processesEx.lookup k
  /-- The next row is at the next position. -/
  i_eq : l'.i = l.i + 1

/-- The record of a row as `Update` finds it in the purge loop. -/
def shownRecord (host : Host) (s : Session) (pi : Ref ProcessInfo) : ProcessInfoEx :=
  { s.view.infoEx host pi with filtered := false }

/-- The records after the start of a round. -/
theorem lookup_updateRow (host : Host) (s : Session) (pi : Ref ProcessInfo)
    (k : ProcessOrThreadKey) : (s.updateRow host pi).1.view.processesEx.lookup k =
      if k = s.view.key pi then some ((shownRecord host s pi).update s.clock).2.1
      else s.view.processesEx.lookup k := by
  have hfst : (s.view.getProcessInfoEx host pi).1 = s.view.infoEx host pi := by
    rw [ProcessesView.getProcessInfoEx_eq]
  rw [shownRecord, ← hfst]
  exact s.view.lookup_set_getProcessInfoEx host pi _ k

/-- The rest of the state after the start of a round. -/
theorem updateRow_view (host : Host) (s : Session) (pi : Ref ProcessInfo) :
    (s.updateRow host pi).1.view.pm = s.view.pm ∧
      (s.updateRow host pi).1.view.processes = s.view.processes ∧
      (s.updateRow host pi).2 = ((shownRecord host s pi).update s.clock).1 := by
  simp only [updateRow, ProcessesView.getProcessInfoEx_eq]
  exact ⟨rfl, rfl, rfl⟩

/-- A round at the row `pi` takes it out if `Update` says so, else matches it against the filter.
-/
theorem purgeRow_eq (host : Host) (filter : WString) (l : Purge) {pi : Ref ProcessInfo}
    (hpi : l.session.view.processes[l.i]? = some pi) : purgeRow host filter l =
      if (l.session.updateRow host pi).2 then
        { l with session := (l.session.updateRow host pi).1.onView fun v => v.eraseRow l.i pi }
      else if (l.session.updateRow host pi).1.view.hides host filter pi then
        { l with
          session := (l.session.updateRow host pi).1.onView fun v => v.hideRow host pi
          i := l.i + 1 }
      else
        { session := (l.session.updateRow host pi).1, i := l.i + 1
          indices := l.indices ++ [l.i] } := by
  rw [purgeRow, hpi]

/-- **One round** takes the row out or keeps it, and does nothing else to the rows. -/
theorem purgeRow_cases (host : Host) (filter : WString) (l : Purge) {pi : Ref ProcessInfo}
    (hpi : l.session.view.processes[l.i]? = some pi) :
    l.Erases host (purgeRow host filter l) pi ∨ l.Keeps host (purgeRow host filter l) pi := by
  obtain ⟨hpm, hrows, hreturned⟩ := updateRow_view host l.session pi
  have hlookup := lookup_updateRow host l.session pi
  have hkey := ProcessesView.key_congr hpm
  have hupdates : (l.session.updateRow host pi).1.history.updates =
      l.session.history.updates ++ [(pi, (l.session.updateRow host pi).2)] := rfl
  rw [purgeRow_eq host filter l hpi]
  cases hgone : (l.session.updateRow host pi).2 with
  | true =>
    rw [hgone] at hreturned
    left
    rw [if_pos rfl]
    refine ⟨⟨hpm, rfl, hgone ▸ hupdates⟩, ?_, ?_, ?_, rfl⟩
    · exact ProcessInfoEx.isTerminated_of_update (shownRecord host l.session pi) _ hreturned.symm
    · exact congrArg (List.eraseIdx · l.i) hrows
    · intro k
      have herase : ((l.session.updateRow host pi).1.view.eraseRow l.i pi).processesEx.lookup k =
          if k = (l.session.updateRow host pi).1.view.key pi then none
          else (l.session.updateRow host pi).1.view.processesEx.lookup k :=
        UnorderedMap.lookup_erase_eq _ _ _
      rw [hkey, hlookup] at herase
      refine herase.trans ?_
      by_cases hk : k = l.session.view.key pi <;> simp [hk]
  | false =>
    rw [hgone] at hreturned
    right
    rw [if_neg Bool.false_ne_true]
    have hmark := ProcessInfoEx.update_isTerminated _ _ hreturned.symm
    have hown := (shownRecord host l.session pi).update_pi l.session.clock
    split
    · refine ⟨⟨hpm, rfl, hgone ▸ hupdates⟩, hrows,
        ⟨{ ((shownRecord host l.session pi).update l.session.clock).2.1 with filtered := true },
          hown, hmark, ?_⟩, rfl⟩
      intro k
      have hinfo : (l.session.updateRow host pi).1.view.infoEx host pi =
          ((shownRecord host l.session pi).update l.session.clock).2.1 := by
        rw [ProcessesView.infoEx, hlookup, hkey, if_pos rfl, Option.getD_some]
      refine ((l.session.updateRow host pi).1.view.lookup_setProcessInfoEx pi
        { (l.session.updateRow host pi).1.view.infoEx host pi with filtered := true } k).trans ?_
      rw [hkey, hlookup, hinfo]
      by_cases hk : k = l.session.view.key pi <;> simp [hk]
    · exact ⟨⟨hpm, rfl, hgone ▸ hupdates⟩, hrows, ⟨_, hown, hmark, hlookup⟩, rfl⟩

/-- When a row is taken out, the rows of the other processes remain. -/
theorem Erases.mem_of_ne {l l' : Purge} {pi pi' : Ref ProcessInfo} (he : l.Erases host l' pi)
    (hpi : l.session.view.processes[l.i]? = some pi) (hmem : pi' ∈ l.session.view.processes)
    (hne : pi' ≠ pi) : pi' ∈ l'.session.view.processes := by
  obtain ⟨j, hj⟩ := List.getElem?_of_mem hmem
  rw [he.processes_eq, List.mem_eraseIdx_iff_getElem?]
  refine ⟨j, ?_, hj⟩
  rintro rfl
  exact hne (Option.some.inj (hj.symm.trans hpi))

/-- If no row is there twice, they are all that remain. -/
theorem Erases.mem_rows {l l' : Purge} {pi pi' : Ref ProcessInfo} (he : l.Erases host l' pi)
    (hpi : l.session.view.processes[l.i]? = some pi) (hnodup : l.session.view.processes.Nodup) :
    pi' ∈ l'.session.view.processes ↔ pi' ∈ l.session.view.processes ∧ pi' ≠ pi := by
  refine ⟨fun hmem => ?_, fun h => he.mem_of_ne hpi h.1 h.2⟩
  rw [he.processes_eq, List.mem_eraseIdx_iff_getElem?] at hmem
  obtain ⟨j, hne, hj⟩ := hmem
  refine ⟨List.mem_of_getElem? hj, ?_⟩
  rintro rfl
  obtain ⟨hlt, _⟩ := List.getElem?_eq_some_iff.mp hj
  exact hne ((List.getElem?_inj hlt hnodup).mp (hj.trans hpi.symm))

section Erases

variable {l l' : Purge} {pi : Ref ProcessInfo} (h : l.session.InStep host)
  (hpi : l.session.view.processes[l.i]? = some pi) (he : l.Erases host l' pi)
include h hpi he

omit hpi in
/-- A row that is taken out was not one of the manager's. -/
theorem Erases.not_listed : pi ∉ l.session.view.pm.processes := by
  intro hlisted
  have hmark := he.marked
  unfold ProcessesView.infoEx at hmark
  cases hlookup : l.session.view.processesEx.lookup (l.session.view.key pi) with
  | none =>
    rw [hlookup] at hmark
    cases hmark
  | some px =>
    rw [hlookup, Option.getD_some, h.alive pi hlisted px hlookup] at hmark
    cases hmark

/-- The rows that remain are the others. -/
theorem Erases.mem_iff (pi' : Ref ProcessInfo) :
    pi' ∈ l'.session.view.processes ↔ pi' ∈ l.session.view.processes ∧ pi' ≠ pi :=
  he.mem_rows hpi h.follows.nodup

/-- When a row is taken out, the rows that remain keep their records. -/
theorem Erases.lookup_row {pi' : Ref ProcessInfo} (hpi' : pi' ∈ l'.session.view.processes) :
    l'.session.view.processesEx.lookup (l.session.view.key pi') =
      l.session.view.processesEx.lookup (l.session.view.key pi') := by
  obtain ⟨hmem, hne⟩ := (he.mem_iff h hpi pi').mp hpi'
  rw [he.lookup_eq, if_neg fun hkey => hne (h.key_inj hmem (List.mem_of_getElem? hpi) hkey)]

/-- **Taking a row out** keeps the view in step. -/
theorem Erases.inStep : l'.session.InStep host := by
  have hmem := he.mem_iff h hpi
  have hsub : l'.session.view.processes.Sublist l.session.view.processes :=
    he.processes_eq ▸ List.eraseIdx_sublist _ _
  have hkept : ∀ pi' ∈ l.session.view.pm.processes, pi' ∈ l'.session.view.processes := by
    intro pi' hlisted
    refine (hmem pi').mpr ⟨h.listed hlisted, ?_⟩
    rintro rfl
    exact he.not_listed h hlisted
  refine h.sameCalls he.pm_eq he.calls_eq (fun pi' hrow => hsub.mem hrow)
    (h.follows.drop hsub fun pi' hlisted _ => hkept pi' hlisted)
    (h.beside.remove (fun pi' hrow hne => (hmem pi').mpr ⟨hrow, hne⟩) he.lookup_eq) ?_ ?_ ?_
  · intro pi' hlisted px hlookup
    rw [he.lookup_row h hpi (hkept pi' hlisted)] at hlookup
    exact h.alive pi' hlisted px hlookup
  · intro pi' hrow hgone
    rw [he.lookup_row h hpi hrow]
    exact h.gone pi' (hsub.mem hrow) hgone
  · intro u hu
    rw [he.updates_eq] at hu
    rcases List.mem_append.mp hu with hu | hu
    · exact Or.inl hu
    · rw [List.mem_singleton.mp hu]
      exact Or.inr ⟨List.mem_of_getElem? hpi, fun _ hrow => ((hmem pi).mp hrow).2 rfl⟩

end Erases

section Keeps

variable {l l' : Purge} {pi : Ref ProcessInfo} (h : l.session.InStep host)
  (hpi : l.session.view.processes[l.i]? = some pi) (hk : l.Keeps host l' pi)
include h hpi hk

/-- **Keeping a row** keeps the view in step. -/
theorem Keeps.inStep : l'.session.InStep host := by
  have hrows := hk.processes_eq
  have hrow : pi ∈ l.session.view.processes := List.mem_of_getElem? hpi
  obtain ⟨px, hown, hmark, hlookup⟩ := hk.lookup_eq
  rw [infoEx_pi host h.beside h.keys_nodup hrow] at hown
  refine h.sameCalls hk.pm_eq hk.calls_eq (fun pi' hrow' => hrows ▸ hrow') (hrows ▸ h.follows)
    (hrows ▸ h.beside.write hrow hown hlookup) ?_ ?_ ?_
  · intro pi' hlisted px' hlookup'
    rw [hlookup] at hlookup'
    by_cases heq : l.session.view.key pi' = l.session.view.key pi
    · obtain rfl := h.key_inj (h.listed hlisted) hrow heq
      rw [if_pos rfl, Option.some.injEq] at hlookup'
      rw [← hlookup', hmark, ProcessesView.infoEx]
      cases hold : l.session.view.processesEx.lookup (l.session.view.key pi') with
      | none => rfl
      | some px'' => exact h.alive pi' hlisted px'' hold
    · rw [if_neg heq] at hlookup'
      exact h.alive pi' hlisted px' hlookup'
  · intro pi' hrow' hgone
    obtain ⟨px', hold, hmark'⟩ := h.gone pi' (hrows ▸ hrow') hgone
    rw [hlookup]
    by_cases heq : l.session.view.key pi' = l.session.view.key pi
    · rw [if_pos heq]
      refine ⟨px, rfl, ?_⟩
      rw [hmark, ProcessesView.infoEx, ← heq, hold, Option.getD_some, hmark']
    · rw [if_neg heq]
      exact ⟨px', hold, hmark'⟩
  · intro u hu
    rw [hk.updates_eq] at hu
    rcases List.mem_append.mp hu with hu | hu
    · exact Or.inl hu
    · rw [List.mem_singleton.mp hu]
      exact Or.inr ⟨hrow, fun hreturned => absurd hreturned Bool.false_ne_true⟩

end Keeps

/-- The invariant of the loop: with `left` rows to go, the view is in step and the
rows before position `i` have records. -/
structure Good (host : Host) (l : Purge) (left : ℕ) : Prop where
  /-- The view is in step. -/
  inStep : l.session.InStep host
  /-- The rows left are those from position `i` on. -/
  count : l.session.view.processes.length = l.i + left
  /-- The rows before have records. -/
  visited : ∀ j < l.i, ∀ pi, l.session.view.processes[j]? = some pi →
    ∃ px, l.session.view.processesEx.lookup (l.session.view.key pi) = some px

/-- What becomes of the rows: each stays, or `Update` returned true for it. -/
structure Leads (l l' : Purge) : Prop where
  /-- Calls of `Update` are not forgotten. -/
  updates_sub : ∀ u ∈ l.session.history.updates, u ∈ l'.session.history.updates
  /-- No row is added, and the others keep their order. -/
  sublist : l'.session.view.processes.Sublist l.session.view.processes
  /-- A row is only removed after `Update` returned true for it. -/
  removed : ∀ pi ∈ l.session.view.processes,
    pi ∈ l'.session.view.processes ∨ (pi, true) ∈ l'.session.history.updates

/-- A purge leads to itself. -/
theorem Leads.refl (l : Purge) : l.Leads l :=
  ⟨fun _ hu => hu, List.Sublist.refl _, fun _ hpi => Or.inl hpi⟩

/-- A purge that leads to a second one leads to where that one leads. -/
theorem Leads.trans {l l' l'' : Purge} (h : l.Leads l') (h' : l'.Leads l'') : l.Leads l'' := by
  refine ⟨fun u hu => h'.updates_sub u (h.updates_sub u hu), h'.sublist.trans h.sublist,
    fun pi hpi => ?_⟩
  rcases h.removed pi hpi with hstay | hreturned
  · exact h'.removed pi hstay
  · exact Or.inr (h'.updates_sub _ hreturned)

/-- Taking a row out leads on. -/
theorem Erases.leads {l l' : Purge} {pi : Ref ProcessInfo} (h : l.session.InStep host)
    (hpi : l.session.view.processes[l.i]? = some pi) (he : l.Erases host l' pi) : l.Leads l' := by
  refine ⟨?_, he.processes_eq ▸ List.eraseIdx_sublist _ _, fun pi' hpi' => ?_⟩
  · exact fun u hu => he.updates_eq ▸ List.mem_append_left _ hu
  · by_cases heq : pi' = pi
    · exact Or.inr (by rw [he.updates_eq, heq]; simp)
    · exact Or.inl ((he.mem_iff h hpi pi').mpr ⟨hpi', heq⟩)

/-- Keeping a row leads on. -/
theorem Keeps.leads {l l' : Purge} {pi : Ref ProcessInfo} (hk : l.Keeps host l' pi) :
    l.Leads l' where
  updates_sub u hu := hk.updates_eq ▸ List.mem_append_left _ hu
  sublist := by rw [hk.processes_eq]
  removed pi' hpi' := Or.inl (by rwa [hk.processes_eq])

/-- After taking a row out there is one row less to visit. -/
theorem Good.erases {l l' : Purge} {left : ℕ} {pi : Ref ProcessInfo} (h : l.Good host (left + 1))
    (hpi : l.session.view.processes[l.i]? = some pi) (he : l.Erases host l' pi) :
    l'.Good host left where
  inStep := he.inStep h.inStep hpi
  count := by
    have hcount := h.count
    obtain ⟨hlt, _⟩ := List.getElem?_eq_some_iff.mp hpi
    rw [he.processes_eq, List.length_eraseIdx_of_lt hlt, he.i_eq]
    omega
  visited j hj pi' hpi' := by
    rw [he.i_eq] at hj
    rw [he.key_eq, he.lookup_row h.inStep hpi (List.mem_of_getElem? hpi')]
    rw [he.processes_eq, List.getElem?_eraseIdx_of_lt hj] at hpi'
    exact h.visited j hj pi' hpi'

/-- After keeping a row one more row has a record. -/
theorem Good.keeps {l l' : Purge} {left : ℕ} {pi : Ref ProcessInfo} (h : l.Good host (left + 1))
    (hpi : l.session.view.processes[l.i]? = some pi) (hk : l.Keeps host l' pi) :
    l'.Good host left where
  inStep := hk.inStep h.inStep hpi
  count := by
    have hcount := h.count
    rw [hk.processes_eq, hk.i_eq]
    omega
  visited j hj pi' hpi' := by
    obtain ⟨px, _, _, hlookup⟩ := hk.lookup_eq
    rw [hk.processes_eq] at hpi'
    rw [hk.i_eq] at hj
    rw [hk.key_eq, hlookup]
    by_cases heq : l.session.view.key pi' = l.session.view.key pi
    · exact ⟨px, if_pos heq⟩
    · rw [if_neg heq]
      have hne : j ≠ l.i := by
        rintro rfl
        exact heq (congrArg _ (Option.some.inj (hpi'.symm.trans hpi)))
      exact h.visited j (by omega) pi' hpi'

/-- One round of the loop keeps the invariant, with one round less to go. -/
theorem Good.purgeRow {l : Purge} {left : ℕ} (h : l.Good host (left + 1)) (filter : WString) :
    (purgeRow host filter l).Good host left ∧ l.Leads (purgeRow host filter l) := by
  have hlt : l.i < l.session.view.processes.length := by
    have hcount := h.count
    omega
  have hpi := List.getElem?_eq_getElem hlt
  rcases purgeRow_cases host filter l hpi with he | hk
  · exact ⟨h.erases hpi he, he.leads h.inStep hpi⟩
  · exact ⟨h.keeps hpi hk, hk.leads⟩

/-- **The loop** visits all rows that are left. -/
theorem Good.purgeLoop (filter : WString) {left : ℕ} {l : Purge} (h : l.Good host left) :
    (purgeLoop host filter left l).Good host 0 ∧ l.Leads (purgeLoop host filter left l) := by
  induction left generalizing l with
  | zero => exact ⟨h, .refl l⟩
  | succ left ih =>
    obtain ⟨hround, hleads⟩ := h.purgeRow filter
    obtain ⟨hrest, hleads'⟩ := ih hround
    exact ⟨hrest, hleads.trans hleads'⟩

end Purge

/-- What each round keeps is kept by the purge loop. -/
theorem purge_keeps {R : Session → Session → Prop} (hrefl : ∀ s, R s s)
    (htrans : ∀ s s' s'', R s s' → R s' s'' → R s s'')
    (hround : ∀ filter l, R l.session (purgeRow host filter l).session) (s : Session) :
    R s (s.purge host).session := by
  have hloop : ∀ filter left l, R l.session (purgeLoop host filter left l).session := by
    intro filter left
    induction left with
    | zero => exact fun l => hrefl l.session
    | succ left ih => exact fun l => htrans _ _ _ (hround filter l) (ih _)
  exact hloop _ _ ⟨s, 0, []⟩

/-- The purge loop makes no enumeration. -/
theorem purge_calls (host : Host) (s : Session) :
    (s.purge host).session.history.calls = s.history.calls := by
  refine purge_keeps (R := fun s s' => s'.history.calls = s.history.calls) (fun _ => rfl)
    (fun _ _ _ h h' => h'.trans h) (fun filter l => ?_) s
  cases hpi : l.session.view.processes[l.i]? with
  | none => rw [purgeRow, hpi]
  | some pi =>
    rcases Purge.purgeRow_cases host filter l hpi with he | hk
    · exact he.calls_eq
    · exact hk.calls_eq

/-- **The purge loop** of a frame keeps the view in step and leaves a record beside
each row. -/
theorem InStep.purge {s : Session} (h : s.InStep host) :
    (s.purge host).session.InStep host ∧ Purge.Leads ⟨s, 0, []⟩ (s.purge host) ∧
      ∀ pi ∈ (s.purge host).session.view.processes,
        ∃ px, (s.purge host).session.view.processesEx.lookup
          ((s.purge host).session.view.key pi) = some px := by
  have hstart : Purge.Good host ⟨s, 0, []⟩ s.view.processes.length :=
    ⟨h, (Nat.zero_add _).symm, fun j hj => absurd hj (Nat.not_lt_zero j)⟩
  obtain ⟨hgood, hleads⟩ := hstart.purgeLoop (s.view.filter host)
  refine ⟨hgood.inStep, hleads, fun pi hpi => ?_⟩
  obtain ⟨j, hj⟩ := List.getElem?_of_mem hpi
  obtain ⟨hlt, _⟩ := List.getElem?_eq_some_iff.mp hj
  exact hgood.visited j (lt_of_lt_of_eq hlt hgood.count) pi hj

end ProcExpX.Session
