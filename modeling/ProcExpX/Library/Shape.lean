import ProcExpX.Library.Rebuild

/-!
# What a rebuild does not depend on

Which objects are taken over, built, listed and reported depends on the keys of the
records and on the maps, never on the content of the objects or on how they are
built and updated. Two rebuilds with the same keys from tables of the same shape
therefore hand out the same pointers.
-/

namespace Library

variable {ρ ρ' κ ι α : Type} [DecidableEq κ] [DecidableEq ι]

/-- Two loop states agree on everything but the content of the objects. -/
structure Intake.SameShape (t t' : Intake κ ι α) : Prop where
  /-- The unmatched entries. -/
  known : t'.known = t.known
  /-- The new table by key. -/
  byKey : t'.byKey = t.byKey
  /-- The new table by identifier. -/
  byId : t'.byId = t.byId
  /-- The visited objects. -/
  listed : t'.listed = t.listed
  /-- The newly built objects. -/
  added : t'.added = t.added
  /-- The next address. -/
  next : t'.heap.next = t.heap.next

/-- Visiting records with the same key keeps the shapes the same. -/
theorem Intake.SameShape.visit {bp : Blueprint ρ κ ι α} {bp' : Blueprint ρ' κ ι α}
    (hident : bp'.ident = bp.ident) {t t' : Intake κ ι α} (ht : t.SameShape t') {rec : ρ}
    {rec' : ρ'} (hkey : bp'.key rec' = bp.key rec) :
    (t.visit bp rec).SameShape (t'.visit bp' rec') := by
  have hfresh : t'.heap.fresh = t.heap.fresh := congrArg Ref.mk ht.next
  rw [Intake.visit, Intake.visit, hkey, hident, ht.known]
  cases t.known.lookup (bp.key rec) with
  | some r =>
    exact ⟨rfl, by simp only [ht.byKey], by simp only [ht.byId], by simp only [ht.listed],
      ht.added, ht.next⟩
  | none =>
    refine ⟨rfl, ?_, ?_, ?_, ?_, ?_⟩
    · simp only [ht.byKey, hfresh]
    · simp only [ht.byId, hfresh]
    · simp only [ht.listed, hfresh]
    · simp only [ht.added, hfresh]
    · simp only [Heap.next_allocate, ht.next]

/-- Visiting records with the same keys keeps the shapes the same. -/
theorem Intake.SameShape.visitAll {bp : Blueprint ρ κ ι α} {bp' : Blueprint ρ' κ ι α}
    (hident : bp'.ident = bp.ident) {t t' : Intake κ ι α} (ht : t.SameShape t') {recs : List ρ}
    {recs' : List ρ'} (hkeys : recs'.map bp'.key = recs.map bp.key) :
    (t.visitAll bp recs).SameShape (t'.visitAll bp' recs') := by
  induction recs generalizing t t' recs' with
  | nil =>
    rw [List.map_nil, List.map_eq_nil_iff] at hkeys
    subst hkeys
    exact ht
  | cons rec recs ih =>
    cases recs' with
    | nil => cases hkeys
    | cons rec' recs' =>
      obtain ⟨hkey, hkeys⟩ := List.cons.inj hkeys
      exact ih (ht.visit hident hkey) hkeys

/-- Two blueprints stand for the same keys and build and update objects alike, from related
records and up to a relation between the objects. -/
structure Blueprint.Alike (bp : Blueprint ρ κ ι α) (bp' : Blueprint ρ' κ ι α)
    (S : ρ → ρ' → Prop) (R : α → α → Prop) : Prop where
  /-- The identifiers that are part of the keys. -/
  ident : bp'.ident = bp.ident
  /-- The keys of related records. -/
  key : ∀ rec rec', S rec rec' → bp'.key rec' = bp.key rec
  /-- What related records build over related memory. -/
  create : ∀ rec rec' a a', S rec rec' → R a a' → R (bp.create rec a) (bp'.create rec' a')
  /-- What related records make of related objects. -/
  refresh : ∀ rec rec' a a', S rec rec' → R a a' → R (bp.refresh rec a) (bp'.refresh rec' a')

/-- Two loop states of the same shape hold related objects. -/
structure Intake.Alike (R : α → α → Prop) (t t' : Intake κ ι α) : Prop extends
    t.SameShape t' where
  /-- The objects. -/
  read : ∀ r, R (t.heap.read r) (t'.heap.read r)

/-- Visiting related records keeps the objects related. -/
theorem Intake.Alike.visit {bp : Blueprint ρ κ ι α} {bp' : Blueprint ρ' κ ι α}
    {S : ρ → ρ' → Prop} {R : α → α → Prop} (hbp : bp.Alike bp' S R) {t t' : Intake κ ι α}
    (ht : t.Alike R t') {rec : ρ} {rec' : ρ'} (hrec : S rec rec') :
    (t.visit bp rec).Alike R (t'.visit bp' rec') := by
  have hkey := hbp.key rec rec' hrec
  refine ⟨ht.toSameShape.visit hbp.ident hkey, fun r => ?_⟩
  have hfresh : t'.heap.fresh = t.heap.fresh := congrArg Ref.mk ht.next
  rw [Intake.visit, Intake.visit, hkey, ht.known]
  cases t.known.lookup (bp.key rec) with
  | some r₀ =>
    by_cases hr : r = r₀
    · subst hr
      simp only [Heap.read_write_self]
      exact hbp.refresh _ _ _ _ hrec (ht.read r)
    · simp only [Heap.read_write_of_ne _ hr]
      exact ht.read r
  | none =>
    by_cases hr : r = t.heap.fresh
    · subst hr
      simp only [Heap.read_allocate_fresh]
      rw [← hfresh, Heap.read_allocate_fresh, hfresh]
      exact hbp.create _ _ _ _ hrec (ht.read _)
    · simp only [Heap.read_allocate_of_ne _ hr, Heap.read_allocate_of_ne _ (hfresh ▸ hr)]
      exact ht.read r

/-- Visiting related snapshots keeps the objects related. -/
theorem Intake.Alike.visitAll {bp : Blueprint ρ κ ι α} {bp' : Blueprint ρ' κ ι α}
    {S : ρ → ρ' → Prop} {R : α → α → Prop} (hbp : bp.Alike bp' S R) {t t' : Intake κ ι α}
    (ht : t.Alike R t') {recs : List ρ} {recs' : List ρ'} (hrecs : List.Forall₂ S recs recs') :
    (t.visitAll bp recs).Alike R (t'.visitAll bp' recs') := by
  induction hrecs generalizing t t' with
  | nil => exact ht
  | cons hrec _ ih => exact ih (ht.visit hbp hrec)

/-- Where the objects of records with the given keys will live: at the known pointer if
the key is known and no earlier record has taken it, otherwise at the next address. -/
def Intake.placement (known : UnorderedMap κ (Ref α)) (next : ℕ) : List κ → List (Ref α)
  | [] => []
  | k :: ks =>
    match known.lookup k with
    | some r => r :: placement (AList.erase k known) next ks
    | none => ⟨next⟩ :: placement known (next + 1) ks

/-- The visited objects are where they were to be placed. -/
theorem Intake.visitAll_listed (bp : Blueprint ρ κ ι α) (t : Intake κ ι α) (recs : List ρ) :
    (t.visitAll bp recs).listed =
      t.listed ++ placement t.known t.heap.next (recs.map bp.key) := by
  induction recs generalizing t with
  | nil => exact (List.append_nil _).symm
  | cons rec recs ih =>
    have hvisit : (t.visitAll bp (rec :: recs)).listed =
        ((t.visit bp rec).visitAll bp recs).listed := rfl
    rw [hvisit, ih, List.map_cons, placement, Intake.visit]
    cases t.known.lookup (bp.key rec) with
    | some r => simp [Heap.write]
    | none => simp [Heap.fresh]

namespace Roster

/-- A rebuilt roster lists the objects where they were to be placed. -/
theorem RebuildsTo.all_eq {bp : Blueprint ρ κ ι α} {order : IterationOrder}
    {g g' : Roster κ ι α} {recs : List ρ} (h : g.RebuildsTo bp order recs g') :
    g'.all = Intake.placement g.byKey g.heap.next (recs.map bp.key) := by
  rw [h.eq_rebuild]
  exact Intake.visitAll_listed bp (Intake.start g.byKey g.heap) recs

/-- Two rosters have the same tables, up to the content of the objects. -/
structure SameTable (g g' : Roster κ ι α) : Prop where
  /-- The objects by key. -/
  byKey : g'.byKey = g.byKey
  /-- The objects by identifier. -/
  byId : g'.byId = g.byId
  /-- The list. -/
  all : g'.all = g.all
  /-- The next address. -/
  next : g'.heap.next = g.heap.next

/-- Two rosters made the same report. -/
structure SameReport (g g' : Roster κ ι α) : Prop where
  /-- The added objects. -/
  added : g'.added = g.added
  /-- The removed objects. -/
  removed : g'.removed = g.removed

omit [DecidableEq κ] [DecidableEq ι] in
/-- A roster has the same tables as itself. -/
theorem SameTable.refl (g : Roster κ ι α) : g.SameTable g := ⟨rfl, rfl, rfl, rfl⟩

omit [DecidableEq κ] [DecidableEq ι] in
/-- Having the same tables is transitive. -/
theorem SameTable.trans {g g' g'' : Roster κ ι α} (h : g.SameTable g') (h' : g'.SameTable g'') :
    g.SameTable g'' :=
  ⟨h'.byKey.trans h.byKey, h'.byId.trans h.byId, h'.all.trans h.all, h'.next.trans h.next⟩

/-- **Same keys, same pointers.** Rebuilding the same tables from records with the
same keys gives the same tables and the same report. -/
theorem SameTable.rebuild {bp : Blueprint ρ κ ι α} {bp' : Blueprint ρ' κ ι α}
    {order : IterationOrder} {g₁ g₂ g₁' g₂' : Roster κ ι α} {recs : List ρ} {recs' : List ρ'}
    (hg : g₁.SameTable g₂) (h₁ : g₁.RebuildsTo bp order recs g₁')
    (h₂ : g₂.RebuildsTo bp' order recs' g₂') (hident : bp'.ident = bp.ident)
    (hkeys : recs'.map bp'.key = recs.map bp.key) :
    g₁'.SameTable g₂' ∧ g₁'.SameReport g₂' := by
  rw [h₁.eq_rebuild, h₂.eq_rebuild]
  have hstart : (Intake.start g₁.byKey g₁.heap : Intake κ ι α).SameShape
      (Intake.start g₂.byKey g₂.heap) :=
    ⟨hg.byKey, rfl, rfl, rfl, rfl, hg.next⟩
  have hend := hstart.visitAll hident hkeys
  exact ⟨⟨hend.byKey, hend.byId, hend.listed, hend.next⟩,
    ⟨hend.added, congrArg (UnorderedMap.values order) hend.known⟩⟩

/-- **Same tables, related objects.** Rebuilding one roster in two ways from related records
gives the same tables, the same report and related objects. -/
theorem RebuildsTo.alike {bp : Blueprint ρ κ ι α} {bp' : Blueprint ρ' κ ι α}
    {S : ρ → ρ' → Prop} {R : α → α → Prop} (hbp : bp.Alike bp' S R) (hR : ∀ a, R a a)
    {order : IterationOrder} {g g₁ g₂ : Roster κ ι α} {recs : List ρ} {recs' : List ρ'}
    (h₁ : g.RebuildsTo bp order recs g₁) (h₂ : g.RebuildsTo bp' order recs' g₂)
    (hrecs : List.Forall₂ S recs recs') :
    g₁.SameTable g₂ ∧ g₁.SameReport g₂ ∧ ∀ r, R (g₁.heap.read r) (g₂.heap.read r) := by
  rw [h₁.eq_rebuild, h₂.eq_rebuild]
  have hstart : (Intake.start g.byKey g.heap : Intake κ ι α).Alike R
      (Intake.start g.byKey g.heap) :=
    ⟨⟨rfl, rfl, rfl, rfl, rfl, rfl⟩, fun r => hR _⟩
  have hend := hstart.visitAll hbp hrecs
  exact ⟨⟨hend.byKey, hend.byId, hend.listed, hend.next⟩,
    ⟨hend.added, congrArg (UnorderedMap.values order) hend.known⟩, hend.read⟩

/-- A table that holds no key is empty. -/
theorem Holds.eq_empty {idn : Identity κ ι α} {g : Roster κ ι α} (hg : g.Holds idn []) :
    g.byKey = ∅ ∧ g.byId = ∅ ∧ g.all = [] := by
  have hall : g.all = [] := List.map_eq_nil_iff.mp hg.keys_eq
  refine ⟨UnorderedMap.eq_empty fun k => ?_, UnorderedMap.eq_empty fun i => ?_, hall⟩
  · refine Option.eq_none_iff_forall_ne_some.mpr fun r hr => ?_
    simpa [hall] using hg.byKey_mem k r hr
  · refine Option.eq_none_iff_forall_ne_some.mpr fun r hr => ?_
    simpa [hall] using (hg.byId_mem i r hr).1

/-- A table that holds no key, rebuilt from no record, stays as it is and reports
nothing. -/
theorem RebuildsTo.of_nil {bp : Blueprint ρ κ ι α} {order : IterationOrder}
    {g g' : Roster κ ι α} (h : g.RebuildsTo bp order [] g') (hg : g.Holds bp.toIdentity []) :
    g.SameTable g' ∧ g'.added = [] ∧ g'.removed = [] := by
  obtain ⟨hkey, hid, hall⟩ := hg.eq_empty
  have hremoved : g'.removed = [] := by
    refine List.eq_nil_iff_forall_not_mem.mpr fun r hr => ?_
    obtain ⟨k, hlookup, _⟩ := h.mem_removed.mp hr
    simp [hkey] at hlookup
  have heq := h.eq_rebuild
  subst heq
  exact ⟨⟨hkey.symm, hid.symm, hall.symm, rfl⟩, rfl, hremoved⟩

end Roster

end Library
