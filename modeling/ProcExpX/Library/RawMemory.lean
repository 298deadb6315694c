import ProcExpX.Library.Shape

/-!
# Memory that has not been handed out

New objects are built over raw memory. If nothing of it shows in what is built, two rebuilds
of alike rosters stay alike although the memory beyond them differs.
-/

namespace Library

variable {ρ κ ι α : Type} [DecidableEq κ] [DecidableEq ι]

/-- A blueprint that relates what it builds over any two pieces of memory, and keeps related
objects related. -/
structure Blueprint.Covers (bp : Blueprint ρ κ ι α) (R : α → α → Prop) : Prop where
  /-- What a record builds. -/
  create : ∀ rec a a', R (bp.create rec a) (bp.create rec a')
  /-- What a record makes of an object. -/
  refresh : ∀ rec a a', R a a' → R (bp.refresh rec a) (bp.refresh rec a')

/-- Two loop states of the same shape have related objects, whatever the memory beyond. -/
structure Intake.SameObjects (R : α → α → Prop) (t t' : Intake κ ι α) : Prop extends
    t.SameShape t' where
  /-- The unmatched objects have been handed out. -/
  known_live : ∀ k r, t.known.lookup k = some r → t.heap.Live r
  /-- The objects. -/
  read : ∀ r, t.heap.Live r → R (t.heap.read r) (t'.heap.read r)

/-- Visiting a record keeps the objects related. -/
theorem Intake.SameObjects.visit {bp : Blueprint ρ κ ι α} {R : α → α → Prop} (hbp : bp.Covers R)
    {t t' : Intake κ ι α} (ht : t.SameObjects R t') (rec : ρ) :
    (t.visit bp rec).SameObjects R (t'.visit bp rec) := by
  refine ⟨ht.toSameShape.visit rfl rfl, ?_, ?_⟩
  · intro k r hr
    rw [Intake.visit] at hr ⊢
    cases hknown : t.known.lookup (bp.key rec) with
    | some r₀ =>
      rw [hknown] at hr
      have hold : (AList.erase (bp.key rec) t.known).lookup k = some r := hr
      rw [UnorderedMap.lookup_erase_eq] at hold
      split at hold
      · cases hold
      · exact ht.known_live k r hold
    | none =>
      rw [hknown] at hr
      exact Heap.live_allocate.mpr (Or.inl (ht.known_live k r hr))
  · intro r hr
    have hfresh : t'.heap.fresh = t.heap.fresh := congrArg Ref.mk ht.next
    rw [Intake.visit, Intake.visit, ht.known]
    rw [Intake.visit] at hr
    cases hknown : t.known.lookup (bp.key rec) with
    | some r₀ =>
      rw [hknown] at hr
      by_cases heq : r = r₀
      · subst heq
        simp only [Heap.read_write_self]
        exact hbp.refresh _ _ _ (ht.read r (ht.known_live _ r hknown))
      · simp only [Heap.read_write_of_ne _ heq]
        exact ht.read r (Heap.live_write.mp hr)
    | none =>
      rw [hknown] at hr
      by_cases heq : r = t.heap.fresh
      · subst heq
        simp only [Heap.read_allocate_fresh]
        rw [← hfresh, Heap.read_allocate_fresh, hfresh]
        exact hbp.create _ _ _
      · simp only [Heap.read_allocate_of_ne _ heq, Heap.read_allocate_of_ne _ (hfresh ▸ heq)]
        exact ht.read r ((Heap.live_allocate.mp hr).resolve_right heq)

/-- Visiting a snapshot keeps the objects related. -/
theorem Intake.SameObjects.visitAll {bp : Blueprint ρ κ ι α} {R : α → α → Prop}
    (hbp : bp.Covers R) {t t' : Intake κ ι α} (ht : t.SameObjects R t') (recs : List ρ) :
    (t.visitAll bp recs).SameObjects R (t'.visitAll bp recs) := by
  induction recs generalizing t t' with
  | nil => exact ht
  | cons rec recs ih => exact ih (ht.visit hbp rec)

namespace Roster

/-- Two rosters with the same tables and the same report have related objects, whatever the
memory beyond. -/
structure SameObjects (R : α → α → Prop) (g g' : Roster κ ι α) : Prop where
  /-- The tables. -/
  table : g.SameTable g'
  /-- The report. -/
  report : g.SameReport g'
  /-- The objects. -/
  read : ∀ r, g.heap.Live r → R (g.heap.read r) (g'.heap.read r)

/-- **Raw memory does not show.** Rebuilding alike rosters from the same records gives alike
rosters. -/
theorem SameObjects.rebuild {bp : Blueprint ρ κ ι α} {R : α → α → Prop} (hbp : bp.Covers R)
    {order : IterationOrder} {g₁ g₂ g₁' g₂' : Roster κ ι α} {recs : List ρ}
    (hg : g₁.SameObjects R g₂) (h₁ : g₁.RebuildsTo bp order recs g₁')
    (h₂ : g₂.RebuildsTo bp order recs g₂') : g₁'.SameObjects R g₂' := by
  obtain ⟨htable, hreport⟩ := hg.table.rebuild h₁ h₂ rfl rfl
  refine ⟨htable, hreport, ?_⟩
  have hstart : (Intake.start g₁.byKey g₁.heap : Intake κ ι α).SameObjects R
      (Intake.start g₂.byKey g₂.heap) :=
    ⟨⟨hg.table.byKey, rfl, rfl, rfl, rfl, hg.table.next⟩,
      fun k r hr => (h₁.keyed k r hr).1, hg.read⟩
  rw [h₁.eq_rebuild, h₂.eq_rebuild]
  exact (hstart.visitAll hbp recs).read

end Roster

end Library
