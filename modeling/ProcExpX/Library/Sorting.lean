import Mathlib.Data.List.Sort

/-!
# Sorting with a comparison

A standard library sort rearranges a list so that no element stands before one
that is strictly smaller, provided that the comparison is a strict weak order.
Where elements compare as equal their order is up to the implementation, so the
sort itself stays a parameter. This file collects the ways in which comparisons
are put together.
-/

namespace Library

/-- A comparison that a standard sort accepts: irreflexive, transitive, and with
transitive incomparability. -/
abbrev StrictWeak {α : Type} (less : α → α → Bool) : Prop :=
  IsStrictWeakOrder α fun a b => less a b = true

/-- An implementation of `std::sort`. -/
structure StdSort where
  /-- Rearrange a list by a comparison. -/
  sort : {α : Type} → (α → α → Bool) → List α → List α
  /-- The elements stay the same. -/
  perm : ∀ {α : Type} {less : α → α → Bool} (l : List α), StrictWeak less →
    (sort less l).Perm l
  /-- No element stands before a smaller one. -/
  sorted : ∀ {α : Type} {less : α → α → Bool} (l : List α), StrictWeak less →
    (sort less l).Pairwise fun a b => less b a = false

/-- A comparison is connected: of two ordered elements one is ordered with any third. -/
private theorem StrictWeak.connected {α : Type} {less : α → α → Bool} (h : StrictWeak less)
    {a c : α} (hac : less a c = true) (b : α) : less a b = true ∨ less b c = true := by
  by_contra hnone
  obtain ⟨hab, hbc⟩ := not_or.mp hnone
  by_cases hba : less b a = true
  · exact hbc (h.trans b a c hba hac)
  · by_cases hcb : less c b = true
    · exact hab (h.trans a c b hac hcb)
    · exact (h.incomp_trans a b c ⟨hab, hba⟩ ⟨hbc, hcb⟩).1 hac

/-- That the second of two elements is not smaller is a total order up to ties. -/
private theorem StrictWeak.not_less {α : Type} {less : α → α → Bool} (h : StrictWeak less) :
    (∀ a b c : α, less b a = false → less c b = false → less c a = false) ∧
      ∀ a b : α, less b a = false ∨ less a b = false := by
  constructor
  · intro a b c hab hbc
    by_contra hca
    rcases h.connected (Bool.not_eq_false _ ▸ hca) b with hcb | hba
    · exact absurd hcb (by simp [hbc])
    · exact absurd hba (by simp [hab])
  · intro a b
    cases hab : less a b with
    | false => exact Or.inr rfl
    | true =>
      have hba : ¬ less b a = true := fun hba => h.irrefl a (h.trans a b a hab hba)
      exact Or.inl (Bool.not_eq_true _ ▸ hba)

/-- Merge sort is one such implementation. -/
def StdSort.merge : StdSort where
  sort := fun less l => l.mergeSort fun a b => !less b a
  perm := fun l _ => List.mergeSort_perm l _
  sorted := by
    intro α less l h
    have htrans : ∀ a b c, (!less b a) = true → (!less c b) = true → (!less c a) = true := by
      simpa only [Bool.not_eq_true'] using h.not_less.1
    have htotal : ∀ a b, (!less b a || !less a b) = true := by
      simpa only [Bool.or_eq_true, Bool.not_eq_true'] using h.not_less.2
    have hsorted := List.pairwise_mergeSort htrans htotal l
    exact hsorted.imp fun hab => by simpa using hab

/-- A sort compares the elements of its list only. -/
def StdSort.Local (s : StdSort) : Prop :=
  ∀ {α : Type} {less less' : α → α → Bool} (l : List α),
    (∀ a ∈ l, ∀ b ∈ l, less' a b = less a b) → s.sort less' l = s.sort less l

/-- Merge sort does so. -/
theorem StdSort.merge_local : StdSort.merge.Local := by
  intro α less less' l hsame
  have hsorted := List.map_mergeSort (f := id) (r := fun a b => !less' b a)
    (s := fun a b => !less b a) fun a ha b hb => congrArg not (hsame b hb a ha)
  rwa [List.map_id, List.map_id] at hsorted

/-- Insertion sort is another. -/
def StdSort.insertion : StdSort where
  sort := fun less l => l.insertionSort fun a b => less b a = false
  perm := fun l _ => List.perm_insertionSort _ l
  sorted := by
    intro α less l h
    have htrans : IsTrans α fun a b => less b a = false := ⟨h.not_less.1⟩
    have htotal : Std.Total fun a b : α => less b a = false := ⟨h.not_less.2⟩
    exact List.pairwise_insertionSort _ l

namespace StrictWeak

variable {α β : Type}

/-- A test that never answers yes compares all elements as equal. -/
theorem never : StrictWeak fun (_ _ : α) => false where
  irrefl := by simp
  trans := by simp
  incomp_trans := by simp

/-- Elements are compared by a value computed from them. -/
theorem on {less : β → β → Bool} (h : StrictWeak less) (f : α → β) :
    StrictWeak fun a b => less (f a) (f b) where
  irrefl := fun a => h.irrefl (f a)
  trans := fun a b c => h.trans (f a) (f b) (f c)
  incomp_trans := fun a b c => h.incomp_trans (f a) (f b) (f c)

/-- The descending order. -/
theorem swap {less : α → α → Bool} (h : StrictWeak less) : StrictWeak fun a b => less b a where
  irrefl := h.irrefl
  trans := fun a b c hba hcb => h.trans c b a hcb hba
  incomp_trans := fun a b c hab hbc =>
    (h.incomp_trans a b c hab.symm hbc.symm).symm

/-- A test that agrees with the order of a linearly ordered value. -/
theorem of_value [LinearOrder β] {less : α → α → Bool} (value : α → β)
    (h : ∀ a b, less a b = true ↔ value a < value b) : StrictWeak less where
  irrefl := fun a => by simp [h]
  trans := fun a b c => by
    simp only [h]
    exact lt_trans
  incomp_trans := fun a b c => by
    simp only [h, not_lt]
    exact fun hab hbc => ⟨hbc.1.trans hab.1, hab.2.trans hbc.2⟩

/-- Some elements stand last and count as equal, whatever the order of the others. -/
theorem last {less : α → α → Bool} (h : StrictWeak less) (isLast : α → Bool) :
    StrictWeak fun a b => if isLast a then false else if isLast b then true else less a b where
  irrefl := fun a => by
    have hirrefl := h.irrefl a
    dsimp only
    split <;> simp [hirrefl]
  trans := fun a b c => by
    have htrans := h.trans a b c
    dsimp only
    cases isLast a <;> cases isLast b <;> cases isLast c <;> simp_all
  incomp_trans := fun a b c => by
    have hincomp := h.incomp_trans a b c
    dsimp only
    cases isLast a <;> cases isLast b <;> cases isLast c <;> simp_all

end StrictWeak

/-- The sign of a comparison tells how two elements stand in a preorder. -/
structure ThreeWay {α : Type} (le : α → α → Prop) (compare : α → α → ℤ) : Prop where
  /-- A negative result says that the first one is smaller. -/
  neg_iff : ∀ a b, compare a b < 0 ↔ ¬ le b a
  /-- A positive result says that the first one is greater. -/
  pos_iff : ∀ a b, 0 < compare a b ↔ ¬ le a b

namespace ThreeWay

variable {α β : Type} {le : α → α → Prop} {compare : α → α → ℤ}

/-- With its arguments exchanged the comparison has the opposite sign. -/
theorem pos_iff_neg (h : ThreeWay le compare) (a b : α) : 0 < compare b a ↔ compare a b < 0 :=
  (h.pos_iff b a).trans (h.neg_iff a b).symm

/-- Elements are compared by a value computed from them. -/
theorem on (h : ThreeWay le compare) (f : β → α) :
    ThreeWay (fun a b => le (f a) (f b)) fun a b => compare (f a) (f b) :=
  ⟨fun a b => h.neg_iff (f a) (f b), fun a b => h.pos_iff (f a) (f b)⟩

/-- Being smaller in a total preorder is a strict weak order. -/
theorem strictWeak (h : ThreeWay le compare) (total : ∀ a b, le a b ∨ le b a)
    (trans : ∀ a b c, le a b → le b c → le a c) :
    StrictWeak fun a b => decide (compare a b < 0) where
  irrefl := fun a => by
    simp only [decide_eq_true_eq, h.neg_iff, not_not]
    exact (total a a).elim id id
  trans := fun a b c => by
    simp only [decide_eq_true_eq, h.neg_iff]
    intro hba hcb hca
    exact hcb (trans c a b hca ((total a b).resolve_right hba))
  incomp_trans := fun a b c => by
    simp only [decide_eq_true_eq, h.neg_iff, not_not]
    rintro ⟨hba, hab⟩ ⟨hcb, hbc⟩
    exact ⟨trans c b a hcb hba, trans a b c hab hbc⟩

end ThreeWay

end Library
