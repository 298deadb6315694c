import Mathlib.Data.List.Induction
import ProcExpX.Library.Aligned
import ProcExpX.Library.Heap
import ProcExpX.Library.UnorderedMap

/-!
# Rebuilding a table of keyed objects from a snapshot

A tracker keeps one object for each key it has seen and rebuilds its table from
a list of records. A record whose key is known takes over the known object and
consumes its entry; any other record gets a new object. This file describes the
loop over the records and the invariant that relates the consumed map, the new
maps, the list and the heap to the records visited so far. Distinctness of keys
is never assumed here.
-/

namespace Library

/-- What objects are known under: a key, and an identifier that is part of it. -/
structure Identity (κ ι α : Type) where
  /-- The identifier that is part of a key. -/
  ident : κ → ι
  /-- The key an object carries. -/
  keyOf : α → κ
  /-- The identifier an object carries. -/
  identOf : α → ι

/-- How records become objects: the key a record stands for, the object built
over raw memory, and the update of an object that exists already. The laws say
that an update never changes what an object is known under. -/
structure Blueprint (ρ κ ι α : Type) extends Identity κ ι α where
  /-- The key of a record. -/
  key : ρ → κ
  /-- The object built for a new record over the given raw memory. -/
  create : ρ → α → α
  /-- The known object updated from a record. -/
  refresh : ρ → α → α
  /-- A new object carries the key of its record. -/
  keyOf_create : ∀ rec a, keyOf (create rec a) = key rec
  /-- A new object carries the identifier in the key of its record. -/
  identOf_create : ∀ rec a, identOf (create rec a) = ident (key rec)
  /-- An update keeps the key. -/
  keyOf_refresh : ∀ rec a, keyOf (refresh rec a) = keyOf a
  /-- An update keeps the identifier. -/
  identOf_refresh : ∀ rec a, identOf (refresh rec a) = identOf a

variable {ρ κ ι α : Type}

/-- An object carries a key when both its key and its identifier agree with it. -/
def Identity.Carries (idn : Identity κ ι α) (a : α) (k : κ) : Prop :=
  idn.keyOf a = k ∧ idn.identOf a = idn.ident k

variable [DecidableEq κ]

/-- Every entry of a map points to an allocated object that carries its key. -/
def Identity.Keyed (idn : Identity κ ι α) (m : UnorderedMap κ (Ref α)) (h : Heap α) : Prop :=
  ∀ k r, m.lookup k = some r → h.Live r ∧ idn.Carries (h.read r) k

/-- In a keyed map one object has one key. -/
theorem Identity.Keyed.key_unique {idn : Identity κ ι α} {m : UnorderedMap κ (Ref α)}
    {h : Heap α} (hkeyed : idn.Keyed m h) {k k' : κ} {r : Ref α}
    (hk : m.lookup k = some r) (hk' : m.lookup k' = some r) : k = k' :=
  ((hkeyed k r hk).2.1).symm.trans (hkeyed k' r hk').2.1

namespace Intake

/-- What became of a record: it took over the object its key had before and
updated the content that object had before, or it got an object that did not
exist before. -/
def Built (bp : Blueprint ρ κ ι α) (m₀ : UnorderedMap κ (Ref α)) (h₀ h : Heap α) (rec : ρ)
    (r : Ref α) : Prop :=
  (m₀.lookup (bp.key rec) = some r ∧ h.read r = bp.refresh rec (h₀.read r)) ∨
    (¬ h₀.Live r ∧ h.read r = bp.create rec (h₀.read r))

/-- The object of a record carries the key of the record. -/
theorem Built.carries {bp : Blueprint ρ κ ι α} {m₀ : UnorderedMap κ (Ref α)} {h₀ h : Heap α}
    (hkeyed : bp.Keyed m₀ h₀) {rec : ρ} {r : Ref α} (hbuilt : Built bp m₀ h₀ h rec r) :
    bp.Carries (h.read r) (bp.key rec) := by
  rcases hbuilt with ⟨hlookup, hread⟩ | ⟨_, hread⟩
  · obtain ⟨hkey, hident⟩ := (hkeyed _ _ hlookup).2
    rw [hread]
    exact ⟨(bp.keyOf_refresh _ _).trans hkey, (bp.identOf_refresh _ _).trans hident⟩
  · rw [hread]
    exact ⟨bp.keyOf_create _ _, bp.identOf_create _ _⟩

/-- What became of a record depends only on the content of its object. -/
theorem Built.of_read_eq {bp : Blueprint ρ κ ι α} {m₀ : UnorderedMap κ (Ref α)}
    {h₀ h h' : Heap α} {rec : ρ} {r : Ref α} (hread : h'.read r = h.read r)
    (hbuilt : Built bp m₀ h₀ h rec r) : Built bp m₀ h₀ h' rec r := by
  unfold Built
  rwa [hread]

end Intake

variable [DecidableEq ι]

/-- The state of the rebuilding loop. -/
structure Intake (κ ι α : Type) where
  /-- Entries of the previous table that no record has matched yet. -/
  known : UnorderedMap κ (Ref α)
  /-- The new table by key. -/
  byKey : UnorderedMap κ (Ref α)
  /-- The new table by identifier. -/
  byId : UnorderedMap ι (Ref α)
  /-- The objects of the visited records, in order. -/
  listed : List (Ref α)
  /-- Those of them that were newly built. -/
  added : List (Ref α)
  /-- The heap the objects live in. -/
  heap : Heap α

namespace Intake

/-- The loop starts with the previous table unmatched and everything else empty. -/
def start (m : UnorderedMap κ (Ref α)) (h : Heap α) : Intake κ ι α :=
  { known := m, byKey := ∅, byId := ∅, listed := [], added := [], heap := h }

/-- Visit one record: take over the known object and consume its entry, or build
a new object; then list the object and enter it into both maps. -/
def visit (bp : Blueprint ρ κ ι α) (t : Intake κ ι α) (rec : ρ) : Intake κ ι α :=
  match t.known.lookup (bp.key rec) with
  | some r =>
    { known := AList.erase (bp.key rec) t.known
      byKey := t.byKey.insertNew (bp.key rec) r
      byId := t.byId.insertNew (bp.ident (bp.key rec)) r
      listed := t.listed ++ [r]
      added := t.added
      heap := t.heap.write r (bp.refresh rec (t.heap.read r)) }
  | none =>
    { known := t.known
      byKey := t.byKey.insertNew (bp.key rec) t.heap.fresh
      byId := t.byId.insertNew (bp.ident (bp.key rec)) t.heap.fresh
      listed := t.listed ++ [t.heap.fresh]
      added := t.added ++ [t.heap.fresh]
      heap := t.heap.allocate (bp.create rec (t.heap.read t.heap.fresh)) }

/-- Visit all records of a snapshot in order. -/
def visitAll (bp : Blueprint ρ κ ι α) (t : Intake κ ι α) (recs : List ρ) : Intake κ ι α :=
  recs.foldl (visit bp) t

/-- Visiting a longer snapshot continues after its prefix. -/
theorem visitAll_append (bp : Blueprint ρ κ ι α) (t : Intake κ ι α) (xs ys : List ρ) :
    visitAll bp t (xs ++ ys) = visitAll bp (visitAll bp t xs) ys :=
  List.foldl_append

/-- A visit keeps the unmatched entries keyed. -/
theorem visit_known_keyed {bp : Blueprint ρ κ ι α} {t : Intake κ ι α}
    (hkeyed : bp.Keyed t.known t.heap) (rec : ρ) :
    bp.Keyed (t.visit bp rec).known (t.visit bp rec).heap := by
  intro k r hlookup
  cases hknown : t.known.lookup (bp.key rec) with
  | some r₀ =>
    simp only [visit, hknown, UnorderedMap.lookup_erase_eq] at hlookup ⊢
    split at hlookup
    · cases hlookup
    · obtain ⟨hlive, hkey, hident⟩ := hkeyed k r hlookup
      refine ⟨hlive, ?_⟩
      by_cases hr : r = r₀
      · subst hr
        rw [Heap.read_write_self]
        exact ⟨(bp.keyOf_refresh _ _).trans hkey, (bp.identOf_refresh _ _).trans hident⟩
      · rw [Heap.read_write_of_ne _ hr]
        exact ⟨hkey, hident⟩
  | none =>
    simp only [visit, hknown] at hlookup ⊢
    obtain ⟨hlive, hcarries⟩ := hkeyed k r hlookup
    rw [Heap.read_allocate_of_ne _ hlive.ne_fresh]
    exact ⟨Heap.live_allocate.mpr (Or.inl hlive), hcarries⟩

/-- Visiting records keeps the unmatched entries keyed. -/
theorem visitAll_known_keyed {bp : Blueprint ρ κ ι α} {t : Intake κ ι α}
    (hkeyed : bp.Keyed t.known t.heap) (recs : List ρ) :
    bp.Keyed (t.visitAll bp recs).known (t.visitAll bp recs).heap := by
  induction recs using List.reverseRecOn with
  | nil => exact hkeyed
  | append_singleton recs rec ih =>
    rw [visitAll_append]
    exact visit_known_keyed ih rec

/-- The loop invariant: how the state after visiting `seen` relates to the map
and heap the loop started from. -/
structure Progress (bp : Blueprint ρ κ ι α) (m₀ : UnorderedMap κ (Ref α)) (h₀ : Heap α)
    (seen : List ρ) (t : Intake κ ι α) : Prop where
  /-- Exactly the entries with a visited key have been consumed. -/
  known_lookup : ∀ k, t.known.lookup k = if k ∈ seen.map bp.key then none else m₀.lookup k
  /-- Addresses are only ever handed out. -/
  next_le : h₀.next ≤ t.heap.next
  /-- Raw memory is untouched. -/
  raw_same : ∀ r, ¬ t.heap.Live r → t.heap.read r = h₀.read r
  /-- Objects that no record has matched keep their content. -/
  unlisted_same : ∀ r, h₀.Live r → r ∉ t.listed → t.heap.read r = h₀.read r
  /-- Listed objects are allocated. -/
  listed_live : ∀ r ∈ t.listed, t.heap.Live r
  /-- No object is listed twice. -/
  listed_nodup : t.listed.Nodup
  /-- The list follows the records, and each object was built from its record. -/
  entries : List.Forall₂ (Built bp m₀ h₀ t.heap) seen t.listed
  /-- A previously known object is listed precisely when its key was visited. -/
  matched : ∀ k r, m₀.lookup k = some r → (r ∈ t.listed ↔ k ∈ seen.map bp.key)
  /-- The added objects are the listed ones that did not exist at the start. -/
  added_eq : t.added = t.listed.filter (fun r => ¬ h₀.Live r)
  /-- The new map by key only holds listed objects, under the key they carry. -/
  byKey_sound : ∀ k r, t.byKey.lookup k = some r → r ∈ t.listed ∧ bp.keyOf (t.heap.read r) = k
  /-- Every visited key is in the new map. -/
  byKey_complete : ∀ k ∈ seen.map bp.key, (t.byKey.lookup k).isSome
  /-- The new map by identifier only holds listed objects, under their identifier. -/
  byId_sound : ∀ i r, t.byId.lookup i = some r → r ∈ t.listed ∧ bp.identOf (t.heap.read r) = i
  /-- Every visited identifier is in the new map. -/
  byId_complete : ∀ k ∈ seen.map bp.key, (t.byId.lookup (bp.ident k)).isSome

/-- Before any record the invariant holds. -/
theorem Progress.start (bp : Blueprint ρ κ ι α) (m₀ : UnorderedMap κ (Ref α)) (h₀ : Heap α) :
    Progress bp m₀ h₀ [] (Intake.start m₀ h₀) where
  known_lookup := by simp [Intake.start]
  next_le := le_rfl
  raw_same := fun _ _ => rfl
  unlisted_same := fun _ _ _ => rfl
  listed_live := by simp [Intake.start]
  listed_nodup := List.nodup_nil
  entries := List.Forall₂.nil
  matched := by simp [Intake.start]
  added_eq := rfl
  byKey_sound := by simp [Intake.start]
  byKey_complete := by simp
  byId_sound := by simp [Intake.start]
  byId_complete := by simp

/-- Everything one visit does, without the distinction between a known and a
new object: object `r` is placed for the record and nothing else changes. -/
structure Placed (bp : Blueprint ρ κ ι α) (m₀ : UnorderedMap κ (Ref α)) (h₀ : Heap α)
    (seen : List ρ) (t : Intake κ ι α) (rec : ρ) (r : Ref α) (t' : Intake κ ι α) : Prop where
  /-- The entry with the record's key is consumed. -/
  known_lookup : ∀ k, t'.known.lookup k = if k = bp.key rec then none else t.known.lookup k
  /-- The object is entered by key unless the key is taken. -/
  byKey_eq : t'.byKey = t.byKey.insertNew (bp.key rec) r
  /-- The object is entered by identifier unless the identifier is taken. -/
  byId_eq : t'.byId = t.byId.insertNew (bp.ident (bp.key rec)) r
  /-- The object is listed last. -/
  listed_eq : t'.listed = t.listed ++ [r]
  /-- The object is added when it did not exist at the start. -/
  added_eq : t'.added = if h₀.Live r then t.added else t.added ++ [r]
  /-- The object was not listed before. -/
  not_listed : r ∉ t.listed
  /-- Only this object is written. -/
  read_other : ∀ r', r' ≠ r → t'.heap.read r' = t.heap.read r'
  /-- Only this object may be allocated. -/
  live_iff : ∀ r', t'.heap.Live r' ↔ t.heap.Live r' ∨ r' = r
  /-- The object is built from the record. -/
  built : Built bp m₀ h₀ t'.heap rec r
  /-- A previously known object for the record's key is this one, unless an
  earlier record has taken it. -/
  takes : ∀ r', m₀.lookup (bp.key rec) = some r' → r' = r ∨ bp.key rec ∈ seen.map bp.key
  /-- An object that existed at the start was known under the record's key. -/
  live_known : h₀.Live r → m₀.lookup (bp.key rec) = some r

/-- A visit places one object. -/
theorem Progress.placed {bp : Blueprint ρ κ ι α} {m₀ : UnorderedMap κ (Ref α)} {h₀ : Heap α}
    {seen : List ρ} {t : Intake κ ι α} (hkeyed : bp.Keyed m₀ h₀)
    (hp : Progress bp m₀ h₀ seen t) (rec : ρ) :
    ∃ r, Placed bp m₀ h₀ seen t rec r (t.visit bp rec) := by
  have hlookup := hp.known_lookup (bp.key rec)
  cases hknown : t.known.lookup (bp.key rec) with
  | some r =>
    have hunseen : bp.key rec ∉ seen.map bp.key := by
      intro hmem
      rw [hknown, if_pos hmem] at hlookup
      cases hlookup
    have hm₀ : m₀.lookup (bp.key rec) = some r := by
      rw [hknown, if_neg hunseen] at hlookup
      exact hlookup.symm
    have hlive := (hkeyed _ _ hm₀).1
    have hnot : r ∉ t.listed := fun hmem => hunseen ((hp.matched _ _ hm₀).mp hmem)
    have hlive' : t.heap.Live r := lt_of_lt_of_le hlive hp.next_le
    refine ⟨r, ?_⟩
    rw [visit, hknown]
    refine ⟨fun k => UnorderedMap.lookup_erase_eq _ _ _, rfl, rfl, rfl, by rw [if_pos hlive],
      hnot, fun r' hne => Heap.read_write_of_ne _ hne _, ?_, Or.inl ⟨hm₀, ?_⟩, ?_, fun _ => hm₀⟩
    · intro r'
      rw [Heap.live_write]
      exact ⟨Or.inl, fun h => h.elim id (fun heq => heq ▸ hlive')⟩
    · rw [Heap.read_write_self, hp.unlisted_same r hlive hnot]
    · intro r' hr'
      exact Or.inl (Option.some.inj (hr'.symm.trans hm₀))
  | none =>
    have hdead : ¬ h₀.Live t.heap.fresh := Nat.not_lt.mpr hp.next_le
    refine ⟨t.heap.fresh, ?_⟩
    rw [visit, hknown]
    refine ⟨?_, rfl, rfl, rfl, by rw [if_neg hdead],
      fun hmem => t.heap.not_live_fresh (hp.listed_live _ hmem),
      fun r' hne => Heap.read_allocate_of_ne _ hne _, fun r' => Heap.live_allocate,
      Or.inr ⟨hdead, ?_⟩, ?_, fun h => absurd h hdead⟩
    · intro k
      by_cases hk : k = bp.key rec
      · rw [if_pos hk, hk, hknown]
      · rw [if_neg hk]
    · rw [Heap.read_allocate_fresh, hp.raw_same _ t.heap.not_live_fresh]
    · intro r' hr'
      by_cases hseen : bp.key rec ∈ seen.map bp.key
      · exact Or.inr hseen
      · rw [hknown, if_neg hseen, hr'] at hlookup
        cases hlookup

/-- **Step of the loop.** Visiting a record keeps the invariant. -/
theorem Progress.visit {bp : Blueprint ρ κ ι α} {m₀ : UnorderedMap κ (Ref α)} {h₀ : Heap α}
    {seen : List ρ} {t : Intake κ ι α} (hkeyed : bp.Keyed m₀ h₀)
    (hp : Progress bp m₀ h₀ seen t) (rec : ρ) :
    Progress bp m₀ h₀ (seen ++ [rec]) (t.visit bp rec) := by
  obtain ⟨r, hr⟩ := hp.placed hkeyed rec
  have hne : ∀ r' ∈ t.listed, r' ≠ r := fun r' hr' heq => hr.not_listed (heq ▸ hr')
  have hsame : ∀ r' ∈ t.listed, (t.visit bp rec).heap.read r' = t.heap.read r' :=
    fun r' hr' => hr.read_other r' (hne r' hr')
  have hcarries := hr.built.carries hkeyed
  have hseen : ∀ k ∈ (seen ++ [rec]).map bp.key, k ∈ seen.map bp.key ∨ k = bp.key rec := by
    intro k hk
    rwa [List.map_append, List.mem_append, List.map_singleton, List.mem_singleton] at hk
  constructor
  · intro k
    rw [hr.known_lookup, hp.known_lookup]
    by_cases hk : k = bp.key rec <;> simp [hk]
  · refine le_trans hp.next_le (Nat.le_of_not_lt fun hlt => ?_)
    have hlive : t.heap.Live ⟨(t.visit bp rec).heap.next⟩ := hlt
    exact Nat.lt_irrefl _ ((hr.live_iff _).mpr (Or.inl hlive))
  · intro r' hdead
    rw [hr.live_iff, not_or] at hdead
    rw [hr.read_other r' hdead.2, hp.raw_same r' hdead.1]
  · intro r' hlive hnot
    rw [hr.listed_eq, List.mem_append, List.mem_singleton, not_or] at hnot
    rw [hr.read_other r' hnot.2, hp.unlisted_same r' hlive hnot.1]
  · intro r' hmem
    rw [hr.listed_eq, List.mem_append, List.mem_singleton] at hmem
    exact (hr.live_iff r').mpr (hmem.imp_left (hp.listed_live r'))
  · rw [hr.listed_eq]
    exact List.Nodup.append hp.listed_nodup (List.nodup_singleton r)
      (List.disjoint_singleton.mpr hr.not_listed)
  · rw [hr.listed_eq]
    refine List.rel_append ?_ (List.Forall₂.cons hr.built List.Forall₂.nil)
    exact forall₂_imp_of_mem hp.entries fun _ _ r' hr' => Built.of_read_eq (hsame r' hr')
  · intro k r' hk
    rw [hr.listed_eq, List.map_append, List.mem_append, List.mem_append, hp.matched k r' hk]
    simp only [List.mem_singleton, List.map_cons, List.map_nil]
    constructor
    · rintro (hseen | rfl)
      · exact Or.inl hseen
      · exact Or.inr (hkeyed.key_unique hk (hr.live_known (hkeyed _ _ hk).1))
    · rintro (hseen | rfl)
      · exact Or.inl hseen
      · exact (hr.takes r' hk).symm
  · rw [hr.added_eq, hr.listed_eq, List.filter_append, hp.added_eq]
    by_cases hlive : h₀.Live r <;> simp [hlive]
  · rw [hr.byKey_eq, hr.listed_eq]
    exact UnorderedMap.lookup_insertNew_sound hp.byKey_sound
      (fun r' hr' => congrArg bp.keyOf (hsame r' hr')) hcarries.1
  · intro k hk
    rw [hr.byKey_eq]
    exact UnorderedMap.isSome_lookup_insertNew ((hseen k hk).symm.imp_right (hp.byKey_complete k))
  · rw [hr.byId_eq, hr.listed_eq]
    exact UnorderedMap.lookup_insertNew_sound hp.byId_sound
      (fun r' hr' => congrArg bp.identOf (hsame r' hr')) hcarries.2
  · intro k hk
    rw [hr.byId_eq]
    exact UnorderedMap.isSome_lookup_insertNew
      ((hseen k hk).symm.imp (congrArg bp.ident) (hp.byId_complete k))

/-- A key in the new map is the key of a visited record. -/
theorem Progress.key_of_byKey {bp : Blueprint ρ κ ι α} {m₀ : UnorderedMap κ (Ref α)}
    {h₀ : Heap α} {seen : List ρ} {t : Intake κ ι α} (hkeyed : bp.Keyed m₀ h₀)
    (hp : Progress bp m₀ h₀ seen t) {k : κ} {r : Ref α} (hlookup : t.byKey.lookup k = some r) :
    k ∈ seen.map bp.key := by
  obtain ⟨hmem, hkey⟩ := hp.byKey_sound k r hlookup
  obtain ⟨rec, hrec, hbuilt⟩ := forall₂_exists_of_mem_right hp.entries hmem
  rw [← hkey, (hbuilt.carries hkeyed).1]
  exact List.mem_map_of_mem hrec

/-- **The whole loop.** After all records the invariant relates the state to the
complete snapshot. -/
theorem Progress.visitAll {bp : Blueprint ρ κ ι α} {m₀ : UnorderedMap κ (Ref α)} {h₀ : Heap α}
    (hkeyed : bp.Keyed m₀ h₀) (recs : List ρ) :
    Progress bp m₀ h₀ recs ((Intake.start m₀ h₀).visitAll bp recs) := by
  induction recs using List.reverseRecOn with
  | nil => exact Progress.start bp m₀ h₀
  | append_singleton recs rec ih =>
    rw [visitAll_append]
    exact ih.visit hkeyed rec

section Lookup

variable {bp : Blueprint ρ κ ι α} {m₀ : UnorderedMap κ (Ref α)} {h₀ : Heap α}
  (hkeyed : bp.Keyed m₀ h₀)
include hkeyed

/-- A previously known object keeps its key in the new map when the key was visited,
even if several records share it. -/
theorem visitAll_byKey_keeps {k : κ} {r : Ref α} (hk : m₀.lookup k = some r) (recs : List ρ)
    (hmem : k ∈ recs.map bp.key) :
    ((start m₀ h₀ : Intake κ ι α).visitAll bp recs).byKey.lookup k = some r := by
  induction recs using List.reverseRecOn with
  | nil => cases hmem
  | append_singleton recs rec ih =>
    have hp : Progress bp m₀ h₀ recs ((start m₀ h₀ : Intake κ ι α).visitAll bp recs) :=
      Progress.visitAll hkeyed recs
    obtain ⟨r', hr'⟩ := hp.placed hkeyed rec
    rw [visitAll_append]
    show (((start m₀ h₀).visitAll bp recs).visit bp rec).byKey.lookup k = some r
    rw [hr'.byKey_eq]
    by_cases hseen : k ∈ recs.map bp.key
    · exact UnorderedMap.lookup_insertNew_of_some (ih hseen) _ _
    · have hkey : k = bp.key rec := by
        simpa [hseen] using (List.map_append ▸ hmem : k ∈ recs.map bp.key ++ [rec].map bp.key)
      subst hkey
      have hnone : ((start m₀ h₀ : Intake κ ι α).visitAll bp recs).byKey.lookup (bp.key rec) =
          none :=
        Option.eq_none_iff_forall_ne_some.mpr fun r'' hr'' => hseen (hp.key_of_byKey hkeyed hr'')
      rw [UnorderedMap.lookup_insertNew, if_pos rfl, hnone, Option.getD_none,
        (hr'.takes r hk).resolve_right hseen]

/-- The new map holds, for each key, the object of the first record with that key. -/
theorem visitAll_byKey_lookup (k : κ) (recs : List ρ) :
    ((start m₀ h₀ : Intake κ ι α).visitAll bp recs).byKey.lookup k =
      ((recs.zip ((start m₀ h₀ : Intake κ ι α).visitAll bp recs).listed).find?
        (fun e => bp.key e.1 = k)).map Prod.snd := by
  induction recs using List.reverseRecOn with
  | nil => rfl
  | append_singleton recs rec ih =>
    have hp : Progress bp m₀ h₀ recs ((start m₀ h₀ : Intake κ ι α).visitAll bp recs) :=
      Progress.visitAll hkeyed recs
    obtain ⟨r, hr⟩ := hp.placed hkeyed rec
    have hvisit : (start m₀ h₀ : Intake κ ι α).visitAll bp (recs ++ [rec]) =
        ((start m₀ h₀).visitAll bp recs).visit bp rec := visitAll_append _ _ _ _
    rw [hvisit, hr.byKey_eq, hr.listed_eq, UnorderedMap.lookup_insertNew,
      List.zip_append hp.entries.length_eq, List.find?_append]
    by_cases hk : k = bp.key rec
    · subst hk
      rw [if_pos rfl, ih]
      cases List.find? _ (recs.zip _) <;> simp
    · rw [if_neg hk, ih]
      cases List.find? _ (recs.zip _) <;> simp [Ne.symm hk]

end Lookup

end Intake

end Library
