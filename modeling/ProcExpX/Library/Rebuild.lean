import ProcExpX.Library.Roster

/-!
# Rebuilding a roster

A roster is rebuilt from the records of a snapshot by the loop over the records; what
the loop leaves unmatched is removed. The rebuilt roster holds the keys of the records
whatever the one before. Keys are assumed distinct only where a lemma says so.
-/

namespace Library.Roster

variable {ρ κ ι α : Type} [DecidableEq κ] [DecidableEq ι]

/-- The roster that a finished loop leaves behind. -/
def ofIntake (order : IterationOrder) (t : Intake κ ι α) : Roster κ ι α :=
  { byKey := t.byKey
    byId := t.byId
    all := t.listed
    added := t.added
    removed := t.known.values order
    heap := t.heap }

/-- Rebuild a roster from the records of a snapshot. -/
def rebuild (bp : Blueprint ρ κ ι α) (order : IterationOrder) (g : Roster κ ι α)
    (recs : List ρ) : Roster κ ι α :=
  ofIntake order ((Intake.start g.byKey g.heap).visitAll bp recs)

/-- The roster `g`, in which objects carry their keys, is rebuilt into `g'`. -/
structure RebuildsTo (bp : Blueprint ρ κ ι α) (order : IterationOrder) (g : Roster κ ι α)
    (recs : List ρ) (g' : Roster κ ι α) : Prop where
  /-- Objects found by key carry that key. -/
  keyed : bp.Keyed g.byKey g.heap
  /-- The rebuilt roster. -/
  eq_rebuild : g' = g.rebuild bp order recs

section RebuildsTo

variable {bp : Blueprint ρ κ ι α} {order : IterationOrder} {g g' : Roster κ ι α} {recs : List ρ}
  (h : g.RebuildsTo bp order recs g')
include h

/-- The rebuilt roster is what a loop that has visited all records leaves behind. -/
theorem RebuildsTo.progress :
    ∃ t, Intake.Progress bp g.byKey g.heap recs t ∧ g' = ofIntake order t :=
  ⟨_, Intake.Progress.visitAll h.keyed recs, h.eq_rebuild⟩

/-- The object at each position was built from the record at that position. -/
theorem RebuildsTo.entries :
    List.Forall₂ (Intake.Built bp g.byKey g.heap g'.heap) recs g'.all := by
  obtain ⟨t, hp, rfl⟩ := h.progress
  exact hp.entries

/-- Every listed object was built from one of the records. -/
theorem RebuildsTo.built {r : Ref α} (hr : r ∈ g'.all) :
    ∃ rec ∈ recs, Intake.Built bp g.byKey g.heap g'.heap rec r :=
  forall₂_exists_of_mem_right h.entries hr

/-- Every listed object carries the key of the record it was built from. -/
theorem RebuildsTo.keyAt_of_built {rec : ρ} {r : Ref α}
    (hbuilt : Intake.Built bp g.byKey g.heap g'.heap rec r) :
    g'.keyAt bp.toIdentity r = bp.key rec :=
  (hbuilt.carries h.keyed).1

/-- **A rebuilt table holds the keys of its records**, whatever the table before. -/
theorem RebuildsTo.holds : g'.Holds bp.toIdentity (recs.map bp.key) := by
  have hkeys : List.Forall₂ (· = ·) (recs.map bp.key) (g'.all.map (g'.keyAt bp.toIdentity)) := by
    rw [List.forall₂_map_left_iff, List.forall₂_map_right_iff]
    exact h.entries.imp fun _ _ hbuilt => (h.keyAt_of_built hbuilt).symm
  rw [List.forall₂_eq_eq_eq] at hkeys
  have hcarry : ∀ r ∈ g'.all, bp.Carries (g'.heap.read r) (g'.keyAt bp.toIdentity r) := by
    intro r hr
    obtain ⟨rec, _, hbuilt⟩ := h.built hr
    obtain ⟨hkey, hident⟩ := hbuilt.carries h.keyed
    exact ⟨rfl, by rw [hident, keyAt, hkey]⟩
  obtain ⟨t, hp, rfl⟩ := h.progress
  refine ⟨hkeys.symm, ?_, fun k r hlookup => (hp.byKey_sound k r hlookup).1, hp.byKey_complete,
    hp.byId_sound, hp.byId_complete, hp.listed_live, hp.listed_nodup, hcarry⟩
  intro k r hlookup
  obtain ⟨hmem, hkey⟩ := hp.byKey_sound k r hlookup
  have hcarries := hcarry r hmem
  rw [show (ofIntake order t).keyAt bp.toIdentity r = k from hkey] at hcarries
  exact ⟨hp.listed_live r hmem, hcarries⟩

/-- A known object is listed precisely when its key has a record. -/
theorem RebuildsTo.known_mem {k : κ} {r : Ref α} (hlookup : g.byKey.lookup k = some r) :
    r ∈ g'.all ↔ k ∈ recs.map bp.key := by
  obtain ⟨t, hp, rfl⟩ := h.progress
  exact hp.matched k r hlookup

/-- **Same object.** A known key with a record is represented by the same object
before and after. -/
theorem RebuildsTo.keeps {k : κ} {r : Ref α} (hlookup : g.byKey.lookup k = some r)
    (hk : k ∈ recs.map bp.key) : g'.byKey.lookup k = some r := by
  rw [h.eq_rebuild]
  exact Intake.visitAll_byKey_keeps h.keyed hlookup recs hk

/-- The object found under a key was built from the first record with that key. -/
theorem RebuildsTo.find {k : κ} {rec : ρ}
    (hfind : recs.find? (fun rec => bp.key rec = k) = some rec) :
    ∃ r, g'.byKey.lookup k = some r ∧ Intake.Built bp g.byKey g.heap g'.heap rec r := by
  have hlookup : g'.byKey.lookup k =
      ((recs.zip g'.all).find? (fun e => bp.key e.1 = k)).map Prod.snd := by
    rw [h.eq_rebuild]
    exact Intake.visitAll_byKey_lookup h.keyed k recs
  have hfst : (recs.zip g'.all).map Prod.fst = recs :=
    List.map_fst_zip (Nat.le_of_eq h.entries.length_eq)
  rw [← hfst, List.find?_map] at hfind
  obtain ⟨e, he, rfl⟩ := Option.map_eq_some_iff.mp hfind
  refine ⟨e.2, ?_, List.forall₂_zip h.entries (List.mem_of_find?_eq_some he)⟩
  rw [hlookup, show (recs.zip g'.all).find? (fun e => bp.key e.1 = k) = some e from he,
    Option.map_some]

/-- Rebuilding frees no object. -/
theorem RebuildsTo.live {r : Ref α} (hlive : g.heap.Live r) : g'.heap.Live r := by
  obtain ⟨t, hp, rfl⟩ := h.progress
  exact lt_of_lt_of_le hlive hp.next_le

/-- An existing object that is not listed is left alone. -/
theorem RebuildsTo.read_of_unlisted {r : Ref α} (hlive : g.heap.Live r) (hr : r ∉ g'.all) :
    g'.heap.read r = g.heap.read r := by
  obtain ⟨t, hp, rfl⟩ := h.progress
  exact hp.unlisted_same r hlive hr

/-- An existing object is left alone or updated from one of the records. -/
theorem RebuildsTo.read_cases {r : Ref α} (hlive : g.heap.Live r) :
    g'.heap.read r = g.heap.read r ∨ ∃ rec, g'.heap.read r = bp.refresh rec (g.heap.read r) := by
  by_cases hr : r ∈ g'.all
  · obtain ⟨rec, _, hbuilt⟩ := h.built hr
    rcases hbuilt with ⟨_, hread⟩ | ⟨hdead, _⟩
    · exact Or.inr ⟨rec, hread⟩
    · exact absurd hlive hdead
  · exact Or.inl (h.read_of_unlisted hlive hr)

/-- What no update changes stays the same for an existing object. -/
theorem RebuildsTo.constant {β : Type} {f : α → β} (hf : ∀ rec a, f (bp.refresh rec a) = f a)
    {r : Ref α} (hlive : g.heap.Live r) : f (g'.heap.read r) = f (g.heap.read r) := by
  rcases h.read_cases hlive with hsame | ⟨rec, hread⟩
  · rw [hsame]
  · rw [hread, hf]

/-- Rebuilding does not change what an existing object is known under. -/
theorem RebuildsTo.keyAt_of_live {r : Ref α} (hlive : g.heap.Live r) :
    g'.keyAt bp.toIdentity r = g.keyAt bp.toIdentity r :=
  h.constant bp.keyOf_refresh hlive

/-- Rebuilding keeps the identifier of an existing object in line with its key. -/
theorem RebuildsTo.carries {r : Ref α} (hlive : g.heap.Live r)
    (hcarry : bp.Carries (g.heap.read r) (g.keyAt bp.toIdentity r)) :
    bp.Carries (g'.heap.read r) (g'.keyAt bp.toIdentity r) := by
  by_cases hr : r ∈ g'.all
  · exact h.holds.all_carry r hr
  · rwa [h.keyAt_of_live hlive, h.read_of_unlisted hlive hr]

/-- The removed objects are exactly the known ones whose key has no record. -/
theorem RebuildsTo.mem_removed {r : Ref α} :
    r ∈ g'.removed ↔ ∃ k, g.byKey.lookup k = some r ∧ k ∉ recs.map bp.key := by
  obtain ⟨t, hp, rfl⟩ := h.progress
  rw [show (ofIntake order t).removed = t.known.values order from rfl, UnorderedMap.mem_values]
  refine exists_congr fun k => ?_
  rw [hp.known_lookup]
  by_cases hk : k ∈ recs.map bp.key
  · rw [if_pos hk]
    exact ⟨fun hnone => (by cases hnone), fun hgone => absurd hk hgone.2⟩
  · rw [if_neg hk]
    exact ⟨fun hlookup => ⟨hlookup, hk⟩, fun hgone => hgone.1⟩

/-- No object is removed twice. -/
theorem RebuildsTo.removed_nodup : g'.removed.Nodup := by
  obtain ⟨t, hp, rfl⟩ := h.progress
  refine UnorderedMap.values_nodup fun k k' r hk hk' => ?_
  rw [hp.known_lookup] at hk hk'
  split at hk
  · cases hk
  · split at hk'
    · cases hk'
    · exact h.keyed.key_unique hk hk'

/-- The added objects are, in order, the listed ones that did not exist before. -/
theorem RebuildsTo.added_eq : g'.added = g'.all.filter (fun r => ¬ g.heap.Live r) := by
  obtain ⟨t, hp, rfl⟩ := h.progress
  exact hp.added_eq

/-- **No false removal.** The removed objects avoid a set of keys precisely when
every known key of that set has a record. -/
theorem RebuildsTo.removed_avoid_iff {ks : List κ} (hg : g.Holds bp.toIdentity ks) (S : Set κ) :
    (∀ r ∈ g'.removed, g'.keyAt bp.toIdentity r ∉ S) ↔
      ∀ k ∈ ks, k ∈ S → k ∈ recs.map bp.key := by
  constructor
  · intro havoid k hk hS
    by_contra hrec
    obtain ⟨r, hr⟩ := Option.isSome_iff_exists.mp (hg.byKey_complete k hk)
    have hkey : g.keyAt bp.toIdentity r = k := (h.keyed k r hr).2.1
    refine havoid r (h.mem_removed.mpr ⟨k, hr, hrec⟩) ?_
    rwa [h.keyAt_of_live (h.keyed k r hr).1, hkey]
  · intro hks r hr hS
    obtain ⟨k, hlookup, hrec⟩ := h.mem_removed.mp hr
    rw [h.keyAt_of_live (h.keyed k r hlookup).1] at hS
    have hkey : g.keyAt bp.toIdentity r = k := (h.keyed k r hlookup).2.1
    have hmem : k ∈ ks :=
      hg.mem_byKey.mp (AList.lookup_isSome.mp (Option.isSome_of_eq_some hlookup))
    exact hrec (hks k hmem (hkey ▸ hS))

/-- Two listed objects with one key stand for two records with that key. -/
theorem RebuildsTo.two_le_count {r r' : Ref α} (hr : r ∈ g'.all) (hr' : r' ∈ g'.all)
    (hne : r ≠ r') (hkey : g'.keyAt bp.toIdentity r = g'.keyAt bp.toIdentity r') :
    2 ≤ (recs.map bp.key).count (g'.keyAt bp.toIdentity r) := by
  rw [← h.holds.keys_eq]
  obtain ⟨l, hperm, hsub⟩ : [r, r'].Subperm g'.all :=
    List.subperm_of_subset (by simpa using hne) (by simp [hr, hr'])
  have hle := (hsub.map (g'.keyAt bp.toIdentity)).count_le (g'.keyAt bp.toIdentity r)
  rw [(hperm.map _).count_eq] at hle
  simpa [← hkey] using hle

/-- A listed object that existed before is the one known under its key. -/
theorem RebuildsTo.lookup_of_live {r : Ref α} (hr : r ∈ g'.all) (hlive : g.heap.Live r) :
    g.byKey.lookup (g'.keyAt bp.toIdentity r) = some r := by
  obtain ⟨rec, _, hbuilt⟩ := h.built hr
  rw [h.keyAt_of_built hbuilt]
  rcases hbuilt with ⟨hlookup, _⟩ | ⟨hdead, _⟩
  · exact hlookup
  · exact absurd hlive hdead

/-- A listed object that existed before was listed before. -/
theorem RebuildsTo.mem_all_of_live {ks : List κ} (hg : g.Holds bp.toIdentity ks) {r : Ref α}
    (hr : r ∈ g'.all) (hlive : g.heap.Live r) : r ∈ g.all :=
  hg.byKey_mem _ r (h.lookup_of_live hr hlive)

/-- **No false addition.** The added objects avoid a set of keys precisely when
every record with a key of that set has a known key, and no two of them share it. -/
theorem RebuildsTo.added_avoid_iff {ks : List κ} (hg : g.Holds bp.toIdentity ks) (S : Set κ) :
    (∀ r ∈ g'.added, g'.keyAt bp.toIdentity r ∉ S) ↔
      ∀ k ∈ recs.map bp.key, k ∈ S → k ∈ ks ∧ (recs.map bp.key).count k ≤ 1 := by
  have hholds := h.holds
  rw [h.added_eq]
  simp only [List.mem_filter, decide_eq_true_eq, and_imp]
  constructor
  · intro havoid k hk hS
    -- every object with this key existed before, so it is the known one
    have hold : ∀ r ∈ g'.all, g'.keyAt bp.toIdentity r = k → g.byKey.lookup k = some r := by
      intro r hr hkey
      by_cases hlive : g.heap.Live r
      · exact hkey ▸ h.lookup_of_live hr hlive
      · exact absurd (hkey ▸ hS) (havoid r hr hlive)
    rw [← hholds.keys_eq] at hk ⊢
    obtain ⟨r, hr, hkey⟩ := List.mem_map.mp hk
    have hlookup := hold r hr hkey
    refine ⟨hg.mem_byKey.mp (AList.lookup_isSome.mp (Option.isSome_of_eq_some hlookup)), ?_⟩
    rw [List.count_eq_countP, List.countP_map, List.countP_eq_length_filter]
    have hsingle : (g'.all.filter ((fun x => x == k) ∘ g'.keyAt bp.toIdentity)) ⊆ [r] := by
      intro r' hr'
      obtain ⟨hmem, hkey'⟩ := List.mem_filter.mp hr'
      have hlookup' := hold r' hmem (by simpa using hkey')
      exact List.mem_singleton.mpr (Option.some.inj (hlookup'.symm.trans hlookup))
    exact List.Nodup.length_le_of_subset (hholds.all_nodup.filter _) hsingle
  · intro hks r hr hdead hS
    obtain ⟨hk, hcount⟩ := hks _ (hholds.keyAt_mem hr) hS
    obtain ⟨r₀, hr₀⟩ := Option.isSome_iff_exists.mp (hg.byKey_complete _ hk)
    have hlive := (h.keyed _ _ hr₀).1
    have hmem := (h.known_mem hr₀).mpr (hholds.keyAt_mem hr)
    have hkey := (h.keyAt_of_live hlive).trans (h.keyed _ _ hr₀).2.1
    have htwo := h.two_le_count hr hmem (fun heq => hdead (heq ▸ hlive)) hkey.symm
    omega

/-- Whatever holds of new objects and survives an update holds of every object
of a rebuilt table. -/
theorem RebuildsTo.forall_all {P : α → Prop} (hcreate : ∀ rec a, P (bp.create rec a))
    (hrefresh : ∀ rec a, P a → P (bp.refresh rec a))
    (hknown : ∀ k r, g.byKey.lookup k = some r → P (g.heap.read r)) :
    ∀ r ∈ g'.all, P (g'.heap.read r) := by
  intro r hr
  obtain ⟨rec, _, ⟨hlookup, hread⟩ | ⟨_, hread⟩⟩ := h.built hr
  · exact hread ▸ hrefresh _ _ (hknown _ r hlookup)
  · exact hread ▸ hcreate _ _

/-- **The removed ones.** When the known keys are distinct, the removed objects
are those of the old table whose key has no record, in some order. -/
theorem RebuildsTo.removed_perm {ks : List κ} (hg : g.Holds bp.toIdentity ks) (hks : ks.Nodup) :
    g'.removed.Perm (g.all.filter (fun r => g.keyAt bp.toIdentity r ∉ recs.map bp.key)) := by
  rw [List.perm_ext_iff_of_nodup h.removed_nodup (hg.all_nodup.filter _)]
  intro r
  rw [h.mem_removed, List.mem_filter, decide_eq_true_eq]
  constructor
  · rintro ⟨k, hlookup, hk⟩
    obtain ⟨hmem, rfl⟩ := (hg.lookup_iff hks).mp hlookup
    exact ⟨hmem, hk⟩
  · rintro ⟨hmem, hk⟩
    exact ⟨_, (hg.lookup_iff hks).mpr ⟨hmem, rfl⟩, hk⟩

/-- With distinct keys an object of the rebuilt table existed before precisely
when its key was known. -/
theorem RebuildsTo.live_iff_known (hdistinct : (recs.map bp.key).Nodup) {r : Ref α}
    (hr : r ∈ g'.all) : g.heap.Live r ↔ g'.keyAt bp.toIdentity r ∈ g.byKey := by
  constructor
  · exact fun hlive =>
      AList.lookup_isSome.mp (Option.isSome_of_eq_some (h.lookup_of_live hr hlive))
  · intro hmem
    obtain ⟨r', hr'⟩ := Option.isSome_iff_exists.mp (AList.lookup_isSome.mpr hmem)
    have hkept := h.keeps hr' (h.holds.keyAt_mem hr)
    obtain ⟨hmem', hkey'⟩ := (h.holds.lookup_iff hdistinct).mp hkept
    rw [← h.holds.key_inj hdistinct hmem' hr hkey']
    exact (h.keyed _ _ hr').1

/-- **The new ones.** With distinct keys the added objects are, in order, those
whose key was not known. -/
theorem RebuildsTo.added (hdistinct : (recs.map bp.key).Nodup) :
    g'.added = g'.all.filter (fun r => g'.keyAt bp.toIdentity r ∉ g.byKey) := by
  rw [h.added_eq]
  refine List.filter_congr fun r hr => ?_
  simp only [h.live_iff_known hdistinct hr]

end RebuildsTo

end Library.Roster
