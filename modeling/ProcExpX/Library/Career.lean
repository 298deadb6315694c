import Mathlib.Order.Lattice
import ProcExpX.Library.Ledger
import ProcExpX.Library.Rebuild

/-!
# The career of an object

Over a sequence of rebuilds each object of a roster is built once and reported as added
then, is listed until its key has no record, is reported as removed, and after that is
neither listed nor reported nor written again.

A name is given again when the career of its bearer is over. Whoever only remembers the name
of a parent and asks later who bears it may be led to somebody else. The bearer is the parent
precisely if he is older than the child.
-/

namespace Library

variable {ρ κ ι α : Type} {σ β : Type*} [DecidableEq κ] [DecidableEq ι]

namespace Roster

/-- What a roster and the next one have to do with each other, object by object. -/
structure Turnover (g g' : Roster κ ι α) : Prop where
  /-- Listed objects exist. -/
  live_of_listed : ∀ r ∈ g.all, g.heap.Live r
  /-- Existing objects go on to exist, and the others come into being when they are added. -/
  live_iff : ∀ r, g'.heap.Live r ↔ g.heap.Live r ∨ r ∈ g'.added
  /-- The added objects are the listed ones that did not exist before. -/
  mem_added : ∀ r, r ∈ g'.added ↔ r ∈ g'.all ∧ ¬ g.heap.Live r
  /-- The removed objects are those that are listed no more. -/
  mem_removed : ∀ r, r ∈ g'.removed ↔ r ∈ g.all ∧ r ∉ g'.all
  /-- An object that existed before is listed only if it was listed before. -/
  listed_before : ∀ r ∈ g'.all, g.heap.Live r → r ∈ g.all
  /-- An object that is not listed is not written. -/
  read_unlisted : ∀ r, g.heap.Live r → r ∉ g'.all → g'.heap.read r = g.heap.read r
  /-- No object is added twice. -/
  added_nodup : g'.added.Nodup
  /-- No object is removed twice. -/
  removed_nodup : g'.removed.Nodup

end Roster

namespace Intake

/-- The objects that exist after some records are those from before and those listed. -/
theorem visitAll_live_iff {bp : Blueprint ρ κ ι α} {m₀ : UnorderedMap κ (Ref α)} {h₀ : Heap α}
    (hkeyed : bp.Keyed m₀ h₀) (recs : List ρ) (r : Ref α) :
    ((start m₀ h₀ : Intake κ ι α).visitAll bp recs).heap.Live r ↔
      h₀.Live r ∨ r ∈ ((start m₀ h₀ : Intake κ ι α).visitAll bp recs).listed := by
  induction recs using List.reverseRecOn with
  | nil => simp [visitAll, start]
  | append_singleton recs rec ih =>
    have hp : Progress bp m₀ h₀ recs ((start m₀ h₀ : Intake κ ι α).visitAll bp recs) :=
      Progress.visitAll hkeyed recs
    obtain ⟨r', hr'⟩ := hp.placed hkeyed rec
    have hvisit : (start m₀ h₀ : Intake κ ι α).visitAll bp (recs ++ [rec]) =
        ((start m₀ h₀).visitAll bp recs).visit bp rec := visitAll_append _ _ _ _
    rw [hvisit, hr'.live_iff, hr'.listed_eq, ih, List.mem_append, List.mem_singleton, or_assoc]

end Intake

namespace Roster

/-- The objects that exist after a rebuild are those from before and those listed. -/
theorem RebuildsTo.live_iff {bp : Blueprint ρ κ ι α} {order : IterationOrder}
    {g g' : Roster κ ι α} {recs : List ρ} (h : g.RebuildsTo bp order recs g') {r : Ref α} :
    g'.heap.Live r ↔ g.heap.Live r ∨ r ∈ g'.all := by
  have hlive := Intake.visitAll_live_iff h.keyed recs r
  have heq := h.eq_rebuild
  subst heq
  exact hlive

/-- **One rebuild** of a roster with distinct keys turns it over. -/
theorem RebuildsTo.turnover {bp : Blueprint ρ κ ι α} {order : IterationOrder}
    {g g' : Roster κ ι α} {recs : List ρ} (h : g.RebuildsTo bp order recs g') {ks : List κ}
    (hg : g.Holds bp.toIdentity ks) (hks : ks.Nodup) : g.Turnover g' := by
  have hadded : ∀ r, r ∈ g'.added ↔ r ∈ g'.all ∧ ¬ g.heap.Live r := by
    intro r
    rw [h.added_eq, List.mem_filter, decide_eq_true_eq]
  refine ⟨hg.all_live, fun r => ?_, hadded, fun r => ?_, fun r hr hlive => ?_,
    fun r => h.read_of_unlisted, ?_, h.removed_nodup⟩
  · rw [hadded, h.live_iff]
    by_cases hr : g.heap.Live r <;> simp [hr]
  · rw [h.mem_removed]
    constructor
    · rintro ⟨k, hlookup, hk⟩
      exact ⟨hg.byKey_mem k r hlookup, mt (h.known_mem hlookup).mp hk⟩
    · rintro ⟨hr, hgone⟩
      have hlookup := (hg.lookup_iff hks).mpr ⟨hr, rfl⟩
      exact ⟨_, hlookup, mt (h.known_mem hlookup).mpr hgone⟩
  · exact hg.byKey_mem _ r (h.lookup_of_live hr hlive)
  · rw [h.added_eq]
    exact h.holds.all_nodup.filter _

/-- Whether an object exists, as a number. -/
def existing (r : Ref α) (g : Roster κ ι α) : ℕ := if g.heap.Live r then 1 else 0

/-- Whether an object is listed, as a number. -/
def listing (r : Ref α) (g : Roster κ ι α) : ℕ := if r ∈ g.all then 1 else 0

omit [DecidableEq κ] [DecidableEq ι] in
/-- In a turnover an object comes into being precisely when it is added. -/
theorem Turnover.existing_eq {g g' : Roster κ ι α} (h : g.Turnover g') (r : Ref α) :
    existing r g + g'.added.count r = existing r g' := by
  unfold existing
  rw [List.Nodup.count h.added_nodup]
  by_cases hlive : g.heap.Live r
  · have hold : r ∉ g'.added := fun hr => ((h.mem_added r).mp hr).2 hlive
    rw [if_pos hlive, if_neg hold, if_pos ((h.live_iff r).mpr (Or.inl hlive))]
  · by_cases hadded : r ∈ g'.added
    · rw [if_neg hlive, if_pos hadded, if_pos ((h.live_iff r).mpr (Or.inr hadded))]
    · rw [if_neg hlive, if_neg hadded, if_neg]
      exact mt (h.live_iff r).mp (not_or.mpr ⟨hlive, hadded⟩)

omit [DecidableEq κ] [DecidableEq ι] in
/-- In a turnover an object enters the list when it is added and leaves it when it is
removed. -/
theorem Turnover.listing_eq {g g' : Roster κ ι α} (h : g.Turnover g') (r : Ref α) :
    listing r g + g'.added.count r = g'.removed.count r + listing r g' := by
  have hadded := h.mem_added r
  have hremoved := h.mem_removed r
  unfold listing
  rw [List.Nodup.count h.added_nodup, List.Nodup.count h.removed_nodup]
  by_cases hbefore : r ∈ g.all
  · have hlive := h.live_of_listed r hbefore
    have hold : r ∉ g'.added := fun hr => (hadded.mp hr).2 hlive
    by_cases hafter : r ∈ g'.all
    · have hkept : r ∉ g'.removed := fun hr => (hremoved.mp hr).2 hafter
      rw [if_pos hbefore, if_neg hold, if_neg hkept, if_pos hafter]
    · rw [if_pos hbefore, if_neg hold, if_pos (hremoved.mpr ⟨hbefore, hafter⟩), if_neg hafter]
  · have hkept : r ∉ g'.removed := fun hr => hbefore (hremoved.mp hr).1
    by_cases hafter : r ∈ g'.all
    · have hnew := hadded.mpr ⟨hafter, fun hlive => hbefore (h.listed_before r hafter hlive)⟩
      rw [if_neg hbefore, if_pos hnew, if_neg hkept, if_pos hafter]
    · have hold : r ∉ g'.added := fun hr => hafter (hadded.mp hr).1
      rw [if_neg hbefore, if_neg hold, if_neg hkept, if_neg hafter]

end Roster

section Careers

variable (step : σ → β → σ) (roster : σ → Roster κ ι α) (reports : β → Bool)

/-- How often an object is reported as added along a run. Not every step makes a report. -/
def addedTimes (r : Ref α) : σ → List β → ℕ :=
  total step fun s b => if reports b then (roster (step s b)).added.count r else 0

/-- How often an object is reported as removed along a run. -/
def removedTimes (r : Ref α) : σ → List β → ℕ :=
  total step fun s b => if reports b then (roster (step s b)).removed.count r else 0

/-- A step that reports turns the roster over, and any other leaves it as it is. -/
def Turns (s : σ) (b : β) : Prop :=
  if reports b then (roster s).Turnover (roster (step s b)) else roster (step s b) = roster s

/-- The career of an object along a run: it is reported as added once if it has come into
being; it is reported as removed once if moreover it is not listed; and from then on it is
neither listed nor written. -/
structure Career (s : σ) (run : List β) (r : Ref α) : Prop where
  /-- The reports as added. -/
  added : addedTimes step roster reports r s run =
    Roster.existing r (roster (run.foldl step s))
  /-- The reports as removed. -/
  removed : addedTimes step roster reports r s run =
    removedTimes step roster reports r s run + Roster.listing r (roster (run.foldl step s))
  /-- The end. -/
  ended : ∀ before after, run = before ++ after →
    (roster (before.foldl step s)).heap.Live r → r ∉ (roster (before.foldl step s)).all →
      (roster (run.foldl step s)).heap.Live r ∧ r ∉ (roster (run.foldl step s)).all ∧
        (roster (run.foldl step s)).heap.read r = (roster (before.foldl step s)).heap.read r

variable {step roster reports} {invariant : σ → Prop} {allowed : β → Prop}
  (hstep : ∀ s b, invariant s → allowed b → invariant (step s b) ∧ Turns step roster reports s b)
include hstep

omit [DecidableEq κ] [DecidableEq ι] in
/-- An object that exists and is not listed stays so and is not written any more. -/
theorem unlisted_stays {s : σ} (hs : invariant s) {r : Ref α} (hlive : (roster s).heap.Live r)
    (hunlisted : r ∉ (roster s).all) {run : List β} (hrun : ∀ b ∈ run, allowed b) :
    (roster (run.foldl step s)).heap.Live r ∧ r ∉ (roster (run.foldl step s)).all ∧
      (roster (run.foldl step s)).heap.read r = (roster s).heap.read r := by
  induction run generalizing s with
  | nil => exact ⟨hlive, hunlisted, rfl⟩
  | cons b run ih =>
    obtain ⟨hb, hrest⟩ := List.forall_mem_cons.mp hrun
    obtain ⟨hs', hturns⟩ := hstep s b hs hb
    have hnext : (roster (step s b)).heap.Live r ∧ r ∉ (roster (step s b)).all ∧
        (roster (step s b)).heap.read r = (roster s).heap.read r := by
      unfold Turns at hturns
      split at hturns
      · have hgone : r ∉ (roster (step s b)).all :=
          fun hr => hunlisted (hturns.listed_before r hr hlive)
        exact ⟨(hturns.live_iff r).mpr (Or.inl hlive), hgone,
          hturns.read_unlisted r hlive hgone⟩
      · rw [hturns]
        exact ⟨hlive, hunlisted, rfl⟩
    obtain ⟨hlive', hunlisted', hread⟩ := ih hs' hnext.1 hnext.2.1 hrest
    exact ⟨hlive', hunlisted', hread.trans hnext.2.2⟩

omit [DecidableEq κ] [DecidableEq ι] in
/-- **Careers.** Along a run from a state without objects every object has its career. -/
theorem career {s : σ} (hs : invariant s) {r : Ref α} (hdead : ¬ (roster s).heap.Live r)
    (hnone : r ∉ (roster s).all) {run : List β} (hrun : ∀ b ∈ run, allowed b) :
    Career step roster reports s run r := by
  have hexisting := @total_balance σ β step invariant allowed
    (fun s => Roster.existing r (roster s))
    (fun s b => if reports b then (roster (step s b)).added.count r else 0) (fun _ _ => 0)
    (fun s b hs hb => by
      obtain ⟨hs', hturns⟩ := hstep s b hs hb
      refine ⟨hs', ?_⟩
      unfold Turns at hturns
      split at hturns
      · rw [if_pos ‹_›, Nat.zero_add, hturns.existing_eq]
      · rw [if_neg ‹_›, hturns, Nat.zero_add, Nat.add_zero]) s hs run hrun
  have hlisting := @total_balance σ β step invariant allowed
    (fun s => Roster.listing r (roster s))
    (fun s b => if reports b then (roster (step s b)).added.count r else 0)
    (fun s b => if reports b then (roster (step s b)).removed.count r else 0)
    (fun s b hs hb => by
      obtain ⟨hs', hturns⟩ := hstep s b hs hb
      refine ⟨hs', ?_⟩
      unfold Turns at hturns
      split at hturns
      · rw [if_pos ‹_›, if_pos ‹_›, hturns.listing_eq]
      · rw [if_neg ‹_›, if_neg ‹_›, hturns, Nat.zero_add, Nat.add_zero]) s hs run hrun
  have hbefore : Roster.existing r (roster s) = 0 := if_neg hdead
  have hfree : Roster.listing r (roster s) = 0 := if_neg hnone
  have hcount := hexisting.2
  have hlist := hlisting.2
  rw [total_zero, hbefore, Nat.zero_add, Nat.zero_add] at hcount
  rw [hfree, Nat.zero_add] at hlist
  refine ⟨hcount, hlist, ?_⟩
  rintro before after rfl hlive hunlisted
  obtain ⟨hfirst, hlast⟩ := List.forall_mem_append.mp hrun
  have hmiddle : invariant (before.foldl step s) := by
    refine List.foldlRecOn (motive := invariant) before step hs fun s' hs' b hb => ?_
    exact (hstep s' b hs' (hfirst b hb)).1
  rw [List.foldl_append]
  exact unlisted_stays hstep hmiddle hlive hunlisted hlast

end Careers

section Names

/-- The bearers of names over time and their parents. -/
structure Genealogy {β ν τ : Type*} [LinearOrder τ] (name : β → ν) (born : β → τ) where
  /-- Whether a bearer lives at a time. -/
  lives : τ → β → Prop
  /-- The parent of a bearer, if there is one. -/
  parent : β → Option β
  /-- Nobody lives before being born. -/
  born_le : ∀ {t b}, lives t b → born b ≤ t
  /-- Whoever lives has lived since being born. -/
  lives_since : ∀ {t t' b}, lives t b → born b ≤ t' → t' ≤ t → lives t' b
  /-- At a time a name has one bearer. -/
  one_bearer : ∀ {t b b'}, lives t b → lives t b' → name b = name b' → b = b'
  /-- A parent lives when the child is born. -/
  parent_lives : ∀ {b p}, parent b = some p → lives (born b) p
  /-- A parent is older than the child. -/
  parent_older : ∀ {b p}, parent b = some p → born p < born b

namespace Genealogy

variable {β ν τ : Type*} [LinearOrder τ] {name : β → ν} {born : β → τ}
  (g : Genealogy name born) {t : τ} {b p q : β}

/-- **Older than the child.** Whoever bears the name of the parent after the child has been
born is the parent precisely if he is older than the child. -/
theorem bearer_eq_parent_iff (hparent : g.parent b = some p) (hq : g.lives t q)
    (hname : name q = name p) (ht : born b ≤ t) : q = p ↔ born q < born b := by
  constructor
  · rintro rfl
    exact g.parent_older hparent
  · intro holder
    have hthen : g.lives (born b) q := g.lives_since hq (le_of_lt holder) ht
    exact g.one_bearer hthen (g.parent_lives hparent) hname

end Genealogy

end Names

end Library
