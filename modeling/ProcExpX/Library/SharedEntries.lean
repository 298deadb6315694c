import Mathlib.Data.List.Count
import Mathlib.Data.List.Perm.Basic
import ProcExpX.Library.UnorderedMap

/-!
# Rows that share entries

A list of rows has keys, and a hash map beside it holds one entry for all the rows of a
key. The entry of a key that is not used any more is marked, and a marked entry goes
together with the first row that is found under its key, whichever row that is. No key in
use loses its last row that way, as long as each one whose entry is still marked has a row
to spare.
-/

namespace Library

variable {κ ρ ε : Type} [DecidableEq κ]

/-- The used keys are represented by rows, and so are the entries. -/
structure Represented (key : ρ → κ) (marked : ε → Bool) (used : κ → Prop) (rows : List ρ)
    (t : UnorderedMap κ ε) : Prop where
  /-- There is a row for each entry. -/
  entry_row : ∀ k e, t.lookup k = some e → 0 < (rows.map key).count k
  /-- There is a row for each used key. -/
  used_row : ∀ k, used k → 0 < (rows.map key).count k
  /-- There are two if its entry is marked. -/
  spare_row : ∀ k e, used k → t.lookup k = some e → marked e = true → 1 < (rows.map key).count k

namespace Represented

variable {key : ρ → κ} {marked : ε → Bool} {used used' : κ → Prop} {rows rows' : List ρ}
  {t t' : UnorderedMap κ ε}

/-- Rows for the used keys without any entries. -/
theorem fresh (hused : ∀ k, used k → k ∈ rows.map key) (hnone : ∀ k, t.lookup k = none) :
    Represented key marked used rows t where
  entry_row k e hlookup := by
    rw [hnone] at hlookup
    cases hlookup
  used_row k hk := List.count_pos_iff.mpr (hused k hk)
  spare_row k e _ hlookup := by
    rw [hnone] at hlookup
    cases hlookup

section Steps

variable (h : Represented key marked used rows t)
include h

/-- Fewer keys are used. -/
theorem mono (hused : ∀ k, used' k → used k) : Represented key marked used' rows t :=
  ⟨h.entry_row, fun k hk => h.used_row k (hused k hk),
    fun k e hk => h.spare_row k e (hused k hk)⟩

/-- Only the keys of the rows matter. -/
theorem congr_key {key' : ρ → κ} (hkey : ∀ r ∈ rows, key' r = key r) :
    Represented key' marked used rows t := by
  have hmap : rows.map key' = rows.map key := List.map_congr_left hkey
  refine ⟨?_, ?_, ?_⟩ <;> rw [hmap]
  · exact h.entry_row
  · exact h.used_row
  · exact h.spare_row

/-- The order of the rows does not matter. -/
theorem perm (hperm : rows'.Perm rows) : Represented key marked used rows' t := by
  have hcount := (hperm.map key).count_eq
  refine ⟨fun k => ?_, fun k => ?_, fun k => ?_⟩ <;> rw [hcount k]
  · exact h.entry_row k
  · exact h.used_row k
  · exact h.spare_row k

/-- Write the entry of a row without marking it anew. -/
theorem write {r : ρ} {e : ε} (hr : r ∈ rows)
    (hmark : marked e = true → ∃ e₀, t.lookup (key r) = some e₀ ∧ marked e₀ = true)
    (ht' : ∀ k, t'.lookup k = if k = key r then some e else t.lookup k) :
    Represented key marked used rows t' := by
  refine ⟨fun k e' hlookup => ?_, h.used_row, fun k e' hk hlookup hmarked => ?_⟩
  · rw [ht'] at hlookup
    by_cases heq : k = key r
    · rw [heq]
      exact List.count_pos_iff.mpr (List.mem_map_of_mem hr)
    · rw [if_neg heq] at hlookup
      exact h.entry_row k e' hlookup
  · rw [ht'] at hlookup
    by_cases heq : k = key r
    · rw [if_pos heq, Option.some.injEq] at hlookup
      subst heq hlookup
      obtain ⟨e₀, hbefore, hold⟩ := hmark hmarked
      exact h.spare_row _ e₀ hk hbefore hold
    · rw [if_neg heq] at hlookup
      exact h.spare_row k e' hk hlookup hmarked

/-- Add a row, whose key is used from then on. A mark that its entry has stays. -/
theorem add {r : ρ} {e : ε}
    (hmark : marked e = true → ∃ e₀, t.lookup (key r) = some e₀ ∧ marked e₀ = true)
    (ht' : ∀ k, t'.lookup k = if k = key r then some e else t.lookup k) :
    Represented key marked (fun k => used k ∨ k = key r) (rows ++ [r]) t' := by
  have hcount : ∀ k, ((rows ++ [r]).map key).count k =
      (rows.map key).count k + if k = key r then 1 else 0 := by
    intro k
    rw [List.map_append, List.count_append, List.map_singleton, List.count_singleton]
    simp only [beq_iff_eq, @eq_comm _ (key r) k]
  refine ⟨fun k e' hlookup => ?_, fun k hk => ?_, fun k e' hk hlookup hmarked => ?_⟩
  · rw [hcount]
    by_cases heq : k = key r
    · rw [if_pos heq]
      omega
    · rw [ht', if_neg heq] at hlookup
      have hrow := h.entry_row k e' hlookup
      omega
  · rw [hcount]
    by_cases heq : k = key r
    · rw [if_pos heq]
      omega
    · have hrow := h.used_row k (hk.resolve_right heq)
      omega
  · rw [ht'] at hlookup
    rw [hcount]
    by_cases heq : k = key r
    · rw [if_pos heq, Option.some.injEq] at hlookup
      subst hlookup
      obtain ⟨e₀, hbefore, _⟩ := hmark hmarked
      have hrow := h.entry_row _ e₀ hbefore
      rw [if_pos heq, heq]
      omega
    · rw [if_neg heq] at hlookup
      have hrow := h.spare_row k e' (hk.resolve_right heq) hlookup hmarked
      omega

/-- Mark the entry of a used key, which is used no more. -/
theorem retire {r : ρ} {e : ε} (hr : used (key r))
    (ht' : ∀ k, t'.lookup k = if k = key r then some e else t.lookup k) :
    Represented key marked (fun k => used k ∧ k ≠ key r) rows t' := by
  refine ⟨fun k e' hlookup => ?_, fun k hk => h.used_row k hk.1,
    fun k e' hk hlookup hmarked => ?_⟩
  · by_cases heq : k = key r
    · rw [heq]
      exact h.used_row _ hr
    · rw [ht', if_neg heq] at hlookup
      exact h.entry_row k e' hlookup
  · rw [ht', if_neg hk.2] at hlookup
    exact h.spare_row k e' hk.1 hlookup hmarked

/-- **Take out a row** under a marked key, together with the entry. -/
theorem remove {r : ρ} {e : ε} {i : ℕ} (hr : rows[i]? = some r)
    (hlookup : t.lookup (key r) = some e) (hmarked : marked e = true)
    (ht' : ∀ k, t'.lookup k = if k = key r then none else t.lookup k) :
    Represented key marked used (rows.eraseIdx i) t' := by
  obtain ⟨hi, hget⟩ := List.getElem?_eq_some_iff.mp hr
  have hperm := ((List.getElem_cons_eraseIdx_perm hi).map key).count_eq
  have hcount : ∀ k, (rows.map key).count k =
      ((rows.eraseIdx i).map key).count k + if k = key r then 1 else 0 := by
    intro k
    rw [← hperm k, List.map_cons, List.count_cons, hget]
    simp only [beq_iff_eq, @eq_comm _ (key r) k]
  refine ⟨fun k e' hafter => ?_, fun k hk => ?_, fun k e' hk hafter hmarked' => ?_⟩
  · rw [ht'] at hafter
    by_cases heq : k = key r
    · rw [if_pos heq] at hafter
      cases hafter
    · rw [if_neg heq] at hafter
      have hrow := h.entry_row k e' hafter
      rwa [hcount, if_neg heq] at hrow
  · by_cases heq : k = key r
    · have hrow := h.spare_row k e hk (heq ▸ hlookup) hmarked
      rw [hcount, if_pos heq] at hrow
      omega
    · have hrow := h.used_row k hk
      rwa [hcount, if_neg heq] at hrow
  · rw [ht'] at hafter
    by_cases heq : k = key r
    · rw [if_pos heq] at hafter
      cases hafter
    · rw [if_neg heq] at hafter
      have hrow := h.spare_row k e' hk hafter hmarked'
      rwa [hcount, if_neg heq] at hrow

end Steps

end Represented

end Library
