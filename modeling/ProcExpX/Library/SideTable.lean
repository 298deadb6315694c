import ProcExpX.Library.UnorderedMap

/-!
# A table beside a list

A list of rows has keys, and a hash map beside it holds an entry for some of the
rows, under their keys. Entries are made on demand and remember the row they were
made for, so they have to be taken out together with it.
-/

namespace Library

variable {κ ρ ε : Type} [DecidableEq κ] {key : ρ → κ} {owner : ε → ρ} {rows : List ρ}
  {t : UnorderedMap κ ε}

/-- Every entry of the table belongs to a row and stands under the key of that row. -/
def Beside (key : ρ → κ) (owner : ε → ρ) (rows : List ρ) (t : UnorderedMap κ ε) : Prop :=
  ∀ k e, t.lookup k = some e → owner e ∈ rows ∧ key (owner e) = k

namespace Beside

/-- An empty table stands beside any list. -/
theorem empty : Beside key owner rows ∅ := by
  intro k e hlookup
  simp at hlookup

/-- Only the keys of the rows matter. -/
theorem congr_key {key' : ρ → κ} (h : Beside key owner rows t)
    (hkey : ∀ r ∈ rows, key' r = key r) : Beside key' owner rows t := by
  intro k e hlookup
  obtain ⟨hmem, hk⟩ := h k e hlookup
  exact ⟨hmem, (hkey _ hmem).trans hk⟩

/-- With distinct keys the entry under the key of a row belongs to that row. -/
theorem owner_eq (h : Beside key owner rows t) (hkeys : (rows.map key).Nodup) {r : ρ} {e : ε}
    (hr : r ∈ rows) (hlookup : t.lookup (key r) = some e) : owner e = r := by
  obtain ⟨hmem, hkey⟩ := h _ e hlookup
  exact List.inj_on_of_nodup_map hkeys hmem hr hkey

/-- There is no entry under a key that no row has. -/
theorem lookup_none (h : Beside key owner rows t) {k : κ} (hk : k ∉ rows.map key) :
    t.lookup k = none := by
  cases hlookup : t.lookup k with
  | none => rfl
  | some e =>
    obtain ⟨hmem, hkey⟩ := h k e hlookup
    exact absurd (hkey ▸ List.mem_map_of_mem hmem) hk

/-- Write the entry of a row, whether or not it had one. -/
theorem write (h : Beside key owner rows t) {t' : UnorderedMap κ ε} {r : ρ} {e : ε}
    (hr : r ∈ rows) (howner : owner e = r)
    (ht' : ∀ k, t'.lookup k = if k = key r then some e else t.lookup k) :
    Beside key owner rows t' := by
  intro k e' hlookup
  rw [ht'] at hlookup
  by_cases hk : k = key r
  · rw [if_pos hk, Option.some.injEq] at hlookup
    subst hlookup
    exact ⟨howner.symm ▸ hr, by rw [howner, hk]⟩
  · rw [if_neg hk] at hlookup
    exact h k e' hlookup

/-- Write an entry under the key of its row, perhaps while rows are added. -/
theorem put (h : Beside key owner rows t) {t' : UnorderedMap κ ε} {rows' : List ρ} {k₀ : κ} {e : ε}
    (hrows : ∀ r ∈ rows, r ∈ rows') (howner : owner e ∈ rows') (hkey : key (owner e) = k₀)
    (ht' : ∀ k, t'.lookup k = if k = k₀ then some e else t.lookup k) :
    Beside key owner rows' t' := by
  intro k e' hlookup
  rw [ht'] at hlookup
  by_cases hk : k = k₀
  · rw [if_pos hk, Option.some.injEq] at hlookup
    subst hlookup
    exact ⟨howner, hkey.trans hk.symm⟩
  · rw [if_neg hk] at hlookup
    exact (h k e' hlookup).imp_left (hrows _)

/-- Take out a row together with its entry. -/
theorem remove (h : Beside key owner rows t) {t' : UnorderedMap κ ε} {rows' : List ρ} {r : ρ}
    (hrows : ∀ r' ∈ rows, r' ≠ r → r' ∈ rows')
    (ht' : ∀ k, t'.lookup k = if k = key r then none else t.lookup k) :
    Beside key owner rows' t' := by
  intro k e hlookup
  rw [ht'] at hlookup
  by_cases hk : k = key r
  · rw [if_pos hk] at hlookup
    cases hlookup
  · rw [if_neg hk] at hlookup
    obtain ⟨hmem, hkey⟩ := h k e hlookup
    refine ⟨hrows _ hmem fun heq => hk ?_, hkey⟩
    rw [← hkey, heq]

end Beside

end Library
