import Mathlib.Data.Nat.Notation
import Mathlib.Tactic.TypeStar

/-!
# Loops without a bound

A loop repeats its body until the body leaves it. Nothing bounds the number of rounds in
advance, and a body can go wrong. An invariant and a measure that every further round
lowers show that a loop is left, and in which state.
-/

namespace Library

variable {σ : Type*}

/-- How one round of a loop ends. -/
inductive Round (σ : Type*)
  /-- There is another round. -/
  | again (s : σ)
  /-- The loop is left. -/
  | leave (s : σ)
  /-- The body goes wrong. -/
  | wrong

/-- The state in which a loop is left, if that happens within `fuel` rounds and no round
goes wrong. -/
def loop (round : σ → Round σ) : ℕ → σ → Option σ
  | 0, _ => none
  | fuel + 1, s =>
    match round s with
    | .again s' => loop round fuel s'
    | .leave s' => some s'
    | .wrong => none

/-- **The rule for loops.** If every round from a state with the invariant either leaves
the loop or restores the invariant and lowers the measure, then the loop is left, in the
same state for any number of rounds above the measure. -/
theorem loop_leaves {round : σ → Round σ} {Inv Post : σ → Prop} (measure : σ → ℕ)
    (hround : ∀ s, Inv s →
      (∃ s', round s = .again s' ∧ Inv s' ∧ measure s' < measure s) ∨
        ∃ s', round s = .leave s' ∧ Post s') {s : σ} (hs : Inv s) :
    ∃ s', (∀ fuel, measure s < fuel → loop round fuel s = some s') ∧ Post s' := by
  induction hm : measure s using Nat.strongRecOn generalizing s with
  | _ m ih =>
    subst hm
    rcases hround s hs with ⟨s₁, hagain, hs₁, hless⟩ | ⟨s', hleave, hpost⟩
    · obtain ⟨s', hloop, hpost⟩ := ih (measure s₁) hless hs₁ rfl
      refine ⟨s', fun fuel hfuel => ?_, hpost⟩
      obtain ⟨fuel, rfl⟩ := Nat.exists_eq_add_one_of_ne_zero (Nat.ne_zero_of_lt hfuel)
      rw [loop, hagain]
      exact hloop fuel (by omega)
    · refine ⟨s', fun fuel hfuel => ?_, hpost⟩
      obtain ⟨fuel, rfl⟩ := Nat.exists_eq_add_one_of_ne_zero (Nat.ne_zero_of_lt hfuel)
      rw [loop, hleave]

/-- How a loop stands after a number of rounds: still in it, left, or gone wrong. -/
def rounds (round : σ → Round σ) : ℕ → σ → Round σ
  | 0, s => .again s
  | n + 1, s =>
    match round s with
    | .again s' => rounds round n s'
    | .leave s' => .leave s'
    | .wrong => .wrong

/-- **Loops that end.** If every further round keeps the invariant and lowers the measure,
no loop goes on for more rounds than the measure, whether it is left or goes wrong. -/
theorem rounds_ne_again {round : σ → Round σ} (Inv : σ → Prop) (measure : σ → ℕ)
    (hround : ∀ s s', Inv s → round s = .again s' → Inv s' ∧ measure s' < measure s) {n : ℕ}
    {s : σ} (hs : Inv s) (hn : measure s < n) (s' : σ) : rounds round n s ≠ .again s' := by
  induction n generalizing s with
  | zero => omega
  | succ n ih =>
    rw [rounds]
    cases heq : round s with
    | again s₁ =>
      obtain ⟨hs₁, hless⟩ := hround s s₁ hs heq
      exact ih hs₁ (by omega)
    | leave s₁ =>
      intro h
      cases h
    | wrong =>
      intro h
      cases h

end Library
