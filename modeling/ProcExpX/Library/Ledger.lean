import Mathlib.Algebra.GroupWithZero.Nat
import Mathlib.Algebra.Order.BigOperators.Group.List
import Mathlib.Data.List.Induction

/-!
# Conservation along a run

A state machine takes one step for each input. A quantity of its states changes only by
what the steps let in and out, so that over a whole run the former quantity and all that
came in make up all that went out and the quantity that is left. A value that no step
changes is there after the run.

Several amounts can also be paid out as shares: each is scaled and divided by the same number,
and rounded down. The shares add up to no more than the scaled total, and to less only by what
rounding takes from each.
-/

namespace Library

variable {σ α : Type*}

/-- A value of the states that no step changes is the same after a run. -/
theorem foldl_keeps {β : Type*} (value : σ → β) {step : σ → α → σ}
    (hstep : ∀ s a, value (step s a) = value s) (run : List α) (s : σ) :
    value (run.foldl step s) = value s :=
  List.foldlRecOn (motive := fun s' => value s' = value s) run step rfl
    fun s' hs' a _ => (hstep s' a).trans hs'

/-- The sum along a run of what each step contributes, which may depend on the state before
the step. -/
def total (step : σ → α → σ) (amount : σ → α → ℕ) : σ → List α → ℕ
  | _, [] => 0
  | s, a :: run => amount s a + total step amount (step s a) run

/-- One more step of a run. -/
theorem total_concat (step : σ → α → σ) (amount : σ → α → ℕ) (s : σ) (run : List α) (a : α) :
    total step amount s (run ++ [a]) = total step amount s run + amount (run.foldl step s) a := by
  induction run generalizing s with
  | nil => rw [List.nil_append, total, total, total, List.foldl_nil, Nat.add_comm]
  | cons b run ih =>
    rw [List.cons_append, total, total, ih, List.foldl_cons, Nat.add_assoc]

/-- Nothing adds up to nothing. -/
theorem total_zero (step : σ → α → σ) (s : σ) (run : List α) :
    total step (fun _ _ => 0) s run = 0 := by
  induction run generalizing s with
  | nil => rfl
  | cons a run ih => rw [total, ih]

/-- **Conservation.** If every allowed step keeps an invariant and balances a quantity, so
does every run of allowed steps. -/
theorem total_balance {step : σ → α → σ} {invariant : σ → Prop} {allowed : α → Prop}
    {stock : σ → ℕ} {income outgo : σ → α → ℕ}
    (hstep : ∀ s a, invariant s → allowed a → invariant (step s a) ∧
      stock s + income s a = outgo s a + stock (step s a))
    {s : σ} (hs : invariant s) {run : List α} (hrun : ∀ a ∈ run, allowed a) :
    invariant (run.foldl step s) ∧
      stock s + total step income s run =
        total step outgo s run + stock (run.foldl step s) := by
  induction run using List.reverseRecOn with
  | nil => exact ⟨hs, by simp [total]⟩
  | append_singleton run a ih =>
    obtain ⟨hinvariant, hbalance⟩ := ih fun b hb => hrun b (List.mem_append_left _ hb)
    obtain ⟨hnext, hlast⟩ := hstep _ a hinvariant (hrun a (by simp))
    rw [total_concat, total_concat, List.foldl_append, List.foldl_cons, List.foldl_nil]
    exact ⟨hnext, by omega⟩

section Shares

/-- The shares of some amounts, each rounded down. -/
def sharesOf (scale whole : ℕ) (amounts : List ℕ) : List ℕ :=
  amounts.map fun amount => amount * scale / whole

variable {whole : ℕ}

/-- Together the shares are worth what the amounts are, up to less than one unit for each. -/
theorem sum_sharesOf (scale : ℕ) (hwhole : 0 < whole) (amounts : List ℕ) :
    whole * (sharesOf scale whole amounts).sum ≤ amounts.sum * scale ∧
      amounts.sum * scale ≤ whole * ((sharesOf scale whole amounts).sum + amounts.length) := by
  induction amounts with
  | nil => simp [sharesOf]
  | cons amount amounts ih =>
    have hshare := Nat.div_add_mod (amount * scale) whole
    have hrest := Nat.mod_lt (amount * scale) hwhole
    have hsum : (sharesOf scale whole (amount :: amounts)).sum =
        amount * scale / whole + (sharesOf scale whole amounts).sum := by
      simp [sharesOf]
    rw [hsum, List.sum_cons, List.length_cons, Nat.add_mul, Nat.mul_add, Nat.mul_add,
      Nat.mul_add, Nat.mul_add, Nat.mul_one]
    rw [Nat.mul_add] at ih
    omega

/-- **No overdraft.** Amounts that stay within the whole have shares that stay within the
scale. -/
theorem sum_sharesOf_le (scale : ℕ) (hwhole : 0 < whole) {amounts : List ℕ}
    (hsum : amounts.sum ≤ whole) :
    (sharesOf scale whole amounts).sum ≤ scale := by
  have hbound := (sum_sharesOf scale hwhole amounts).1
  have hscaled : amounts.sum * scale ≤ whole * scale := Nat.mul_le_mul_right scale hsum
  exact Nat.le_of_mul_le_mul_left (Nat.le_trans hbound hscaled) hwhole

end Shares

end Library
