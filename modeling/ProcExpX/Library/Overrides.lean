import Mathlib.Data.List.Induction

/-!
# Temporary settings

A table of settings some of which are replaced for a time. Each replacement saves what it
replaces on a stack, so that it can be taken back later.
-/

namespace Library

variable {ι κ : Type*} [DecidableEq ι]

/-- The settings in force, and what the replacements made so far have saved, the latest
first. -/
structure Overrides (ι κ : Type*) where
  /-- The settings in force. -/
  current : ι → κ
  /-- What has been saved. -/
  saved : List (ι × κ)

namespace Overrides

/-- Replace a setting. -/
def push (s : Overrides ι κ) (i : ι) (c : κ) : Overrides ι κ :=
  { current := Function.update s.current i c, saved := (i, s.current i) :: s.saved }

/-- Take the latest replacement back. -/
def pop (s : Overrides ι κ) : Option (Overrides ι κ) :=
  match s.saved with
  | [] => none
  | (i, c) :: saved => some { current := Function.update s.current i c, saved := saved }

/-- Make several replacements in turn. -/
def pushes (s : Overrides ι κ) (replacements : List (ι × κ)) : Overrides ι κ :=
  replacements.foldl (fun s r => s.push r.1 r.2) s

/-- Take several replacements back. -/
def pops : ℕ → Overrides ι κ → Option (Overrides ι κ)
  | 0, s => some s
  | n + 1, s => s.pop >>= pops n

/-- A setting that has just been replaced. -/
theorem current_push (s : Overrides ι κ) (i : ι) (c : κ) : (s.push i c).current i = c := by
  simp [push]

/-- A replacement is taken back as if it had not been made. -/
theorem pop_push (s : Overrides ι κ) (i : ι) (c : κ) : (s.push i c).pop = some s := by
  have hcurrent : Function.update (Function.update s.current i c) i (s.current i) = s.current := by
    rw [Function.update_idem, Function.update_eq_self]
  unfold push pop
  dsimp only
  rw [hcurrent]

/-- Several replacements are taken back from the last one to the first. -/
theorem pops_pushes (s : Overrides ι κ) (replacements : List (ι × κ)) :
    (s.pushes replacements).pops replacements.length = some s := by
  induction replacements using List.reverseRecOn with
  | nil => rfl
  | append_singleton replacements r ih =>
    have hlast : s.pushes (replacements ++ [r]) = (s.pushes replacements).push r.1 r.2 := by
      simp [pushes]
    rw [hlast, List.length_append, List.length_singleton, pops, pop_push]
    exact ih

end Overrides

end Library
