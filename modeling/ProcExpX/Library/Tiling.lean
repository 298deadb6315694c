import Mathlib.Data.List.Chain
import Mathlib.Data.List.Count
import Mathlib.Order.Lattice

/-!
# Tilings

Intervals tile the space between two places when the first starts at the one, each of the
others starts where the one before it stops, and the last stops at the other. They are
then in ascending order, and each place between the two lies in exactly one of them.
-/

namespace Library

variable {α β : Type} [LinearOrder β] {start stop : α → β}

/-- The intervals of a list follow one another from one place to another. None is empty. -/
def Tiles (start stop : α → β) : β → List α → β → Prop
  | a, [], b => a = b
  | a, x :: l, b => start x = a ∧ a < stop x ∧ Tiles start stop (stop x) l b

namespace Tiles

variable {a b c : β} {x : α} {l l' : List α}

/-- Two lists one after the other tile a range precisely if each tiles its part of it. -/
theorem append_iff :
    Tiles start stop a (l ++ l') c ↔ ∃ b, Tiles start stop a l b ∧ Tiles start stop b l' c := by
  induction l generalizing a with
  | nil => simp [Tiles]
  | cons x l ih => simp [Tiles, ih, and_assoc]

/-- With one more interval a range is tiled precisely if the others tile it up to where that one
starts. -/
theorem concat_iff :
    Tiles start stop a (l ++ [x]) b ↔
      Tiles start stop a l (start x) ∧ start x < stop x ∧ stop x = b := by
  rw [append_iff]
  constructor
  · rintro ⟨_, hl, rfl, hlt, hstop⟩
    exact ⟨hl, hlt, hstop⟩
  · rintro ⟨hl, hlt, hstop⟩
    exact ⟨start x, hl, rfl, hlt, hstop⟩

/-- A tiling does not end below its beginning. -/
theorem le (h : Tiles start stop a l b) : a ≤ b := by
  induction l generalizing a with
  | nil => exact le_of_eq h
  | cons x l ih =>
    obtain ⟨_, hlt, hl⟩ := h
    exact le_trans (le_of_lt hlt) (ih hl)

/-- No interval starts below the beginning. -/
theorem le_start (h : Tiles start stop a l b) (hx : x ∈ l) : a ≤ start x := by
  induction l generalizing a with
  | nil => cases hx
  | cons y l ih =>
    obtain ⟨hstart, hlt, hl⟩ := h
    rcases List.mem_cons.mp hx with rfl | hx
    · exact le_of_eq hstart.symm
    · exact le_trans (le_of_lt hlt) (ih hl hx)

/-- The first interval starts at the beginning. -/
theorem head (h : Tiles start stop a l b) (hx : x ∈ l.head?) : start x = a := by
  cases l with
  | nil => cases hx
  | cons y l =>
    obtain rfl := Option.some.inj hx
    exact h.1

/-- The last interval stops at the end. -/
theorem last (h : Tiles start stop a l b) : (l.getLast?.map stop).getD a = b := by
  rcases List.eq_nil_or_concat l with rfl | ⟨l, x, rfl⟩
  · exact h
  · rw [List.concat_eq_append] at h ⊢
    rw [List.getLast?_concat]
    exact (concat_iff.mp h).2.2

/-- Each interval starts where the one before it stops. -/
theorem isChain (h : Tiles start stop a l b) : l.IsChain fun x y => stop x = start y := by
  induction l generalizing a with
  | nil => exact List.IsChain.nil
  | cons x l ih =>
    obtain ⟨_, _, hl⟩ := h
    exact List.isChain_cons.mpr ⟨fun y hy => (hl.head hy).symm, ih hl⟩

/-- The intervals are in ascending order. -/
theorem ascending (h : Tiles start stop a l b) :
    l.Pairwise fun x y => start x < start y := by
  induction l generalizing a with
  | nil => exact List.Pairwise.nil
  | cons x l ih =>
    obtain ⟨hstart, hlt, hl⟩ := h
    refine List.pairwise_cons.mpr ⟨fun y hy => ?_, ih hl⟩
    exact hstart ▸ lt_of_lt_of_le hlt (hl.le_start hy)

/-- **Each place once.** A place lies in exactly one interval if it is between the
beginning and the end, and in none otherwise. -/
theorem countP_eq (h : Tiles start stop a l b) (c : β) :
    l.countP (fun x => start x ≤ c ∧ c < stop x) = if a ≤ c ∧ c < b then 1 else 0 := by
  induction l generalizing a with
  | nil =>
    obtain rfl : a = b := h
    rw [List.countP_nil, if_neg fun hc => absurd hc.2 (not_lt_of_ge hc.1)]
  | cons x l ih =>
    obtain ⟨rfl, hlt, hl⟩ := h
    rw [List.countP_cons, ih hl]
    rcases lt_or_ge c (stop x) with hc | hc
    · have hb : c < b := lt_of_lt_of_le hc hl.le
      simp [hc, hb, not_le_of_gt hc]
    · have hstart : start x ≤ c := le_trans (le_of_lt hlt) hc
      simp [hc, hstart, not_lt_of_ge hc]

end Tiles

end Library
