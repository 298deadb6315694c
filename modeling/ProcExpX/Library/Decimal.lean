import Mathlib.Data.List.Basic
import Mathlib.Data.Int.Notation
import Mathlib.Data.Nat.Notation

/-!
# Numbers in formatted text

Decimal numbers as `printf` writes them, in bytes, and what can be read back from a
text that ends with one: whatever stands before, the part after the last occurrence of
a byte that is no digit is determined by the text.
-/

namespace Library

/-- The bytes of an ASCII text. -/
def ascii (text : List Char) : List UInt8 := text.map fun c => c.val.toUInt8

/-- The conversion `%u`. -/
def decimal (n : ℕ) : List UInt8 := ascii (Nat.toDigits 10 n)

/-- The conversion `%lld`. -/
def signedDecimal : ℤ → List UInt8
  | .ofNat n => decimal n
  | .negSucc n => ascii ['-'] ++ decimal (n + 1)

/-- The code of a digit. -/
private theorem digit_range {c : Char} (hc : c.isDigit = true) : 48 ≤ c.toNat ∧ c.toNat ≤ 57 := by
  rw [Char.isDigit, Bool.and_eq_true, decide_eq_true_eq, decide_eq_true_eq] at hc
  exact ⟨UInt32.le_iff_toNat_le.mp hc.1, UInt32.le_iff_toNat_le.mp hc.2⟩

/-- A byte of a decimal number is the code of a digit. -/
theorem decimal_range {n : ℕ} {b : UInt8} (hb : b ∈ decimal n) : 48 ≤ b.toNat ∧ b.toNat ≤ 57 := by
  obtain ⟨c, hc, rfl⟩ := List.mem_map.mp hb
  have hrange := digit_range (Nat.isDigit_of_mem_toDigits (by decide) (by decide) hc)
  rw [UInt32.toNat_toUInt8]
  change 48 ≤ c.toNat % 256 ∧ c.toNat % 256 ≤ 57
  omega

/-- A number is determined by its decimal digits. -/
theorem decimal_injective {m n : ℕ} (h : decimal m = decimal n) : m = n := by
  have hread : ∀ n, (decimal n).map (fun b => Char.ofNat b.toNat) = Nat.toDigits 10 n := by
    intro n
    rw [decimal, ascii, List.map_map]
    refine (List.map_congr_left fun c hc => ?_).trans (List.map_id _)
    have hrange := digit_range (Nat.isDigit_of_mem_toDigits (by decide) (by decide) hc)
    have hbyte : c.val.toUInt8.toNat = c.toNat := by
      rw [UInt32.toNat_toUInt8]
      change c.toNat % 256 = c.toNat
      omega
    rw [Function.comp_apply, hbyte, Char.ofNat_toNat, id]
  have hdigits : Nat.toDigits 10 m = Nat.toDigits 10 n := by rw [← hread, h, hread]
  rw [← Nat.ofDigitChars_ten_toDigits (n := m), hdigits, Nat.ofDigitChars_ten_toDigits]

/-- A number has at least one digit. -/
theorem decimal_ne_nil (n : ℕ) : decimal n ≠ [] := by
  rw [decimal, ascii, Ne, List.map_eq_nil_iff]
  exact Nat.toDigits_ne_nil

/-- The last digit of a number of several digits. -/
theorem decimal_of_ten_le {n : ℕ} (hn : 10 ≤ n) :
    decimal n = decimal (n / 10) ++ ascii [Nat.digitChar (n % 10)] := by
  rw [decimal, Nat.toDigits_of_base_le (by decide) hn, ascii, List.map_append]
  rfl

/-- A number of one digit. -/
theorem decimal_of_lt {n : ℕ} (hn : n < 10) : decimal n = ascii [Nat.digitChar n] := by
  rw [decimal, Nat.toDigits_of_lt_base hn]

/-- Induction on the digits of a number. -/
theorem decimal_induction {P : ℕ → Prop} (digit : ∀ d < 10, P d)
    (more : ∀ n, 10 ≤ n → P (n / 10) → P n) (n : ℕ) : P n := by
  induction n using Nat.strongRecOn with
  | ind n ih =>
    by_cases hsmall : n < 10
    · exact digit n hsmall
    · exact more n (by omega) (ih (n / 10) (by omega))

/-- Only zero begins with a zero. -/
theorem head_decimal_ne {n : ℕ} (hn : n ≠ 0) : (decimal n).head? ≠ some 48 := by
  induction n using decimal_induction with
  | digit d hd =>
    rw [decimal_of_lt hd]
    have hdigits : ∀ d < 10, d ≠ 0 → (ascii [Nat.digitChar d]).head? ≠ some 48 := by decide
    exact hdigits d hd hn
  | more n hten ih =>
    have htens := ih (by omega)
    rwa [decimal_of_ten_le hten, List.head?_append_of_ne_nil _ (decimal_ne_nil (n / 10))]

/-- A byte of a signed number is a minus sign or the code of a digit. -/
theorem signedDecimal_range {i : ℤ} {b : UInt8} (hb : b ∈ signedDecimal i) :
    b = 45 ∨ 48 ≤ b.toNat ∧ b.toNat ≤ 57 := by
  cases i with
  | ofNat n => exact Or.inr (decimal_range hb)
  | negSucc n =>
    rcases List.mem_append.mp hb with hsign | hdigit
    · exact Or.inl (List.mem_singleton.mp hsign)
    · exact Or.inr (decimal_range hdigit)

/-- A signed number is determined by its digits and sign. -/
theorem signedDecimal_injective {i j : ℤ} (h : signedDecimal i = signedDecimal j) : i = j := by
  have hsign : ∀ m n, decimal m ≠ ascii ['-'] ++ decimal n := by
    intro m n heq
    have hmem : (45 : UInt8) ∈ decimal m := heq ▸ List.mem_append_left _ (by decide)
    exact absurd (decimal_range hmem).1 (by decide)
  cases i with
  | ofNat m =>
    cases j with
    | ofNat n => rw [decimal_injective h]
    | negSucc n => exact absurd h (hsign m (n + 1))
  | negSucc m =>
    cases j with
    | ofNat n => exact absurd h.symm (hsign n (m + 1))
    | negSucc n => rw [Nat.succ.inj (decimal_injective (List.append_cancel_left h))]

/-- What comes before the last occurrence of a delimiter ends there. -/
private theorem eq_nil_of_last {β : Type*} {d : β} {mid last last' : List β} (hlast : d ∉ last)
    (h : d :: last = mid ++ d :: last') : mid = [] := by
  cases mid with
  | nil => rfl
  | cons c mid =>
    rw [List.cons_append, List.cons.injEq] at h
    exact absurd (by simp [h.2]) hlast

/-- A text is cut in one way at the last occurrence of a delimiter. -/
theorem cut_at_last {β : Type*} {d : β} {before before' last last' : List β} (hlast : d ∉ last)
    (hlast' : d ∉ last') (h : before ++ d :: last = before' ++ d :: last') :
    before = before' ∧ last = last' := by
  rcases List.append_eq_append_iff.mp h with ⟨mid, hbefore, htail⟩ | ⟨mid, hbefore, htail⟩
  · obtain rfl := eq_nil_of_last hlast htail
    exact ⟨by rw [hbefore, List.append_nil], (List.cons.inj htail).2⟩
  · obtain rfl := eq_nil_of_last hlast' htail
    exact ⟨by rw [hbefore, List.append_nil], (List.cons.inj htail).2.symm⟩

end Library
