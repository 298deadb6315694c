import Mathlib.Algebra.Group.Nat.Defs
import ProcExpX.Library.Parts
import ProcExpX.WinSys.Keys

/-!
# Decoding multi-strings

Services and devices hand out lists of strings as multi-strings. Four loops decode them,
each up to an empty string, and none of them looks at the length of what it decodes. On a
multi-string that is all the same. On anything else they read what happens to follow, and
two of them decode what a query has left in a buffer on the stack.
-/

namespace WinSys

open Library

/-- `wcslen` of the memory from a pointer on: the number of elements before the first NUL.
There is no answer if the readable memory ends before. -/
def wcslen : List WChar → Option ℕ
  | [] => none
  | c :: p => if c = 0 then some 0 else (wcslen p).map (· + 1)

/-- The loop of the decoders, with the memory from the pointer on, the number of elements
before it and the strings so far. It returns the strings and the number of elements that
have been read, all from the start on; there is no answer if the readable memory ends
before the loop does. -/
def decodeLoop (p : List WChar) (read : ℕ) (result : List WString) :
    Option (List WString × ℕ) :=
  match p with
  | [] => none
  | c :: p =>
    if c = 0 then some (result, read + 1)
    else
      match wcslen (c :: p) with
      | none => none
      | some n =>
        decodeLoop ((c :: p).drop (n + 1)) (read + (n + 1)) (result ++ [(c :: p).take n])
termination_by p.length
decreasing_by
  rw [List.length_drop, List.length_cons]
  omega

/-- The loop where it checks the pointer against null first. -/
def decodePointer : Option (List WChar) → Option (List WString × ℕ)
  | none => some ([], 0)
  | some p => decodeLoop p 0 []

/-- The dependencies in `GetServiceConfiguration`, from `lpDependencies`. -/
def ServiceManager.dependencies (lpDependencies : Option (List WChar)) :
    Option (List WString × ℕ) :=
  decodePointer lpDependencies

/-- The privileges in `GetRequiredPrivileges`, from `pmszRequiredPrivileges`. -/
def Service.requiredPrivileges (pmszRequiredPrivileges : Option (List WChar)) :
    Option (List WString × ℕ) :=
  decodePointer pmszRequiredPrivileges

/-- The loop of `GetDeviceRegistryPropertyMultiString`, from `buffer`. -/
def DeviceManager.propertyStrings (buffer : List WChar) : Option (List WString × ℕ) :=
  decodeLoop buffer 0 []

/-- The loop of `GetDeviceClassRegistryPropertyMultiString`, from `buffer`. -/
def DeviceManager.classPropertyStrings (buffer : List WChar) : Option (List WString × ℕ) :=
  decodeLoop buffer 0 []

/-- The elements that bytes in memory make up, the low byte of each first. -/
def wchars : List UInt8 → List WChar
  | low :: high :: bytes => (low.toUInt16 ||| high.toUInt16 <<< 8) :: wchars bytes
  | _ => []

/-- `REG_MULTI_SZ`. -/
def regMultiSz : UInt32 := 7

/-- The answer of a registry property query into a buffer of the given number of
elements. -/
inductive PropertyAnswer (size : ℕ)
  /-- The query fails. -/
  | failure
  /-- The query returns the type of the value and writes bytes to the start of the buffer,
  no more than fit. -/
  | success (regType : UInt32) (written : List UInt8) (fits : written.length ≤ 2 * size)

/-- The bytes that a query has written. -/
def PropertyAnswer.written {size : ℕ} : PropertyAnswer size → List UInt8
  | .failure => []
  | .success _ written _ => written

/-- How the decoding of a property ends. -/
inductive Decoding
  /-- It returns strings after reading elements of the buffer. -/
  | returned (result : List WString) (read : ℕ)
  /-- An assertion stops the program. -/
  | asserted
  /-- It reads past the readable memory. -/
  | faulted

/-- How a decoding ends with its loop. -/
def Decoding.ofLoop : Option (List WString × ℕ) → Decoding
  | some (result, read) => .returned result read
  | none => .faulted

/-- The body that the two decoders of properties share, around the loop of each. The query
leaves the memory after the bytes that it writes as it was. -/
def decodeProperty {size : ℕ} (loop : List WChar → Option (List WString × ℕ)) (debug : Bool)
    (answer : PropertyAnswer size) (memory : List UInt8) : Decoding :=
  match answer with
  | .failure => .returned [] 0
  | .success regType written _ =>
    if debug && regType != regMultiSz then .asserted
    else .ofLoop (loop (wchars (written ++ memory)))

namespace DeviceManager

/-- `GetDeviceRegistryPropertyMultiString`, in a debug or a release build. -/
def getDeviceRegistryPropertyMultiString (debug : Bool) (answer : PropertyAnswer (2 ^ 11))
    (memory : List UInt8) : Decoding :=
  decodeProperty propertyStrings debug answer memory

/-- `GetDeviceClassRegistryPropertyMultiString`, in a debug or a release build. -/
def getDeviceClassRegistryPropertyMultiString (debug : Bool)
    (answer : PropertyAnswer (2 ^ 12)) (memory : List UInt8) : Decoding :=
  decodeProperty classPropertyStrings debug answer memory

end DeviceManager

/-- The length of a string before a NUL. -/
theorem wcslen_append {s : WString} (hs : 0 ∉ s) (p : List WChar) :
    wcslen (s ++ 0 :: p) = some s.length := by
  induction s with
  | nil => rfl
  | cons c s ih =>
    rw [List.mem_cons, not_or] at hs
    rw [List.cons_append, wcslen, if_neg (Ne.symm hs.1), ih hs.2]
    rfl

/-- Where there is a length there is a string before a NUL. -/
theorem wcslen_eq_some {p : List WChar} {n : ℕ} (h : wcslen p = some n) :
    ∃ s rest, p = s ++ 0 :: rest ∧ 0 ∉ s ∧ s.length = n := by
  induction p generalizing n with
  | nil => cases h
  | cons c p ih =>
    rw [wcslen] at h
    split at h
    · rename_i hc
      exact ⟨[], p, by rw [hc]; rfl, List.not_mem_nil, Option.some.inj h⟩
    · rename_i hc
      obtain ⟨m, hm, rfl⟩ := Option.map_eq_some_iff.mp h
      obtain ⟨s, rest, rfl, hs, rfl⟩ := ih hm
      exact ⟨c :: s, rest, rfl, by simp [hs, Ne.symm hc], rfl⟩

/-- What follows a string and its NUL. -/
private theorem drop_string (s : WString) (rest : List WChar) :
    (s ++ 0 :: rest).drop (s.length + 1) = rest := by
  rw [List.drop_append, List.drop_eq_nil_of_le (Nat.le_succ _)]
  simp

/-- The loop ends at a NUL where a string would start. -/
theorem decodeLoop_terminator (p : List WChar) (read : ℕ) (result : List WString) :
    decodeLoop (0 :: p) read result = some (result, read + 1) := by
  rw [decodeLoop, if_pos rfl]

/-- The loop takes one string and goes on behind its NUL. -/
theorem decodeLoop_string (t : TerminableString (0 : WChar)) (p : List WChar) (read : ℕ)
    (result : List WString) :
    decodeLoop (t.chars ++ 0 :: p) read result =
      decodeLoop p (read + (t.chars.length + 1)) (result ++ [t.chars]) := by
  obtain ⟨c, chars, hchars⟩ := List.exists_cons_of_ne_nil t.ne_nil
  have hlength := wcslen_append t.not_mem p
  have hdrop := drop_string t.chars p
  have htake : (t.chars ++ 0 :: p).take t.chars.length = t.chars := List.take_left
  have hc : c ≠ 0 := by
    rintro rfl
    exact t.not_mem (hchars ▸ List.mem_cons_self)
  have hcons : t.chars ++ 0 :: p = c :: (chars ++ 0 :: p) := by rw [hchars, List.cons_append]
  rw [hcons] at hlength hdrop htake ⊢
  rw [decodeLoop, if_neg hc, hlength]
  dsimp only
  rw [hdrop, htake]

/-- **The loop on a multi-string** returns its strings and reads it to its end, whatever
follows. -/
theorem decodeLoop_multiString {strs : List (TerminableString (0 : WChar))} {p : List WChar}
    (h : multiString strs <+: p) (read : ℕ) (result : List WString) :
    decodeLoop p read result =
      some (result ++ texts strs, read + (multiString strs).length) := by
  obtain ⟨after, rfl⟩ := h
  induction strs generalizing read result with
  | nil =>
    rw [multiString, List.singleton_append, decodeLoop_terminator]
    simp [texts]
  | cons s strs ih =>
    rw [multiString, List.append_assoc, List.cons_append, decodeLoop_string, ih]
    simp [texts, Nat.add_assoc, Nat.add_comm 1]

/-- **Where the loop ends** there is a multi-string, and it has returned its strings and
read it to its end. -/
theorem multiString_of_decodeLoop {p : List WChar} {read n : ℕ} {result all : List WString}
    (h : decodeLoop p read result = some (all, n)) :
    ∃ strs : List (TerminableString (0 : WChar)), multiString strs <+: p ∧
      all = result ++ texts strs ∧ n = read + (multiString strs).length := by
  fun_induction decodeLoop p read result with
  | case1 => cases h
  | case2 read result p =>
    obtain ⟨rfl, rfl⟩ := Prod.mk.inj (Option.some.inj h)
    exact ⟨[], ⟨p, rfl⟩, by simp [texts], rfl⟩
  | case3 => cases h
  | case4 read result c p hc n' hlength ih =>
    obtain ⟨s, rest, hp, hs, rfl⟩ := wcslen_eq_some hlength
    have hne : s ≠ [] := by
      rintro rfl
      exact hc (List.cons.inj hp).1
    have htake : (c :: p).take s.length = s := hp ▸ List.take_left
    have hdrop : (c :: p).drop (s.length + 1) = rest := hp ▸ drop_string s rest
    obtain ⟨strs, hbegins, hall, hn⟩ := ih h
    rw [hdrop] at hbegins
    rw [htake] at hall
    let t : TerminableString (0 : WChar) := ⟨s, hne, hs⟩
    refine ⟨t :: strs, hp ▸ multiString_cons_begins (t := t) hbegins, ?_, ?_⟩
    · rw [hall]
      simp [texts, t]
    · rw [hn, multiString, List.length_append, List.length_cons]
      simp only [t]
      omega

/-- **Decoding what was encoded.** Each of the four loops returns exactly the strings of a
multi-string, reads it to its last terminator and no further, and takes no notice of what
follows. -/
theorem decoders_multiString (strs : List (TerminableString (0 : WChar)))
    (after : List WChar) :
    let p := multiString strs ++ after
    let decoded := some (texts strs, (multiString strs).length)
    ServiceManager.dependencies (some p) = decoded ∧
      Service.requiredPrivileges (some p) = decoded ∧
        DeviceManager.propertyStrings p = decoded ∧
          DeviceManager.classPropertyStrings p = decoded := by
  intro p decoded
  have hloop : decodeLoop p 0 [] = decoded := by
    rw [decodeLoop_multiString (List.prefix_append (multiString strs) after), List.nil_append,
      Nat.zero_add]
  exact ⟨hloop, hloop, hloop, hloop⟩

section Properties

/-- Whole elements that are written stay what they are whatever follows. -/
theorem wchars_begins (bytes more : List UInt8) : wchars bytes <+: wchars (bytes ++ more) := by
  induction bytes using wchars.induct with
  | case1 low high bytes ih => exact List.cons_prefix_cons.mpr ⟨rfl, ih⟩
  | case2 bytes hshort =>
    rw [wchars]
    · exact List.nil_prefix
    · exact hshort

/-- Two bytes make up an element. -/
theorem length_wchars (bytes : List UInt8) : (wchars bytes).length = bytes.length / 2 := by
  induction bytes using wchars.induct with
  | case1 low high bytes ih =>
    rw [wchars, List.length_cons, ih, List.length_cons, List.length_cons]
    omega
  | case2 bytes hshort =>
    cases bytes with
    | nil => rfl
    | cons low bytes =>
      cases bytes with
      | nil => simp [wchars]
      | cons high bytes => exact absurd rfl (hshort low high bytes)

/-- All that a decoding has read lies within some first bytes. -/
def Decoding.ReadsWithin (bytes : ℕ) : Decoding → Prop
  | .returned _ read => 2 * read ≤ bytes
  | .asserted => True
  | .faulted => False

/-- A decoding ends, reads only what the query has written and depends on nothing else,
whatever the memory behind it holds, which is at least the rest of the buffer. -/
def PropertyAnswer.Confines {size : ℕ} (answer : PropertyAnswer size)
    (decode : List UInt8 → Decoding) : Prop :=
  ∃ decoding : Decoding, decoding.ReadsWithin answer.written.length ∧
    ∀ memory : List UInt8, 2 * size ≤ answer.written.length + memory.length →
      decode memory = decoding

/-- The query has failed, or an assertion stops a value of another type, or the whole
elements written begin with a multi-string. -/
def PropertyAnswer.Complete {size : ℕ} (debug : Bool) : PropertyAnswer size → Prop
  | .failure => True
  | .success regType written _ => debug = true ∧ regType ≠ regMultiSz ∨
      ∃ strs : List (TerminableString (0 : WChar)), multiString strs <+: wchars written

/-- The loop over what has been written and whatever follows is confined to the former
precisely when that begins with a multi-string. -/
theorem confines_loop_iff {size : ℕ} {regType : UInt32} {written : List UInt8}
    (fits : written.length ≤ 2 * size) :
    (PropertyAnswer.success regType written fits).Confines
        (fun memory => .ofLoop (decodeLoop (wchars (written ++ memory)) 0 [])) ↔
      ∃ strs : List (TerminableString (0 : WChar)), multiString strs <+: wchars written := by
  constructor
  · rintro ⟨decoding, hread, hsame⟩
    -- One memory that fills the buffer is enough to see a multi-string.
    have hzero := hsame (List.replicate (2 * size) 0) (by
      rw [List.length_replicate]
      exact Nat.le_add_left _ _)
    rw [← hzero] at hread
    dsimp only at hread
    cases hloop : decodeLoop (wchars (written ++ List.replicate (2 * size) 0)) 0 [] with
    | none =>
      rw [hloop] at hread
      exact hread.elim
    | some decoded =>
      obtain ⟨result, read⟩ := decoded
      rw [hloop] at hread
      obtain ⟨strs, hbegins, _, rfl⟩ := multiString_of_decodeLoop hloop
      have hwithin : 2 * (0 + (multiString strs).length) ≤ written.length := hread
      refine ⟨strs, List.prefix_of_prefix_length_le hbegins (wchars_begins written _) ?_⟩
      rw [length_wchars]
      omega
  · rintro ⟨strs, hbegins⟩
    refine ⟨.returned (texts strs) (multiString strs).length, ?_, fun memory _ => ?_⟩
    · have hlength := hbegins.length_le
      rw [length_wchars] at hlength
      have hwithin : 2 * (multiString strs).length ≤ written.length := by omega
      exact hwithin
    · dsimp only
      rw [decodeLoop_multiString (hbegins.trans (wchars_begins written memory)),
        List.nil_append, Nat.zero_add, Decoding.ofLoop]

/-- A decoder around the loop is confined to what has been written precisely when that is
complete. -/
theorem confines_decodeProperty_iff {size : ℕ} (debug : Bool) (answer : PropertyAnswer size) :
    answer.Confines (decodeProperty (fun p => decodeLoop p 0 []) debug answer) ↔
      answer.Complete debug := by
  cases answer with
  | failure => exact iff_of_true ⟨.returned [] 0, Nat.zero_le _, fun _ _ => rfl⟩ trivial
  | success regType written fits =>
    by_cases hassert : debug = true ∧ regType ≠ regMultiSz
    · refine iff_of_true ⟨.asserted, trivial, fun memory _ => ?_⟩ (Or.inl hassert)
      exact if_pos (by simpa using hassert)
    · have hdecode : decodeProperty (fun p => decodeLoop p 0 []) debug
          (.success regType written fits) =
            fun memory => .ofLoop (decodeLoop (wchars (written ++ memory)) 0 []) := by
        funext memory
        exact if_neg (by simpa using hassert)
      rw [hdecode, confines_loop_iff, PropertyAnswer.Complete, or_iff_right hassert]

/-- **Malformed properties.** The two decoders of device properties end, read only what
the query has written and depend on nothing else precisely when the whole elements written
begin with a multi-string, unless the query fails or a debug build stops at its
assertion. -/
theorem decoders_confined_iff (debug : Bool) :
    (∀ answer : PropertyAnswer (2 ^ 11),
      answer.Confines (DeviceManager.getDeviceRegistryPropertyMultiString debug answer) ↔
        answer.Complete debug) ∧
      ∀ answer : PropertyAnswer (2 ^ 12),
        answer.Confines (DeviceManager.getDeviceClassRegistryPropertyMultiString debug answer) ↔
          answer.Complete debug :=
  ⟨confines_decodeProperty_iff debug, confines_decodeProperty_iff debug⟩

/-- The decoding of a value of a single letter without a NUL reads two elements more than
have been written, whatever the size of the buffer. -/
private theorem unterminated_letter {size : ℕ} (fits : [0x41, 0].length ≤ 2 * size) :
    ¬ (PropertyAnswer.success regMultiSz [0x41, 0] fits).Confines
      (decodeProperty (fun p => decodeLoop p 0 []) false
        (.success regMultiSz [0x41, 0] fits)) := by
  rintro ⟨decoding, hread, hsame⟩
  let letter : TerminableString (0 : WChar) := ⟨[0x41], by decide, by decide⟩
  have hbegins : multiString [letter] <+: wchars ([0x41, 0] ++
      0 :: 0 :: 0 :: 0 :: List.replicate (2 * size) 0) :=
    ⟨wchars (List.replicate (2 * size) 0), rfl⟩
  have hdecoded : decodeProperty (fun p => decodeLoop p 0 []) false
      (.success regMultiSz [0x41, 0] fits)
      (0 :: 0 :: 0 :: 0 :: List.replicate (2 * size) 0) = .returned [[0x41]] 3 := by
    simp only [decodeProperty, decodeLoop_multiString hbegins]
    rfl
  rw [hsame _ (by simp only [List.length_cons, List.length_replicate]; omega)] at hdecoded
  subst hdecoded
  have hpast : 2 * 3 ≤ 2 := hread
  omega

/-- A value of a single letter, which lacks the NUL of its string and the last one. -/
theorem unterminated_value_read_past :
    let value : PropertyAnswer (2 ^ 11) := .success regMultiSz [0x41, 0] (by decide)
    let classValue : PropertyAnswer (2 ^ 12) := .success regMultiSz [0x41, 0] (by decide)
    ¬ value.Confines (DeviceManager.getDeviceRegistryPropertyMultiString false value) ∧
      ¬ classValue.Confines
        (DeviceManager.getDeviceClassRegistryPropertyMultiString false classValue) :=
  ⟨unterminated_letter _, unterminated_letter _⟩

end Properties

end WinSys
