import Mathlib.Algebra.Group.Int.Defs
import Mathlib.Data.List.Basic
import Mathlib.Data.List.TakeWhile

/-!
# Texts

A text is the list of its characters.  Decimal numbers are written as everywhere: a
number is recovered from its digits, so different numbers have different texts.
-/

set_option autoImplicit false

namespace Terrashine.Library

/-- The characters of a string. -/
abbrev Text := List Char

namespace Text

/-- A fact about the characters of a text is checked one by one. -/
theorem forall_mem {p : Char → Prop} [DecidablePred p] {t : Text}
    (h : (t.all fun c => decide (p c)) = true) : ∀ c ∈ t, p c := by
  intro c hc
  exact of_decide_eq_true (List.all_eq_true.mp h c hc)

/-- The decimal digits of a natural number. -/
def ofNat (n : ℕ) : Text := Nat.toDigits 10 n

/-- Different numbers are written differently. -/
theorem ofNat_injective : Function.Injective ofNat := by
  intro m n h
  have hm := Nat.ofDigitChars_ten_toDigits (n := m)
  have hn := Nat.ofDigitChars_ten_toDigits (n := n)
  unfold ofNat at h
  rw [← hm, ← hn, h]

/-- A number is written in digits. -/
theorem isDigit_of_mem_ofNat {n : ℕ} {c : Char} (hc : c ∈ ofNat n) : c.isDigit = true :=
  Nat.isDigit_of_mem_toDigits (by decide) (by decide) hc

/-- The decimal digits of an integer, after a minus sign when it is negative. -/
def ofInt : ℤ → Text
  | .ofNat n => ofNat n
  | .negSucc n => '-' :: ofNat (n + 1)

/-- A number is written with at least one digit. -/
theorem ofNat_ne_nil (n : ℕ) : ofNat n ≠ [] := Nat.toDigits_ne_nil

/-- A character of a decimal integer. -/
theorem mem_ofInt {i : ℤ} {c : Char} (hc : c ∈ ofInt i) : c = '-' ∨ c.isDigit = true := by
  cases i with
  | ofNat n => exact .inr (isDigit_of_mem_ofNat hc)
  | negSucc n =>
    rcases List.mem_cons.mp hc with rfl | hc
    · exact .inl rfl
    · exact .inr (isDigit_of_mem_ofNat hc)

/-- The number that is written in decimal digits. -/
def toNat? (t : Text) : Option ℕ :=
  if t ≠ [] ∧ t.all Char.isDigit = true then some (Nat.ofDigitChars 10 t 0) else none

/-- A number is read back. -/
theorem toNat?_ofNat (n : ℕ) : toNat? (ofNat n) = some n := by
  have hdigits : (ofNat n).all Char.isDigit = true :=
    List.all_eq_true.mpr fun c hc => isDigit_of_mem_ofNat hc
  have hvalue : Nat.ofDigitChars 10 (ofNat n) 0 = n := Nat.ofDigitChars_ten_toDigits
  unfold toNat?
  rw [if_pos ⟨ofNat_ne_nil n, hdigits⟩, hvalue]

/-- A signed integer of 64 bits. -/
def IsInt64 (i : ℤ) : Prop := -2 ^ 63 ≤ i ∧ i < 2 ^ 63

instance (i : ℤ) : Decidable (IsInt64 i) := inferInstanceAs (Decidable (_ ∧ _))

/-- The integer, if it has 64 bits. -/
def checkInt64 (i : ℤ) : Option ℤ := if IsInt64 i then some i else none

/-- The integer of 64 bits that is written with an optional sign. -/
def toInt64? : Text → Option ℤ
  | '-' :: digits => (toNat? digits).bind fun n => checkInt64 (-Int.ofNat n)
  | '+' :: digits => (toNat? digits).bind fun n => checkInt64 (Int.ofNat n)
  | digits => (toNat? digits).bind fun n => checkInt64 (Int.ofNat n)

/-- A decimal integer is read back, if it has 64 bits. -/
theorem toInt64?_ofInt_eq (i : ℤ) : toInt64? (ofInt i) = checkInt64 i := by
  cases i with
  | negSucc n =>
    have hvalue : -Int.ofNat (n + 1) = Int.negSucc n := rfl
    show (toNat? (ofNat (n + 1))).bind (fun n => checkInt64 (-Int.ofNat n)) = _
    rw [toNat?_ofNat, Option.bind_some, hvalue]
  | ofNat n =>
    have hsign : ∀ digits : Text, ofNat n ≠ '-' :: digits ∧ ofNat n ≠ '+' :: digits := by
      intro digits
      constructor
      all_goals
        intro heq
        have hdigit := isDigit_of_mem_ofNat (heq ▸ List.mem_cons_self)
        exact absurd hdigit (by decide)
    have hvalue : toInt64? (ofNat n) = (toNat? (ofNat n)).bind fun n => checkInt64 (Int.ofNat n) := by
      unfold toInt64?
      split
      · next digits heq => exact absurd heq (hsign digits).1
      · next digits heq => exact absurd heq (hsign digits).2
      · rfl
    show toInt64? (ofNat n) = _
    rw [hvalue, toNat?_ofNat, Option.bind_some]

/-- **A decimal integer is read back.** -/
theorem toInt64?_ofInt {i : ℤ} (h : IsInt64 i) : toInt64? (ofInt i) = some i :=
  (toInt64?_ofInt_eq i).trans (if_pos h)

/-- An integer is read back exactly when it is an `i64`. -/
theorem toInt64?_ofInt_eq_some {i j : ℤ} : toInt64? (ofInt i) = some j ↔ j = i ∧ IsInt64 i := by
  rw [toInt64?_ofInt_eq]
  unfold checkInt64
  split
  · next h => exact ⟨fun heq => ⟨(Option.some.inj heq).symm, h⟩, fun heq => by rw [heq.1]⟩
  · next h => exact ⟨fun heq => (by cases heq), fun heq => absurd heq.2 h⟩

/-- What is read is an `i64`. -/
theorem isInt64_of_toInt64? {t : Text} {i : ℤ} (h : toInt64? t = some i) : IsInt64 i := by
  have hcheck : ∀ j, checkInt64 j = some i → IsInt64 i := by
    intro j hj
    unfold checkInt64 at hj
    split at hj
    · next hint =>
      cases hj
      exact hint
    · cases hj
  unfold toInt64? at h
  split at h
  all_goals
    obtain ⟨n, -, hn⟩ := Option.bind_eq_some_iff.mp h
    exact hcheck _ hn

/-- What is left of a text when it ends in `suffix`. -/
def stripSuffix (suffix t : Text) : Option Text :=
  if suffix <:+ t then some (t.take (t.length - suffix.length)) else none

/-- A suffix that was appended comes off. -/
theorem stripSuffix_append (t suffix : Text) : stripSuffix suffix (t ++ suffix) = some t := by
  have h : suffix <:+ t ++ suffix := List.suffix_append t suffix
  unfold stripSuffix
  rw [if_pos h]
  simp

/-- Where a suffix came off, it was there. -/
theorem stripSuffix_eq_some {t suffix rest : Text} (h : stripSuffix suffix t = some rest) :
    t = rest ++ suffix := by
  unfold stripSuffix at h
  split at h
  · next hs =>
    obtain ⟨r, rfl⟩ := hs
    cases h
    simp
  · cases h

end Text

end Terrashine.Library
