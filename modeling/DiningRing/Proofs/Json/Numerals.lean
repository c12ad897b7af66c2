/-
# Numbers that are written and read

A number that counts something is written as its decimal digits, without a zero in front.  Read
again they are the same number, provided that what follows does not go on with it: no digit, no
point and no exponent (`Halts`).  A number that is passed over need not be a word; any integer, and
any integer with an exponent, is passed over to its end.

Main statements: `readNumber_digitsOf` and `skipNumber_integerText`.
-/
import DiningRing.Json.Decode
import Mathlib.Data.Int.Notation
import Mathlib.Data.Nat.Notation
import Mathlib.Tactic.Lemma

namespace DiningRing.Json

variable {n : ℕ} {cs rest : List Char}

/-! ### Digits -/

/-- A text with which no number goes on. -/
def Halts (cs : List Char) : Prop :=
  ∀ c ∈ cs.head?, isDigit c = false ∧ c ≠ '.' ∧ c ≠ 'e' ∧ c ≠ 'E'

/-- The decimal digits of a number. -/
def digitsOf (n : ℕ) : List Char := (Nat.repr n).toList

lemma digitsOf_eq (n : ℕ) : digitsOf n = Nat.toDigits 10 n := Nat.toList_repr

lemma digitsOf_ne_nil (n : ℕ) : digitsOf n ≠ [] := by
  rw [digitsOf_eq]
  exact Nat.toDigits_ne_nil

lemma isDigit_of_mem_digitsOf {c : Char} (h : c ∈ digitsOf n) : isDigit c = true := by
  rw [digitsOf_eq] at h
  have hdigit : c.isDigit = true := Nat.isDigit_of_mem_toDigits (by decide) (by decide) h
  simpa [isDigit, Char.isDigit, Char.le_def] using hdigit

/-- The digits of a number begin with one. -/
lemma exists_digitsOf_eq_cons (n : ℕ) : ∃ c cs, digitsOf n = c :: cs ∧ isDigit c = true := by
  obtain ⟨c, cs, h⟩ := List.exists_cons_of_ne_nil (digitsOf_ne_nil n)
  exact ⟨c, cs, h, isDigit_of_mem_digitsOf (by rw [h]; exact List.mem_cons_self)⟩

lemma digitsValue_digitsOf (n : ℕ) : digitsValue (digitsOf n) = n := by
  rw [digitsOf_eq]
  exact Nat.ofDigitChars_ten_toDigits

/-- Only zero is written with a zero in front. -/
lemma head?_digitsOf_ne (hn : 0 < n) : (digitsOf n).head? ≠ some '0' := by
  have hsingle : ∀ d < 10, 0 < d → Nat.digitChar d ≠ '0' := by decide
  rw [digitsOf_eq]
  induction n using Nat.strongRecOn with
  | ind n ih =>
    by_cases hlt : n < 10
    · rw [Nat.toDigits_of_lt_base hlt]
      simpa using hsingle n hlt hn
    · have hfront := ih (n / 10) (by omega) (by omega)
      rw [Nat.toDigits_of_base_le (by decide) (by omega)]
      have hne : Nat.toDigits 10 (n / 10) ≠ [] := Nat.toDigits_ne_nil
      obtain ⟨c, cs, hcons⟩ := List.exists_cons_of_ne_nil hne
      rw [hcons] at hfront ⊢
      simpa using hfront

lemma digitsOf_ne_zero_cons {c : Char} : digitsOf n ≠ '0' :: c :: cs := by
  intro h
  rcases Nat.eq_zero_or_pos n with rfl | hn
  · cases h
  · exact head?_digitsOf_ne hn (by rw [h]; rfl)

/-- Digits are read up to the end that they have. -/
lemma digits_digitsOf (n : ℕ) (hrest : ∀ c ∈ rest.head?, isDigit c = false) :
    digits (digitsOf n ++ rest) = .ok (digitsOf n, rest) := by
  have hall : ∀ c ∈ digitsOf n, isDigit c = true := fun c => isDigit_of_mem_digitsOf
  have hstops : rest.takeWhile isDigit = [] ∧ rest.dropWhile isDigit = rest := by
    cases rest with
    | nil => exact ⟨rfl, rfl⟩
    | cons c cs =>
      have hc : isDigit c = false := hrest c rfl
      simp [hc]
  rw [digits, List.takeWhile_append_of_pos hall, List.dropWhile_append_of_pos hall, hstops.1,
    hstops.2, List.append_nil]
  cases h : digitsOf n with
  | nil => exact absurd h (digitsOf_ne_nil n)
  | cons c cs => rfl

/-! ### Numerals -/

/-- An exponent as it is written, if there is one. -/
def exponentText : Option ℤ → List Char
  | none => []
  | some e => 'e' :: integerText e

lemma wholeDigits_digitsOf (n : ℕ) (hrest : ∀ c ∈ rest.head?, isDigit c = false) :
    wholeDigits (digitsOf n ++ rest) = .ok (digitsOf n, rest) := by
  rw [wholeDigits, digits_digitsOf n hrest]
  cases h : digitsOf n with
  | nil => exact absurd h (digitsOf_ne_nil n)
  | cons c cs =>
    cases cs with
    | nil => simp
    | cons d ds =>
      have hc : c ≠ '0' := by
        rintro rfl
        exact digitsOf_ne_zero_cons h
      simp [hc]

/-- What does not begin with a sign is read as it is. -/
lemma exponentSign_of_isDigit {c : Char} (hc : isDigit c = true) :
    exponentSign (c :: cs) = (1, c :: cs) := by
  unfold exponentSign
  split
  · simp_all [isDigit]
  · simp_all [isDigit]
  · rfl

lemma exponentAfter_integerText (e : ℤ) (hrest : Halts rest) :
    exponentAfter (integerText e ++ rest) = .ok (some e, rest) := by
  have hdigits : ∀ c ∈ rest.head?, isDigit c = false := fun c hc => (hrest c hc).1
  cases e with
  | ofNat n =>
    have hsign : exponentSign (digitsOf n ++ rest) = (1, digitsOf n ++ rest) := by
      obtain ⟨c, cs, hcons, hc⟩ := exists_digitsOf_eq_cons n
      rw [hcons]
      exact exponentSign_of_isDigit hc
    show exponentAfter (digitsOf n ++ rest) = _
    rw [exponentAfter, hsign]
    simp only [digits_digitsOf n hdigits, digitsValue_digitsOf]
    rw [Int.one_mul]
    rfl
  | negSucc n =>
    show exponentAfter ('-' :: (digitsOf (n + 1) ++ rest)) = _
    simp only [exponentAfter, exponentSign, digits_digitsOf (n + 1) hdigits, digitsValue_digitsOf]
    rw [Int.neg_one_mul]
    rfl

lemma exponent?_exponentText (x : Option ℤ) (hrest : Halts rest) :
    exponent? (exponentText x ++ rest) = .ok (x, rest) := by
  cases x with
  | some e => exact exponentAfter_integerText e hrest
  | none =>
    show exponent? rest = _
    unfold exponent?
    split
    · exact absurd rfl (hrest _ rfl).2.2.1
    · exact absurd rfl (hrest _ rfl).2.2.2
    · rfl

/-- Neither an exponent nor what ends a number goes on with the digits before it. -/
lemma exponentText_append_head (x : Option ℤ) (hrest : Halts rest) :
    ∀ c ∈ (exponentText x ++ rest).head?, isDigit c = false ∧ c ≠ '.' := by
  cases x with
  | some e =>
    intro c hc
    obtain rfl : 'e' = c := by simpa [exponentText] using hc
    decide
  | none => exact fun c hc => ⟨(hrest c hc).1, (hrest c hc).2.1⟩

lemma fraction?_of_head (h : ∀ c ∈ cs.head?, c ≠ '.') : fraction? cs = .ok (none, cs) := by
  unfold fraction?
  split
  · exact absurd rfl (h _ rfl)
  · rfl

/-- **A number without a point is read up to its end.** -/
theorem unsignedNumeral_digitsOf (negative : Bool) (n : ℕ) (x : Option ℤ) (hrest : Halts rest) :
    unsignedNumeral negative (digitsOf n ++ (exponentText x ++ rest))
      = .ok (⟨negative, digitsOf n, none, x⟩, rest) := by
  have hhead := exponentText_append_head x hrest
  simp only [unsignedNumeral, wholeDigits_digitsOf n fun c hc => (hhead c hc).1,
    fraction?_of_head fun c hc => (hhead c hc).2, exponent?_exponentText x hrest]

lemma numeral_of_isDigit {c : Char} (hc : isDigit c = true) :
    numeral (c :: cs) = unsignedNumeral false (c :: cs) := by
  unfold numeral
  split
  · simp_all [isDigit]
  · rfl

lemma numeral_digitsOf (n : ℕ) (x : Option ℤ) (hrest : Halts rest) :
    numeral (digitsOf n ++ (exponentText x ++ rest))
      = .ok (⟨false, digitsOf n, none, x⟩, rest) := by
  obtain ⟨c, cs, hcons, hc⟩ := exists_digitsOf_eq_cons n
  have hread := unsignedNumeral_digitsOf false n x hrest
  rw [hcons, List.cons_append] at hread ⊢
  rwa [numeral_of_isDigit hc]

/-- An integer, with an exponent or without, is read up to its end. -/
lemma exists_numeral_integerText (m : ℤ) (x : Option ℤ) (hrest : Halts rest) :
    ∃ r, numeral (integerText m ++ (exponentText x ++ rest)) = .ok (r, rest) := by
  cases m with
  | ofNat n => exact ⟨_, numeral_digitsOf n x hrest⟩
  | negSucc n => exact ⟨_, unsignedNumeral_digitsOf true (n + 1) x hrest⟩

/-! ### Reading and passing over -/

/-- An integer begins with a digit or with a minus. -/
lemma exists_integerText_eq_cons (m : ℤ) :
    ∃ c cs, integerText m = c :: cs ∧ (c = '-' ∨ isDigit c = true) := by
  cases m with
  | ofNat n =>
    obtain ⟨c, cs, hcons, hc⟩ := exists_digitsOf_eq_cons n
    exact ⟨c, cs, hcons, .inr hc⟩
  | negSucc n => exact ⟨'-', _, rfl, .inl rfl⟩

/-- **A number is passed over to its end**, whatever its size. -/
theorem skipNumber_integerText (m : ℤ) (x : Option ℤ) (hrest : Halts rest) :
    skipNumber (integerText m ++ (exponentText x ++ rest)) = .ok rest := by
  obtain ⟨r, hr⟩ := exists_numeral_integerText m x hrest
  rw [skipNumber, hr]

/-- **A word that is written is read again.** -/
theorem readNumber_digitsOf (hn : n < Word.modulus) (hrest : Halts rest) :
    readNumber (digitsOf n ++ rest) = .ok (.integer n, rest) := by
  have hnumber : Numeral.number? ⟨false, digitsOf n, none, none⟩ = some (.integer n) := by
    simp [Numeral.number?, Numeral.scaled, Numeral.isWord, Numeral.sign, digitsValue_digitsOf, hn]
  have hread : numeral (digitsOf n ++ rest) = .ok (⟨false, digitsOf n, none, none⟩, rest) :=
    numeral_digitsOf n none hrest
  simp only [readNumber, hread, hnumber]

end DiningRing.Json
