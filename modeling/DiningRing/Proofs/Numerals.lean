/-
# Which texts are numerals

A number is read character by character, and reading stops at the first one that is no digit or
with which the value grows too large.  What is read to its end can be told without any reading: an
optional plus sign, then one or more ASCII digits, the value of which lies below the bound
(`Numeral.Means`).  There may be zeros in front, however many, but no blank and no other sign.

Main statement: `Numeral.parseBelow_eq_ok_iff`.
-/
import DiningRing.Text.Numeral
import Mathlib.Algebra.Ring.Nat
import Mathlib.Tactic.Lemma

namespace DiningRing.Numeral

variable {bound value n : ℕ} {c : Char} {cs : List Char} {s : String}

/-- A text is a numeral for `n`, which lies below a bound: an optional plus sign and one or more
digits. -/
def Means (bound : ℕ) (s : String) (n : ℕ) : Prop :=
  ∃ ds : List Char, (s.toList = ds ∨ s.toList = '+' :: ds) ∧ ds ≠ [] ∧
    (∀ c ∈ ds, c.isDigit = true) ∧ n = Nat.ofDigitChars 10 ds 0 ∧ n < bound

/-! ### Digits -/

lemma digit?_of_isDigit (h : c.isDigit = true) : digit? c = some (c.toNat - '0'.toNat) := by
  refine if_pos ?_
  simpa [Char.isDigit, Char.le_def] using h

lemma digit?_of_not_isDigit (h : c.isDigit = false) : digit? c = none := by
  refine if_neg fun hrange => ?_
  have hdigit : c.isDigit = true := by simpa [Char.isDigit, Char.le_def] using hrange
  simp [h] at hdigit

/-- Reading on makes a value no smaller. -/
lemma le_ofDigitChars (value : ℕ) (cs : List Char) : value ≤ Nat.ofDigitChars 10 cs value := by
  rw [Nat.ofDigitChars_eq_ofDigitChars_zero]
  exact Nat.le_trans (Nat.le_mul_of_pos_left value (Nat.pow_pos (by decide)))
    (Nat.le_add_right _ _)

/-- **Digits are read to their end**: when there is nothing else, and the value stays below the
bound. -/
lemma digits_eq_ok_iff (hvalue : value < bound) : digits bound value cs = .ok n ↔
    (∀ c ∈ cs, c.isDigit = true) ∧ n = Nat.ofDigitChars 10 cs value ∧ n < bound := by
  induction cs generalizing value with
  | nil =>
    rw [digits, Nat.ofDigitChars_nil, Except.ok.injEq]
    constructor
    · rintro rfl
      exact ⟨fun _ h => absurd h List.not_mem_nil, rfl, hvalue⟩
    · exact fun h => h.2.1.symm
  | cons c cs ih =>
    rw [digits, List.forall_mem_cons, Nat.ofDigitChars_cons]
    cases hc : c.isDigit with
    | false => simp [digit?_of_not_isDigit hc]
    | true =>
      rw [digit?_of_isDigit hc]
      by_cases hfits : 10 * value + (c.toNat - '0'.toNat) < bound
      · simp only [if_pos hfits, ih hfits, true_and]
      · -- too large already, and more digits make it no smaller
        have hlarge := le_ofDigitChars (10 * value + (c.toNat - '0'.toNat)) cs
        simp only [if_neg hfits, reduceCtorEq, true_and, false_iff, not_and]
        rintro - rfl
        omega

/-! ### Whole texts -/

/-- **What is read as a number**: the numerals, and nothing else. -/
theorem parseBelow_eq_ok_iff (hbound : 0 < bound) :
    parseBelow bound s = .ok n ↔ Means bound s n := by
  -- a plus sign is no digit, so a text has only one division into sign and digits
  have hplus : ∀ {rest : List Char}, ¬ ∀ c ∈ '+' :: rest, c.isDigit = true := fun h =>
    absurd (h '+' List.mem_cons_self) (by decide)
  unfold parseBelow
  split
  case h_1 hs =>
    refine iff_of_false (by simp) ?_
    rintro ⟨ds, hds | hds, hne, -⟩
    · exact hne (hds.symm.trans hs)
    · simp [hs] at hds
  case h_2 hs =>
    refine iff_of_false (by simp) ?_
    rintro ⟨ds, hds | hds, hne, hdigits, -⟩
    · exact hplus (hds.symm.trans hs ▸ hdigits)
    · exact hne (List.cons.inj (hds.symm.trans hs)).2
  case h_3 rest hne hs =>
    refine (digits_eq_ok_iff hbound).trans ⟨fun h => ⟨rest, .inr hs, hne, h⟩, ?_⟩
    rintro ⟨ds, hds | hds, -, h⟩
    · exact absurd (hds.symm.trans hs ▸ h.1) hplus
    · obtain rfl := (List.cons.inj (hds.symm.trans hs)).2
      exact h
  case h_4 hne _ hsign =>
    refine (digits_eq_ok_iff hbound).trans ⟨fun h => ⟨_, .inl rfl, hne, h⟩, ?_⟩
    rintro ⟨ds, rfl | hds, -, h⟩
    · exact h
    · exact absurd hds (hsign ds)

/-- A number is read as one of 64 bits exactly if its text is a numeral for a word. -/
lemma parse_eq_ok_iff : parse s = .ok n ↔ Means (2 ^ 64) s n :=
  parseBelow_eq_ok_iff (by decide)

end DiningRing.Numeral
