/-
# Strings that are written and read

Of the characters of a string some are written as they are and all others behind a backslash.  What
stands behind it is read back as the character, and passed over to its end (`escape_cases`); so a
string that is written, with any characters in it, is read again as it was and passed over to its
closing quote.

Main statements: `readString_written` and `skipString_written`.
-/
import DiningRing.Json.Scan
import Mathlib.Data.Nat.Notation
import Mathlib.Tactic.Lemma
import Mathlib.Tactic.SplitIfs

namespace DiningRing.Json

variable {rest : List Char}

/-! ### One character -/

lemma hexValue?_hexDigit : ∀ d < 16, hexValue? (hexDigit d) = some d := by
  decide

/-- The four digits of a control character stand for it. -/
lemma hexWord_hexDigit {n : ℕ} (hn : n < 32) (rest : List Char) :
    hexWord ('0' :: '0' :: hexDigit (n / 16) :: hexDigit (n % 16) :: rest) = .ok (n, rest) := by
  have hzero : hexValue? '0' = some 0 := by decide
  simp only [hexWord, hzero, hexValue?_hexDigit (n / 16) (by omega),
    hexValue?_hexDigit (n % 16) (by omega)]
  congr 2
  omega

/-- **What a character is written as**: itself, if it is none that ends a string or is not allowed
in one; else a backslash, and behind it what is read as the character. -/
lemma escape_cases (c : Char) :
    (escape c = [c] ∧ c ≠ '\x22' ∧ c ≠ '\\' ∧ ¬ c.toNat < 32) ∨
      ∃ e, escape c = '\\' :: e ∧ ∀ rest,
        readEscape (e ++ rest) = .ok (c, rest) ∧ skipEscape (e ++ rest) = .ok rest := by
  unfold escape
  split
  case h_8 hquote hslash _ _ _ _ _ =>
    split_ifs with hcontrol
    · refine .inr ⟨_, rfl, fun rest => ?_⟩
      have hword := hexWord_hexDigit hcontrol rest
      have hlow : ¬ (0xDC00 ≤ c.toNat ∧ c.toNat ≤ 0xDFFF) := by omega
      have hhigh : ¬ (0xD800 ≤ c.toNat ∧ c.toNat ≤ 0xDBFF) := by omega
      refine ⟨?_, ?_⟩
      · simp only [List.cons_append, List.nil_append, readEscape, hword, if_neg hlow, if_neg hhigh,
          Char.ofNat_toNat]
      · simp only [List.cons_append, List.nil_append, skipEscape, hword]
    · exact .inl ⟨rfl, hquote, hslash, hcontrol⟩
  all_goals exact .inr ⟨_, rfl, fun rest => ⟨rfl, rfl⟩⟩

lemma length_le_length_flatMap_escape (cs : List Char) :
    cs.length ≤ (cs.flatMap escape).length := by
  induction cs with
  | nil => exact Nat.le_refl 0
  | cons c cs ih =>
    rw [List.flatMap_cons, List.length_append, List.length_cons]
    rcases escape_cases c with ⟨hplain, -⟩ | ⟨e, hescape, -⟩
    · rw [hplain, List.length_singleton]
      omega
    · rw [hescape, List.length_cons]
      omega

/-! ### Whole strings -/

/-- One step of reading: a character that is written is read. -/
lemma stringFrom_escape (x c : Char) (room read rest : List Char) :
    stringFrom (x :: room) read (escape c ++ rest) = stringFrom room (c :: read) rest := by
  rcases escape_cases c with ⟨hplain, hquote, hslash, hcontrol⟩ | ⟨e, hescape, hread⟩
  · rw [hplain, List.singleton_append, stringFrom]
    · rw [if_neg hcontrol]
    · exact hquote
    · exact hslash
  · rw [hescape, List.cons_append, stringFrom, (hread rest).1]

/-- One step of passing over: a character that is written is passed. -/
lemma skipStringFrom_escape (x c : Char) (room rest : List Char) :
    skipStringFrom (x :: room) (escape c ++ rest) = skipStringFrom room rest := by
  rcases escape_cases c with ⟨hplain, hquote, hslash, hcontrol⟩ | ⟨e, hescape, hread⟩
  · rw [hplain, List.singleton_append, skipStringFrom]
    · rw [if_neg hcontrol]
    · exact hquote
    · exact hslash
  · rw [hescape, List.cons_append, skipStringFrom, (hread rest).2]

lemma stringFrom_written (cs room read : List Char) (hroom : cs.length < room.length) :
    stringFrom room read (cs.flatMap escape ++ '\x22' :: rest)
      = .ok (String.ofList (read.reverse ++ cs), rest) := by
  induction cs generalizing room read with
  | nil =>
    cases room with
    | nil => exact absurd hroom (Nat.not_lt_zero _)
    | cons x room => simp [stringFrom]
  | cons c cs ih =>
    cases room with
    | nil => exact absurd hroom (Nat.not_lt_zero _)
    | cons x room =>
      rw [List.flatMap_cons, List.append_assoc, stringFrom_escape,
        ih room (c :: read) (Nat.lt_of_succ_lt_succ hroom), List.reverse_cons, List.append_assoc]
      rfl

lemma skipStringFrom_written (cs room : List Char) (hroom : cs.length < room.length) :
    skipStringFrom room (cs.flatMap escape ++ '\x22' :: rest) = .ok rest := by
  induction cs generalizing room with
  | nil =>
    cases room with
    | nil => exact absurd hroom (Nat.not_lt_zero _)
    | cons x room => simp [skipStringFrom]
  | cons c cs ih =>
    cases room with
    | nil => exact absurd hroom (Nat.not_lt_zero _)
    | cons x room =>
      rw [List.flatMap_cons, List.append_assoc, skipStringFrom_escape,
        ih room (Nat.lt_of_succ_lt_succ hroom)]

/-- A written string is longer than the string. -/
lemma length_lt_length_written (cs rest : List Char) :
    cs.length < (cs.flatMap escape ++ '\x22' :: rest).length := by
  have := length_le_length_flatMap_escape cs
  rw [List.length_append, List.length_cons]
  omega

/-- **A string that is written is read again**, from behind its opening quote. -/
theorem readString_written (s : String) (rest : List Char) :
    readString (s.toList.flatMap escape ++ '\x22' :: rest) = .ok (s, rest) := by
  rw [readString, stringFrom_written _ _ _ (length_lt_length_written _ _), List.reverse_nil,
    List.nil_append, String.ofList_toList]

/-- **A string that is written is passed over**, from behind its opening quote. -/
theorem skipString_written (s : String) (rest : List Char) :
    skipString (s.toList.flatMap escape ++ '\x22' :: rest) = .ok rest :=
  skipStringFrom_written _ _ (length_lt_length_written _ _)

/-- A written string begins with its opening quote. -/
lemma quoted_append (s : String) (rest : List Char) :
    quoted s ++ rest = '\x22' :: (s.toList.flatMap escape ++ '\x22' :: rest) := by
  simp [quoted]

end DiningRing.Json
