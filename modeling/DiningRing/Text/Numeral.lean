/-
# Numerals

Reading an unsigned 64-bit number from text, and writing one right-aligned.  A numeral is
one or more ASCII digits, perhaps after a plus sign; characters are judged from the left, so
of a stray character and a value that is too large the one that shows first is reported.
-/
import DiningRing.Word

namespace DiningRing.Numeral

/-- Why a text is no numeral. -/
inductive Refusal where
  | empty
  | invalidDigit
  | tooLarge
deriving DecidableEq, Repr

/-- The wording of a refusal. -/
def Refusal.text : Refusal → String
  | .empty => "cannot parse integer from empty string"
  | .invalidDigit => "invalid digit found in string"
  | .tooLarge => "number too large to fit in target type"

/-- The value of an ASCII digit. -/
def digit? (c : Char) : Option Nat :=
  if '0' ≤ c ∧ c ≤ '9' then some (c.toNat - '0'.toNat) else none

/-- Reads digits onto a value that stays below `bound`. -/
def digits (bound : Nat) : Nat → List Char → Except Refusal Nat
  | value, [] => .ok value
  | value, c :: rest =>
    match digit? c with
    | none => .error .invalidDigit
    | some d =>
      let value' := 10 * value + d
      if value' < bound then digits bound value' rest else .error .tooLarge

/-- Reads a numeral with a value below `bound`. -/
def parseBelow (bound : Nat) (s : String) : Except Refusal Nat :=
  match s.toList with
  | [] => .error .empty
  | ['+'] => .error .invalidDigit
  | '+' :: rest => digits bound 0 rest
  | cs => digits bound 0 cs

/-- Reads an unsigned 64-bit number. -/
def parse (s : String) : Except Refusal Nat := parseBelow Word.modulus s

/-- A number with blanks before it, at least `width` characters wide. -/
def padded (width n : Nat) : String :=
  String.ofList (List.leftpad width ' ' (Nat.repr n).toList)

end DiningRing.Numeral
