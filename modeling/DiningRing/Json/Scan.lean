/-
# Scanning JSON texts

Readers of numbers, strings and words, and `skip`, which passes over one value.  A reader
takes the characters that are left and returns what it has read with the characters after
it.  Of several faults the one furthest to the left is reported.
-/
import DiningRing.Json
import DiningRing.Word

namespace DiningRing.Json

/-! ## Refusals -/

/-- Why a text is refused. -/
inductive Refusal where
  /-- It is no JSON. -/
  | malformed
  /-- It is JSON, but not of the type asked for. -/
  | mismatch
  /-- It ends too early. -/
  | truncated
deriving DecidableEq, Repr

/-- What a reader returns: a value with the characters after it, or a refusal. -/
abbrev Reading (α : Type) := Except Refusal (α × List Char)

/-! ## Blanks and words -/

/-- Whether a character may stand between the parts of a value. -/
def isBlank (c : Char) : Bool := c == ' ' || c == '\n' || c == '\t' || c == '\r'

/-- The characters from the first one on that is not blank. -/
def dropBlanks (cs : List Char) : List Char := cs.dropWhile isBlank

/-- Reads the characters of a word. -/
def word : List Char → List Char → Except Refusal (List Char)
  | [], cs => .ok cs
  | _ :: _, [] => .error .truncated
  | w :: ws, c :: cs => if c = w then word ws cs else .error .malformed

/-! ## Numbers -/

/-- Whether a character is a decimal digit. -/
def isDigit (c : Char) : Bool := '0' ≤ c && c ≤ '9'

/-- The number that digits stand for. -/
def digitsValue (ds : List Char) : Nat := ds.foldl (fun n c => 10 * n + (c.toNat - 48)) 0

/-- One or more digits. -/
def digits (cs : List Char) : Reading (List Char) :=
  match cs.takeWhile isDigit with
  | [] => .error (if cs.isEmpty then .truncated else .malformed)
  | ds => .ok (ds, cs.dropWhile isDigit)

/-- A number in parts: its sign, its digits before and after the point, and its exponent. -/
structure Numeral where
  negative : Bool
  whole : List Char
  fraction : Option (List Char)
  exponent : Option Int
deriving DecidableEq, Repr

/-- The digits before the point, which do not begin with a zero unless there is no other. -/
def wholeDigits (cs : List Char) : Reading (List Char) :=
  match digits cs with
  | .error e => .error e
  | .ok ('0' :: _ :: _, _) => .error .malformed
  | .ok r => .ok r

/-- The digits after a point, if there is one. -/
def fraction? (cs : List Char) : Reading (Option (List Char)) :=
  match cs with
  | '.' :: cs =>
    match digits cs with
    | .error e => .error e
    | .ok (ds, cs) => .ok (some ds, cs)
  | cs => .ok (none, cs)

/-- The sign of an exponent. -/
def exponentSign (cs : List Char) : Int × List Char :=
  match cs with
  | '+' :: cs => (1, cs)
  | '-' :: cs => (-1, cs)
  | cs => (1, cs)

/-- The exponent after an `e`. -/
def exponentAfter (cs : List Char) : Reading (Option Int) :=
  let (sign, cs) := exponentSign cs
  match digits cs with
  | .error e => .error e
  | .ok (ds, cs) => .ok (some (sign * digitsValue ds), cs)

/-- The exponent, if there is one. -/
def exponent? (cs : List Char) : Reading (Option Int) :=
  match cs with
  | 'e' :: cs => exponentAfter cs
  | 'E' :: cs => exponentAfter cs
  | cs => .ok (none, cs)

/-- Reads a number in parts, after its sign. -/
def unsignedNumeral (negative : Bool) (cs : List Char) : Reading Numeral :=
  match wholeDigits cs with
  | .error e => .error e
  | .ok (whole, cs) =>
    match fraction? cs with
    | .error e => .error e
    | .ok (fraction, cs) =>
      match exponent? cs with
      | .error e => .error e
      | .ok (exponent, cs) => .ok (⟨negative, whole, fraction, exponent⟩, cs)

/-- Reads a number in parts. -/
def numeral (cs : List Char) : Reading Numeral :=
  match cs with
  | '-' :: cs => unsignedNumeral true cs
  | cs => unsignedNumeral false cs

/-- The numbers as they are told apart: integers of 64 bits, and all others. -/
inductive Number where
  | integer (i : Int)
  | decimal (mantissa exponent : Int)
deriving DecidableEq, Repr

namespace Numeral

/-- The number that all digits stand for, and the power of ten by which it is multiplied. -/
def scaled (n : Numeral) : Nat × Int :=
  let fraction := n.fraction.getD []
  (digitsValue (n.whole ++ fraction), n.exponent.getD 0 - fraction.length)

/-- Takes as many digits into a mantissa as leave it a 64-bit word; returns the mantissa and
the digits left over. -/
def absorb (mantissa : Nat) : List Char → Nat × List Char
  | [] => (mantissa, [])
  | d :: ds =>
    let larger := 10 * mantissa + (d.toNat - 48)
    if larger < Word.modulus then absorb larger ds else (mantissa, d :: ds)

/-- The number by its leading digits only: those that fit into a word, and the power of ten
by which they are multiplied. -/
def leading (n : Numeral) : Nat × Int :=
  let (mantissa, uncounted) := absorb 0 n.whole
  let fraction := n.fraction.getD []
  let (mantissa, unread) := absorb mantissa fraction
  (mantissa, n.exponent.getD 0 + uncounted.length - (fraction.length - unread.length))

/-- The nearest number whose binary digits after the first 53 are zeros; of two, the one
whose last such digit is zero. -/
def roundBinary (n : Nat) : Nat :=
  let unit := Nat.pow 2 (n.log2 - 52)
  let quotient := n / unit
  let twice := 2 * (n % unit)
  if unit < twice ∨ (twice = unit ∧ quotient % 2 = 1) then (quotient + 1) * unit
  else quotient * unit

/-- The least number that does not round to a double any more. -/
def doubleBound : Nat := Nat.pow 2 1024 - Nat.pow 2 970

/-- Whether a number is too large for a double, as the product of a word and a power of ten
that are rounded each on its own. -/
def exceedsDouble (mantissa : Nat) (exponent : Int) : Bool :=
  if mantissa = 0 ∨ exponent < 0 then false
  else if 308 < exponent then true
  else doubleBound ≤ roundBinary mantissa * roundBinary (Nat.pow 10 exponent.toNat)

/-- The signed number of a mantissa. -/
def sign (n : Numeral) (mantissa : Nat) : Int := if n.negative then -mantissa else mantissa

/-- Whether a numeral without point and exponent is an integer of 64 bits; minus zero is
none. -/
def isWord (negative : Bool) (value : Nat) : Bool :=
  if negative then 0 < value && value ≤ Word.half else value < Word.modulus

/-- The number of a numeral, if it is not too large. -/
def number? (n : Numeral) : Option Number :=
  let (mantissa, exponent) := n.scaled
  let (lead, power) := n.leading
  if n.fraction.isNone && n.exponent.isNone && isWord n.negative mantissa then
    some (.integer (n.sign mantissa))
  else if exceedsDouble lead power then none
  else some (.decimal (n.sign mantissa) exponent)

end Numeral

/-- Reads a number. -/
def readNumber (cs : List Char) : Reading Number :=
  match numeral cs with
  | .error e => .error e
  | .ok (n, cs) =>
    match n.number? with
    | some number => .ok (number, cs)
    | none => .error .malformed

/-! ## Strings -/

/-- The value of a hexadecimal digit. -/
def hexValue? (c : Char) : Option Nat :=
  if '0' ≤ c ∧ c ≤ '9' then some (c.toNat - 48)
  else if 'a' ≤ c ∧ c ≤ 'f' then some (c.toNat - 87)
  else if 'A' ≤ c ∧ c ≤ 'F' then some (c.toNat - 55)
  else none

/-- The number of bytes that characters take. -/
def byteCount (cs : List Char) : Nat := (cs.map Char.utf8Size).foldr (· + ·) 0

/-- Reads four hexadecimal digits.  They are looked for in the next four bytes. -/
def hexWord (cs : List Char) : Reading Nat :=
  match cs with
  | a :: b :: c :: d :: rest =>
    match hexValue? a, hexValue? b, hexValue? c, hexValue? d with
    | some a, some b, some c, some d => .ok (((a * 16 + b) * 16 + c) * 16 + d, rest)
    | _, _, _, _ => .error .malformed
  | cs => .error (if byteCount cs < 4 then .truncated else .malformed)

/-- Reads the second half of a surrogate pair, the first half being `high`. -/
def lowSurrogate (high : Nat) (cs : List Char) : Reading Char :=
  match cs with
  | [] => .error .truncated
  | ['\\'] => .error .truncated
  | '\\' :: 'u' :: cs =>
    match hexWord cs with
    | .error e => .error e
    | .ok (low, cs) =>
      if 0xDC00 ≤ low ∧ low ≤ 0xDFFF then
        .ok (Char.ofNat (0x10000 + (high - 0xD800) * 0x400 + (low - 0xDC00)), cs)
      else .error .malformed
  | _ => .error .malformed

/-- The character that a letter after a backslash stands for. -/
def simpleEscape? : Char → Option Char
  | '\x22' => some '\x22'
  | '\\' => some '\\'
  | '/' => some '/'
  | 'b' => some '\x08'
  | 'f' => some '\x0c'
  | 'n' => some '\n'
  | 'r' => some '\r'
  | 't' => some '\t'
  | _ => none

/-- Reads what follows a backslash. -/
def readEscape (cs : List Char) : Reading Char :=
  match cs with
  | [] => .error .truncated
  | 'u' :: cs =>
    match hexWord cs with
    | .error e => .error e
    | .ok (n, cs) =>
      if 0xDC00 ≤ n ∧ n ≤ 0xDFFF then .error .malformed
      else if 0xD800 ≤ n ∧ n ≤ 0xDBFF then lowSurrogate n cs
      else .ok (Char.ofNat n, cs)
  | c :: cs =>
    match simpleEscape? c with
    | some d => .ok (d, cs)
    | none => .error .malformed

/-- Reads a string from behind its opening quote, `read` being what has been read of it,
last character first.  The recursion runs over the first list, which is no shorter than the
text. -/
def stringFrom : List Char → List Char → List Char → Reading String
  | [], _, _ => .error .truncated
  | _ :: _, _, [] => .error .truncated
  | _ :: _, read, '\x22' :: cs => .ok (String.ofList read.reverse, cs)
  | _ :: room, read, '\\' :: cs =>
    match readEscape cs with
    | .error e => .error e
    | .ok (c, cs) => stringFrom room (c :: read) cs
  | _ :: room, read, c :: cs =>
    if c.toNat < 32 then .error .malformed else stringFrom room (c :: read) cs

/-- Reads a string from behind its opening quote. -/
def readString (cs : List Char) : Reading String := stringFrom cs [] cs

/-- Passes over what follows a backslash.  Surrogates need not be paired. -/
def skipEscape (cs : List Char) : Except Refusal (List Char) :=
  match cs with
  | [] => .error .truncated
  | 'u' :: cs =>
    match hexWord cs with
    | .error e => .error e
    | .ok (_, cs) => .ok cs
  | c :: cs => if (simpleEscape? c).isSome then .ok cs else .error .malformed

/-- Passes over a string from behind its opening quote.  The recursion runs over the first
list, which is no shorter than the text. -/
def skipStringFrom : List Char → List Char → Except Refusal (List Char)
  | [], _ => .error .truncated
  | _ :: _, [] => .error .truncated
  | _ :: _, '\x22' :: cs => .ok cs
  | _ :: room, '\\' :: cs =>
    match skipEscape cs with
    | .error e => .error e
    | .ok cs => skipStringFrom room cs
  | _ :: room, c :: cs => if c.toNat < 32 then .error .malformed else skipStringFrom room cs

/-- Passes over a string from behind its opening quote. -/
def skipString (cs : List Char) : Except Refusal (List Char) := skipStringFrom cs cs

/-! ## The parts of arrays and objects -/

/-- Looks for the next item of an array: none if the array ends here, else the characters
from the item on. -/
def nextItem (isFirst : Bool) (cs : List Char) : Except Refusal (Option (List Char)) :=
  match dropBlanks cs with
  | [] => .error .truncated
  | ']' :: _ => .ok none
  | ',' :: cs =>
    if isFirst then .ok (some (',' :: cs))
    else
      match dropBlanks cs with
      | [] => .error .truncated
      | ']' :: _ => .error .malformed
      | cs => .ok (some cs)
  | cs => if isFirst then .ok (some cs) else .error .malformed

/-- Reads the end of an array. -/
def closeArray (cs : List Char) : Except Refusal (List Char) :=
  match dropBlanks cs with
  | [] => .error .truncated
  | ']' :: cs => .ok cs
  | _ => .error .malformed

/-- Looks for the next key of an object: none if the object ends here, else the characters
from behind the key's opening quote on. -/
def nextKey (isFirst : Bool) (cs : List Char) : Except Refusal (Option (List Char)) :=
  match dropBlanks cs with
  | [] => .error .truncated
  | '\x7d' :: _ => .ok none
  | ',' :: cs =>
    if isFirst then .error .malformed
    else
      match dropBlanks cs with
      | [] => .error .truncated
      | '\x22' :: cs => .ok (some cs)
      | _ => .error .malformed
  | '\x22' :: cs => if isFirst then .ok (some cs) else .error .malformed
  | _ => .error .malformed

/-- Reads the end of an object. -/
def closeObject (cs : List Char) : Except Refusal (List Char) :=
  match dropBlanks cs with
  | [] => .error .truncated
  | '\x7d' :: cs => .ok cs
  | _ => .error .malformed

/-- Reads the colon after a key. -/
def colon (cs : List Char) : Except Refusal (List Char) :=
  match dropBlanks cs with
  | [] => .error .truncated
  | ':' :: cs => .ok cs
  | _ => .error .malformed

/-! ## Passing over a value -/

/-- Passes over a number.  It may not end too early, and its size does not matter. -/
def skipNumber (cs : List Char) : Except Refusal (List Char) :=
  match numeral cs with
  | .error _ => .error .malformed
  | .ok (_, cs) => .ok cs

/-- The brackets that enclose other values. -/
inductive Bracket where
  | array
  | object
deriving DecidableEq, Repr

namespace Bracket

/-- Looks for the next value between brackets: none if they are closed here, else the
characters from the value on. -/
def next (b : Bracket) (isFirst : Bool) (cs : List Char) : Except Refusal (Option (List Char)) :=
  match b with
  | array => nextItem isFirst cs
  | object =>
    match nextKey isFirst cs with
    | .error e => .error e
    | .ok none => .ok none
    | .ok (some cs) =>
      match skipString cs with
      | .error e => .error e
      | .ok cs => (colon cs).map some

/-- Reads the closing bracket. -/
def close : Bracket → List Char → Except Refusal (List Char)
  | array, cs => closeArray cs
  | object, cs => closeObject cs

end Bracket

/-- Passes over a value without parts, or over the bracket that opens a value. -/
def skipHead (cs : List Char) : Reading (Option Bracket) :=
  match dropBlanks cs with
  | [] => .error .truncated
  | 'n' :: cs => (word "ull".toList cs).map (Prod.mk none)
  | 't' :: cs => (word "rue".toList cs).map (Prod.mk none)
  | 'f' :: cs => (word "alse".toList cs).map (Prod.mk none)
  | '\x22' :: cs => (skipString cs).map (Prod.mk none)
  | '[' :: cs => .ok (some .array, cs)
  | '\x7b' :: cs => .ok (some .object, cs)
  | c :: cs =>
    if c = '-' ∨ isDigit c then (skipNumber (c :: cs)).map (Prod.mk none)
    else .error .malformed

/-- Closes the brackets that are open, the innermost first, and passes over what is between
them.  The recursion runs over the first list, which is no shorter than the text: each step
takes a value, an opening or a closing bracket off. -/
def skipOpen : List Char → Bool → List Bracket → List Char → Except Refusal (List Char)
  | _, _, [], cs => .ok cs
  | [], _, _ :: _, _ => .error .truncated
  | _ :: room, isFirst, b :: outer, cs =>
    match b.next isFirst cs with
    | .error e => .error e
    | .ok none =>
      match b.close cs with
      | .error e => .error e
      | .ok cs => skipOpen room false outer cs
    | .ok (some cs) =>
      match skipHead cs with
      | .error e => .error e
      | .ok (none, cs) => skipOpen room false (b :: outer) cs
      | .ok (some inner, cs) => skipOpen room true (inner :: b :: outer) cs

/-- Passes over a value. -/
def skip (cs : List Char) : Except Refusal (List Char) :=
  match skipHead cs with
  | .error e => .error e
  | .ok (none, cs) => .ok cs
  | .ok (some b, cs) => skipOpen cs true [b] cs

end DiningRing.Json
