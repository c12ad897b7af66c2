/-
# Decoding JSON texts

A decoder reads a value of some type from the left of a text.  Decoders of numbers, flags,
texts, lists, names and records are given here, and `readValue`, which reads any value.  A
record is written as an object, its members in any order and members of other names between
them, or as an array of its fields in order.
-/
import DiningRing.Json.Scan

namespace DiningRing.Json

/-- A reader of values of a type. -/
abbrev Decoder (α : Type) := List Char → Reading α

/-- Decodes a whole text. -/
def decode {α : Type} (d : Decoder α) (text : String) : Except Refusal α :=
  match d text.toList with
  | .error e => .error e
  | .ok (a, cs) => if (dropBlanks cs).isEmpty then .ok a else .error .malformed

/-! ## Scalars -/

/-- The refusal of a value that is of another kind than asked for: scalars are read first,
and what is wrong with them goes before. -/
def otherKind (cs : List Char) : Refusal :=
  let after {α : Type} : Except Refusal α → Refusal
    | .error e => e
    | .ok _ => .mismatch
  match cs with
  | [] => .truncated
  | 'n' :: cs => after (word "ull".toList cs)
  | 't' :: cs => after (word "rue".toList cs)
  | 'f' :: cs => after (word "alse".toList cs)
  | '\x22' :: cs => after (readString cs)
  | '[' :: _ => .mismatch
  | '\x7b' :: _ => .mismatch
  | c :: cs => if c = '-' ∨ isDigit c then after (readNumber (c :: cs)) else .malformed

/-- Whether a number begins here. -/
def startsNumber : List Char → Bool
  | c :: _ => c == '-' || isDigit c
  | [] => false

/-- Reads an unsigned 64-bit number. -/
def readNat : Decoder Nat := fun cs =>
  let cs := dropBlanks cs
  if startsNumber cs then
    match readNumber cs with
    | .error e => .error e
    | .ok (.integer (.ofNat n), cs) => .ok (n, cs)
    | .ok _ => .error .mismatch
  else .error (otherKind cs)

/-- Reads a flag. -/
def readBool : Decoder Bool := fun cs =>
  match dropBlanks cs with
  | 't' :: cs => (word "rue".toList cs).map (Prod.mk true)
  | 'f' :: cs => (word "alse".toList cs).map (Prod.mk false)
  | cs => .error (otherKind cs)

/-- Reads a text. -/
def readText : Decoder String := fun cs =>
  match dropBlanks cs with
  | '\x22' :: cs => readString cs
  | cs => .error (otherKind cs)

/-- Reads nothing but `null`. -/
def readNull : Decoder Unit := fun cs =>
  match dropBlanks cs with
  | 'n' :: cs => (word "ull".toList cs).map (Prod.mk ())
  | cs => .error (otherKind cs)

/-- Reads a value, or `null` for none. -/
def readOption {α : Type} (d : Decoder α) : Decoder (Option α) := fun cs =>
  match dropBlanks cs with
  | 'n' :: cs => (word "ull".toList cs).map (Prod.mk none)
  | cs =>
    match d cs with
    | .error e => .error e
    | .ok (a, cs) => .ok (some a, cs)

/-! ## Lists -/

/-- Reads the rest of a list, `read` being its items so far, the last one first.  The
recursion runs over a list of characters that is no shorter than the text. -/
def itemsFrom {α : Type} (d : Decoder α) : List Char → Bool → List α → Decoder (List α)
  | [], _, _, _ => .error .truncated
  | _ :: room, isFirst, read, cs =>
    match nextItem isFirst cs with
    | .error e => .error e
    | .ok none => (closeArray cs).map (Prod.mk read.reverse)
    | .ok (some cs) =>
      match d cs with
      | .error e => .error e
      | .ok (a, cs) => itemsFrom d room false (a :: read) cs

/-- Reads a list. -/
def readList {α : Type} (d : Decoder α) : Decoder (List α) := fun cs =>
  match dropBlanks cs with
  | '[' :: cs => itemsFrom d cs true [] cs
  | cs => .error (otherKind cs)

/-! ## Names -/

/-- Reads one of several names: as a text, or as the key of an object whose one member is
`null`. -/
def readName {α : Type} (ofName? : String → Option α) : Decoder α := fun cs =>
  let known : Decoder α := fun cs =>
    match readText cs with
    | .error e => .error e
    | .ok (name, cs) =>
      match ofName? name with
      | some a => .ok (a, cs)
      | none => .error .mismatch
  match dropBlanks cs with
  | [] => .error .truncated
  | '\x22' :: cs => known ('\x22' :: cs)
  | '\x7b' :: cs =>
    match dropBlanks cs with
    | [] => .error .truncated
    | '\x22' :: cs =>
      match known ('\x22' :: cs) with
      | .error e => .error e
      | .ok (a, cs) =>
        match colon cs with
        | .error e => .error e
        | .ok cs =>
          match readNull cs with
          | .error e => .error e
          | .ok (_, cs) => (closeObject cs).map (Prod.mk a)
    | _ => .error .malformed
  | _ => .error .malformed

/-! ## Records -/

/-- A field of a record that is being read into a draft. -/
structure RecordField (σ : Type) where
  name : String
  /-- Whether the draft has this field already. -/
  filled : σ → Bool
  /-- Reads the field into the draft. -/
  read : σ → Decoder σ

/-- A field that is kept at some place of the draft. -/
def RecordField.keep {σ α : Type} (name : String) (get : σ → Option α) (put : σ → α → σ)
    (d : Decoder α) : RecordField σ where
  name := name
  filled s := (get s).isSome
  read s cs :=
    match d cs with
    | .error e => .error e
    | .ok (a, cs) => .ok (put s a, cs)

/-- Reads a record from behind the opening bracket of an array. -/
def readInOrder {σ : Type} : List (RecordField σ) → Bool → σ → Decoder σ
  | [], _, s, cs => (closeArray cs).map (Prod.mk s)
  | f :: fs, isFirst, s, cs =>
    match nextItem isFirst cs with
    | .error e => .error e
    | .ok none => .error .mismatch
    | .ok (some cs) =>
      match f.read s cs with
      | .error e => .error e
      | .ok (s, cs) => readInOrder fs false s cs

/-- Reads the value of a member whose key has been read. -/
def readMember {σ : Type} (fields : List (RecordField σ)) (key : String) (s : σ) : Decoder σ :=
    fun cs =>
  match fields.find? fun f => f.name == key with
  | some f =>
    if f.filled s then .error .mismatch
    else
      match colon cs with
      | .error e => .error e
      | .ok cs => f.read s cs
  | none =>
    match colon cs with
    | .error e => .error e
    | .ok cs => (skip cs).map (Prod.mk s)

/-- Reads a record from behind the opening bracket of an object.  The recursion runs over a
list of characters that is no shorter than the text. -/
def membersFrom {σ : Type} (fields : List (RecordField σ)) : List Char → Bool → σ → Decoder σ
  | [], _, _, _ => .error .truncated
  | _ :: room, isFirst, s, cs =>
    match nextKey isFirst cs with
    | .error e => .error e
    | .ok none => (closeObject cs).map (Prod.mk s)
    | .ok (some cs) =>
      match readString cs with
      | .error e => .error e
      | .ok (key, cs) =>
        match readMember fields key s cs with
        | .error e => .error e
        | .ok (s, cs) => membersFrom fields room false s cs

/-- Reads a record by way of a draft. -/
def readRecord {σ α : Type} (fields : List (RecordField σ)) (blank : σ) (finish : σ → Option α) :
    Decoder α := fun cs =>
  let completed : Reading σ → Reading α
    | .error e => .error e
    | .ok (s, cs) =>
      match finish s with
      | some a => .ok (a, cs)
      | none => .error .mismatch
  match dropBlanks cs with
  | '[' :: cs => completed (readInOrder fields true blank cs)
  | '\x7b' :: cs => completed (membersFrom fields cs true blank cs)
  | cs => .error (otherKind cs)

/-! ## Any value -/

/-- A number as a value. -/
def Number.toJson : Number → Json
  | .integer i => .integer i
  | .decimal m e => .decimal m e

/-- Reads the rest of an object, its values by `d`, `read` being its members so far, the last
one first.  The recursion runs over a list of characters that is no shorter than the text. -/
def pairsFrom {α : Type} (d : Decoder α) :
    List Char → Bool → List (String × α) → Decoder (List (String × α))
  | [], _, _, _ => .error .truncated
  | _ :: room, isFirst, read, cs =>
    match nextKey isFirst cs with
    | .error e => .error e
    | .ok none => (closeObject cs).map (Prod.mk read.reverse)
    | .ok (some cs) =>
      match readString cs with
      | .error e => .error e
      | .ok (key, cs) =>
        match colon cs with
        | .error e => .error e
        | .ok cs =>
          match d cs with
          | .error e => .error e
          | .ok (a, cs) => pairsFrom d room false ((key, a) :: read) cs

/-- Reads a value in which at most `depth` brackets are open at a time. -/
def readValue : Nat → Decoder Json
  | depth, cs =>
    match dropBlanks cs with
    | [] => .error .truncated
    | 'n' :: cs => (word "ull".toList cs).map (Prod.mk .null)
    | 't' :: cs => (word "rue".toList cs).map (Prod.mk (.bool true))
    | 'f' :: cs => (word "alse".toList cs).map (Prod.mk (.bool false))
    | '\x22' :: cs => (readString cs).map fun r => (.string r.1, r.2)
    | '[' :: cs =>
      match depth with
      | 0 => .error .malformed
      | depth + 1 => (itemsFrom (readValue depth) cs true [] cs).map fun r =>
          (.array r.1, r.2)
    | '\x7b' :: cs =>
      match depth with
      | 0 => .error .malformed
      | depth + 1 => (pairsFrom (readValue depth) cs true [] cs).map fun r =>
          (.object r.1, r.2)
    | c :: cs =>
      if c = '-' ∨ isDigit c then (readNumber (c :: cs)).map fun r => (r.1.toJson, r.2)
      else .error .malformed

/-- The value of a text in which at most 127 brackets are open at a time. -/
def parse (text : String) : Except Refusal Json := decode (readValue 127) text

end DiningRing.Json
