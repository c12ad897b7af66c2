/-
# JSON values

Values, and the two ways in which they are written: on one line without blanks, or with a
line for every item and member and two blanks for every level.
-/
namespace DiningRing

/-- A JSON value.  `decimal` stands for the numbers that are no 64-bit integers: its value is
`mantissa * 10 ^ exponent`. -/
inductive Json where
  | null
  | bool (b : Bool)
  | integer (i : Int)
  | decimal (mantissa exponent : Int)
  | string (s : String)
  | array (items : List Json)
  | object (members : List (String × Json))
deriving Repr, Inhabited

namespace Json

/-- A number that counts something. -/
def number (n : Nat) : Json := .integer n

/-! ## Writing strings -/

/-- The hexadecimal digit of a number below sixteen. -/
def hexDigit (n : Nat) : Char := Char.ofNat (if n < 10 then 48 + n else 87 + n)

/-- How a character is written inside a string. -/
def escape (c : Char) : List Char :=
  match c with
  | '\x22' => ['\\', '\x22']
  | '\\' => ['\\', '\\']
  | '\x08' => ['\\', 'b']
  | '\x0c' => ['\\', 'f']
  | '\n' => ['\\', 'n']
  | '\r' => ['\\', 'r']
  | '\t' => ['\\', 't']
  | c =>
    if c.toNat < 32 then ['\\', 'u', '0', '0', hexDigit (c.toNat / 16), hexDigit (c.toNat % 16)]
    else [c]

/-- A string as it is written, quotes included. -/
def quoted (s : String) : List Char := '\x22' :: s.toList.flatMap escape ++ ['\x22']

/-! ## Writing values -/

/-- How a value is laid out. -/
inductive Layout where
  /-- On one line, without blanks. -/
  | compact
  /-- Line by line, with two blanks for each level around. -/
  | indented (level : Nat)
deriving DecidableEq, Repr

namespace Layout

/-- The layout of what stands inside. -/
def inner : Layout → Layout
  | compact => compact
  | indented level => indented (level + 1)

/-- What stands before every item, and before the closing bracket. -/
def lineBreak : Layout → List Char
  | compact => []
  | indented level => '\n' :: List.replicate (2 * level) ' '

/-- What stands between a key and its value. -/
def colon : Layout → List Char
  | compact => [':']
  | indented _ => [':', ' ']

end Layout

/-- An integer as it is written. -/
def integerText (i : Int) : List Char :=
  match i with
  | .ofNat n => (Nat.repr n).toList
  | .negSucc n => '-' :: (Nat.repr (n + 1)).toList

mutual

/-- A value as it is written. -/
def render (l : Layout) : Json → List Char
  | null => "null".toList
  | bool true => "true".toList
  | bool false => "false".toList
  | integer i => integerText i
  | decimal m e => integerText m ++ 'e' :: integerText e
  | string s => quoted s
  | array [] => ['[', ']']
  | array (x :: xs) =>
    '[' :: l.inner.lineBreak ++ render l.inner x ++ renderItems l xs
  | object [] => ['\x7b', '\x7d']
  | object ((k, v) :: rest) =>
    '\x7b' :: l.inner.lineBreak ++ quoted k ++ l.colon ++ render l.inner v ++ renderMembers l rest

/-- The further items of an array, and its end. -/
def renderItems (l : Layout) : List Json → List Char
  | [] => l.lineBreak ++ [']']
  | x :: xs => ',' :: l.inner.lineBreak ++ render l.inner x ++ renderItems l xs

/-- The further members of an object, and its end. -/
def renderMembers (l : Layout) : List (String × Json) → List Char
  | [] => l.lineBreak ++ ['\x7d']
  | (k, v) :: rest =>
    ',' :: l.inner.lineBreak ++ quoted k ++ l.colon ++ render l.inner v ++ renderMembers l rest

end

/-- The text of a value on one line. -/
def compact (j : Json) : String := String.ofList (j.render .compact)

/-- The text of a value line by line. -/
def pretty (j : Json) : String := String.ofList (j.render (.indented 0))

/-! ## Looking into values -/

/-- The value of a member, of the last one if several have its name. -/
def member? (j : Json) (name : String) : Option Json :=
  match j with
  | object members => (members.reverse.find? fun m => m.1 == name).map Prod.snd
  | null | bool _ | integer _ | decimal _ _ | string _ | array _ => none

end Json

end DiningRing
