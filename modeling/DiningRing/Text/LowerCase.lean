/-
# Lower case

The full lower-casing of the Unicode standard, without language-specific rules.  Two letters
need more than the table: the capital I with a dot above becomes two characters, and the
capital sigma becomes the final form at the end of a word.
-/
import DiningRing.Text.Blank
import DiningRing.Text.CaseTable

namespace DiningRing.Text

/-- The code point of the lower-case form of a letter that has one of one letter. -/
def lowerCode (code : Nat) : Nat :=
  match CaseTable.lowering.find? fun r =>
      r.first ≤ code && code ≤ r.last && (code - r.first) % r.stride == 0 with
  | some r => (code + r.shift).toNat
  | none => code

/-- The lower-case form of a letter outside any word. -/
def lowerChar (c : Char) : List Char :=
  if c.toNat = 0x130 then ['i', Char.ofNat 0x307] else [Char.ofNat (lowerCode c.toNat)]

/-- Whether the first character that counts, marks and signs passed over, is a letter with a
case. -/
def startsCased (cs : List Char) : Bool :=
  match cs.dropWhile fun c => within CaseTable.ignorable c.toNat with
  | c :: _ => within CaseTable.cased c.toNat
  | [] => false

/-- The lower-case form of a capital sigma between the characters before it, nearest first,
and those after it: the final form at the end of a word that it does not begin. -/
def lowerSigma (before after : List Char) : Char :=
  if startsCased before && !startsCased after then Char.ofNat 0x3C2 else Char.ofNat 0x3C3

/-- Lower case of what follows the characters `before`, which stand nearest first. -/
def lowerFrom (before : List Char) : List Char → List Char
  | [] => []
  | c :: rest =>
    (if c.toNat = 0x3A3 then [lowerSigma before rest] else lowerChar c)
      ++ lowerFrom (c :: before) rest

/-- A text in lower case. -/
def lowerCase (s : String) : String := String.ofList (lowerFrom [] s.toList)

end DiningRing.Text
