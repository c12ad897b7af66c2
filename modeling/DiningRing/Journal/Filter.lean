/-
# Filters of the journal

A filter is a list of directives, separated by commas.  A directive says up to which level
entries are let through, and perhaps which entries it is about: those whose target begins
with some text, or those that have some field.  It is written `level`, `target`,
`target=level` or `target[{field}]=level`, where a level that is left out lets everything
through.  The most specific directive about an entry decides, and of directives about the
same entries the last one.
-/
import DiningRing.Journal
import DiningRing.Text.Blank
import DiningRing.Text.Numeral

namespace DiningRing.Journal

/-! ## Thresholds -/

/-- The least severe level that is let through, or none if nothing is. -/
abbrev Threshold := Option Level

namespace Threshold

/-- Whether an entry of a level is let through. -/
def admits (t : Threshold) (level : Level) : Bool :=
  match t with
  | some least => level.rank ≤ least.rank
  | none => false

/-- The threshold that a number stands for. -/
def ofNumber? : Nat → Option Threshold
  | 0 => some none
  | 1 => some (some .error)
  | 2 => some (some .warn)
  | 3 => some (some .info)
  | 4 => some (some .debug)
  | 5 => some (some .trace)
  | _ => none

/-- The threshold that a name stands for, whatever the case of its letters. -/
def ofName? (name : String) : Option Threshold :=
  let name := name.map Char.toLower
  if name = "off" then some none else (Level.ofName? name).map some

/-- The threshold that a text stands for. -/
def ofText? (text : String) : Option Threshold :=
  match Numeral.parse text with
  | .ok n => ofNumber? n
  | .error _ => ofName? text

end Threshold

/-! ## Directives -/

/-- A directive. -/
structure Directive where
  /-- How the targets of the entries begin that it is about. -/
  target : Option String
  /-- A field that the entries have that it is about. -/
  field : Option String
  threshold : Threshold
deriving DecidableEq, Repr

namespace Directive

/-- Whether an entry has a field of some name. -/
def hasField (e : Entry) (name : String) : Bool :=
  name == "message" || e.fields.any fun f => f.1 == name

/-- Whether a directive is about an entry. -/
def concerns (d : Directive) (e : Entry) : Bool :=
  d.target.all (fun t => t.toList.isPrefixOf e.target.toList) && d.field.all (hasField e)

/-- How specific a directive is: the length of its target counts first, then whether it names
a field. -/
def rank (d : Directive) : Nat × Nat :=
  ((d.target.map fun t => t.utf8ByteSize + 1).getD 0, if d.field.isSome then 1 else 0)

/-- Whether a directive is at least as specific as another one; between fields the later name
counts as the more specific one. -/
def outranks (d other : Directive) : Bool :=
  if d.rank = other.rank then other.field.getD "" ≤ d.field.getD ""
  else other.rank.1 < d.rank.1 || (other.rank.1 == d.rank.1 && other.rank.2 < d.rank.2)

/-- The directive that decides about an entry. -/
def deciding? (ds : List Directive) (e : Entry) : Option Directive :=
  (ds.filter fun d => d.concerns e).foldl
    (fun best d =>
      match best with
      | some b => if d.outranks b then some d else some b
      | none => some d)
    none

end Directive

/-! ## Reading directives -/

/-- A directive as it is written. -/
structure Phrase where
  target : List Char
  /-- What stands in brackets: the name of a span, and a field. -/
  scope : Option (List Char × Option (List Char))
  /-- What stands after the equals sign. -/
  level : Option (List Char)
deriving DecidableEq, Repr

namespace Phrase

/-- Whether a character may be the first one of a target or a level: a letter, a digit, or
one of three signs.  Beyond ASCII all characters count as letters. -/
def opens (c : Char) : Bool :=
  c.isAlphanum || c == '-' || c == ':' || c == '_' || 128 ≤ c.toNat

/-- Reads the end of a directive, after its brackets. -/
def readEnd (target : List Char) (scope : List Char × Option (List Char)) :
    List Char → Option Phrase
  | '=' :: level => some ⟨target, some scope, some level⟩
  | cs => if cs.all Text.isBlank then some ⟨target, some scope, none⟩ else none

/-- Reads what stands in brackets, and the end. -/
def readScope (target : List Char) (cs : List Char) : Option Phrase :=
  let within (c : Char) : Bool := c != ']' && c != '\x7b'
  let span := cs.takeWhile within
  match cs.dropWhile within with
  | ']' :: cs => readEnd target (span, none) cs
  | '\x7b' :: cs =>
    let field := cs.takeWhile (· != '\x7d')
    match cs.dropWhile (· != '\x7d') with
    | '\x7d' :: ']' :: cs =>
      if field.isEmpty then none else readEnd target (span, some field) cs
    | _ => none
  | _ => none

/-- Reads a directive that does not begin with a blank. -/
def read (cs : List Char) : Option Phrase :=
  let within (c : Char) : Bool := c != '=' && c != '['
  let target := cs.takeWhile within
  match cs.dropWhile within with
  | [] => some ⟨target, none, none⟩
  | '[' :: cs => readScope target cs
  | _ :: level => some ⟨target, none, some level⟩

/-- The threshold of a phrase: everything is let through where no level is written. -/
def threshold? (p : Phrase) : Option Threshold :=
  match p.level with
  | none | some [] => some (some .trace)
  | some level => Threshold.ofText? (String.ofList level)

/-- The target of a phrase. -/
def targetName? (p : Phrase) : Option String :=
  if p.target.isEmpty then none else some (String.ofList p.target)

/-- The directive that a phrase with a threshold is.  One about spans, or about the values of
fields, is about no entry. -/
def directive? (p : Phrase) (t : Threshold) : Option Directive :=
  match p.scope with
  | none =>
    match p.level, Threshold.ofText? (String.ofList p.target) with
    | none, some t => some ⟨none, none, t⟩
    | _, _ => some ⟨p.targetName?, none, t⟩
  | some ([], some field) =>
    if field.contains '=' then none else some ⟨p.targetName?, some (String.ofList field), t⟩
  | some _ => none

end Phrase

namespace Directive

/-- Reads one of the directives of a filter, which may turn out to be about no entry.  With a
blank before it a directive may have no level, and is about no entry. -/
def read (piece : List Char) : Option (Option Directive) :=
  let body := piece.dropWhile Text.isBlank
  match body with
  | [] => none
  | c :: _ =>
    if c != '[' && !Phrase.opens c then none
    else
      match Phrase.read body with
      | none => none
      | some p =>
        match p.threshold? with
        | none => none
        | some t =>
          if body.length = piece.length then some (p.directive? t)
          else if p.level.isNone then some none
          else none

end Directive

/-! ## Filters -/

/-- A filter. -/
abbrev Filter := List Directive

namespace Filter

/-- The filter that holds where none can be read. -/
def fallback : Filter := [⟨none, none, some .info⟩]

/-- Reads a filter; empty directives are passed over. -/
def read? (text : String) : Option Filter :=
  let pieces := (text.toList.splitOn ',').filter fun piece => !piece.isEmpty
  (pieces.mapM Directive.read).map fun ds => ds.filterMap id

/-- The filter that a text stands for. -/
def ofText (text : String) : Filter := (read? text).getD fallback

/-- Whether a filter lets an entry through. -/
def admits (f : Filter) (e : Entry) : Bool :=
  match Directive.deciding? f e with
  | some d => d.threshold.admits e.level
  | none => false

end Filter

/-- The entries that a filter lets through. -/
def through (f : Filter) (j : Journal) : Journal := j.filter f.admits

end DiningRing.Journal
