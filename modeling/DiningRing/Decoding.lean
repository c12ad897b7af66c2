/-
# Values from JSON

Decoders of what `Encoding` writes.  A record may have its members in any order and further
members of other names; a member that may be none may be left out.
-/
import DiningRing.Encoding
import DiningRing.Json.Decode

namespace DiningRing

open Json (Decoder RecordField Reading)

/-- Reads a value by its name. -/
def Named.decoder {α : Type} [Named α] : Decoder α := Json.readName Named.ofName?

/-! ## Starting positions and events -/

/-- A starting position of which some fields are known. -/
structure Assignment.Draft where
  left : Option Placement := none
  right : Option Placement := none
  order : Option Order := none

namespace Assignment.Draft

/-- The fields of a starting position. -/
def fields : List (RecordField Draft) := [
  .keep "left" left (fun d x => { d with left := some x }) Named.decoder,
  .keep "right" right (fun d x => { d with right := some x }) Named.decoder,
  .keep "order" order (fun d x => { d with order := some x }) Named.decoder]

/-- The starting position of a draft that has all fields. -/
def finish (d : Draft) : Option Assignment :=
  match d.left, d.right, d.order with
  | some left, some right, some order => some ⟨left, right, order⟩
  | _, _, _ => none

end Assignment.Draft

/-- Reads a starting position. -/
def Assignment.decoder : Decoder Assignment :=
  Json.readRecord Draft.fields {} Draft.finish

/-- An event of which some fields are known. -/
structure Event.Draft where
  seat : Option Nat := none
  transition : Option Transition := none

namespace Event.Draft

/-- The fields of an event. -/
def fields : List (RecordField Draft) := [
  .keep "seat" seat (fun d x => { d with seat := some x }) Json.readNat,
  .keep "transition" transition (fun d x => { d with transition := some x }) Named.decoder]

/-- The event of a draft that has all fields. -/
def finish (d : Draft) : Option Event :=
  match d.seat, d.transition with
  | some seat, some transition => some ⟨seat, transition⟩
  | _, _ => none

end Event.Draft

/-- Reads an event. -/
def Event.decoder : Decoder Event := Json.readRecord Draft.fields {} Draft.finish

/-! ## Outcomes -/

namespace Outcome

/-- The kinds of outcomes. -/
inductive Kind where
  | completed
  | deadlocked
  | scheduleExhausted
deriving DecidableEq, Repr

/-- The kind of a name. -/
def Kind.ofName? : String → Option Kind
  | "completed" => some completed
  | "deadlocked" => some deadlocked
  | "schedule_exhausted" => some scheduleExhausted
  | _ => none

/-- Reads the name of a kind. -/
def Kind.decoder : Decoder Kind := fun cs =>
  match Json.readText cs with
  | .error e => .error e
  | .ok (name, cs) =>
    match ofName? name with
    | some k => .ok (k, cs)
    | none => .error .mismatch

/-- The unsigned 64-bit number that a value is. -/
def number? : Json → Option Nat
  | .integer (.ofNat n) => some n
  | _ => none

/-- The outcome of a kind with one step, from which the others are made. -/
def ofStep? (kind : Kind) (step : Option Nat) : Option Outcome :=
  match kind with
  | .completed => some completed
  | .deadlocked => step.map deadlocked
  | .scheduleExhausted => step.map scheduleExhausted

/-- The outcome of a kind and the other members of its object: where there is a step, there
is one member of that name. -/
def ofMembers? (kind : Kind) (members : List (String × Json)) : Option Outcome :=
  match members.filter fun m => m.1 == "step" with
  | [(_, v)] => ofStep? kind (number? v)
  | _ => ofStep? kind none

/-- The outcome of a kind and the items after it in an array: where there is a step, it is
the one item. -/
def ofItems? (kind : Kind) (items : List Json) : Option Outcome :=
  match kind, items with
  | .completed, [] => some completed
  | .completed, _ :: _ => none
  | kind, [v] => ofStep? kind (number? v)
  | _, _ => none

/-- Reads the rest of an object that has a kind among its members.  The recursion runs over
a list of characters that is no shorter than the text. -/
def membersFrom (depth : Nat) : List Char → Bool → Option Kind → List (String × Json) →
    Decoder (Option Kind × List (String × Json))
  | [], _, _, _, _ => .error .truncated
  | _ :: room, isFirst, kind, read, cs =>
    match Json.nextKey isFirst cs with
    | .error e => .error e
    | .ok none => (Json.closeObject cs).map (Prod.mk (kind, read.reverse))
    | .ok (some cs) =>
      match Json.readString cs with
      | .error e => .error e
      | .ok (key, cs) =>
        if key = "kind" ∧ kind.isSome then .error .mismatch
        else
          match Json.colon cs with
          | .error e => .error e
          | .ok cs =>
            if key = "kind" then
              match Kind.decoder cs with
              | .error e => .error e
              | .ok (k, cs) => membersFrom depth room false (some k) read cs
            else
              match Json.readValue depth cs with
              | .error e => .error e
              | .ok (v, cs) => membersFrom depth room false kind ((key, v) :: read) cs

/-- Reads an array that begins with a kind, from behind its opening bracket. -/
def itemsFrom (depth : Nat) : Decoder (Kind × List Json) := fun cs =>
  match Json.nextItem true cs with
  | .error e => .error e
  | .ok none => .error .mismatch
  | .ok (some cs) =>
    match Kind.decoder cs with
    | .error e => .error e
    | .ok (kind, cs) =>
      match Json.itemsFrom (Json.readValue depth) cs false [] cs with
      | .error e => .error e
      | .ok (items, cs) => .ok ((kind, items), cs)

/-- Reads an outcome, in whose other members at most `depth` brackets are open at a time. -/
def decoder (depth : Nat) : Decoder Outcome := fun cs =>
  let orMismatch (o : Option Outcome) (cs : List Char) : Reading Outcome :=
    match o with
    | some o => .ok (o, cs)
    | none => .error .mismatch
  match Json.dropBlanks cs with
  | '[' :: cs =>
    match itemsFrom depth cs with
    | .error e => .error e
    | .ok ((kind, items), cs) => orMismatch (ofItems? kind items) cs
  | '\x7b' :: cs =>
    match membersFrom depth cs true none [] cs with
    | .error e => .error e
    | .ok ((some kind, members), cs) => orMismatch (ofMembers? kind members) cs
    | .ok ((none, _), _) => .error .mismatch
  | cs => .error (Json.otherKind cs)

end Outcome

/-! ## Reports -/

/-- A report of which some fields are known. -/
structure Report.Draft where
  seats : Option Nat := none
  plan : Option Plan := none
  scheduler : Option String := none
  steps : Option Nat := none
  outcome : Option Outcome := none
  meals : Option (List Nat) := none
  longestWait : Option (List Nat) := none
  firstMeal : Option (List (Option Nat)) := none

namespace Report.Draft

/-- The fields of a report.  In the whole text 127 brackets may be open, one of them the
report's and one the outcome's. -/
def fields : List (RecordField Draft) := [
  .keep "seats" seats (fun d x => { d with seats := some x }) Json.readNat,
  .keep "plan" plan (fun d x => { d with plan := some x }) Named.decoder,
  .keep "scheduler" scheduler (fun d x => { d with scheduler := some x }) Json.readText,
  .keep "steps" steps (fun d x => { d with steps := some x }) Json.readNat,
  .keep "outcome" outcome (fun d x => { d with outcome := some x }) (Outcome.decoder 125),
  .keep "meals" meals (fun d x => { d with meals := some x }) (Json.readList Json.readNat),
  .keep "longest_wait" longestWait (fun d x => { d with longestWait := some x })
    (Json.readList Json.readNat),
  .keep "first_meal" firstMeal (fun d x => { d with firstMeal := some x })
    (Json.readList (Json.readOption Json.readNat))]

/-- The report of a draft that has all fields. -/
def finish (d : Draft) : Option Report := do
  return {
    seats := ← d.seats, plan := ← d.plan, scheduler := ← d.scheduler, steps := ← d.steps,
    outcome := ← d.outcome, meals := ← d.meals, longestWait := ← d.longestWait,
    firstMeal := ← d.firstMeal }

end Report.Draft

/-- Reads a report. -/
def Report.decoder : Decoder Report := Json.readRecord Draft.fields {} Draft.finish

/-- The report that a JSON text stands for. -/
def Report.ofJsonText (text : String) : Except Json.Refusal Report :=
  Json.decode Report.decoder text

/-! ## Explorations -/

/-- An exploration of which some fields are known. -/
structure Exploration.Draft where
  seats : Option Nat := none
  plan : Option Plan := none
  states : Option Nat := none
  transitions : Option Nat := none
  depth : Option Nat := none
  complete : Option Bool := none
  deadlock : Option (Option (List Nat)) := none

namespace Exploration.Draft

/-- The fields of an exploration. -/
def fields : List (RecordField Draft) := [
  .keep "seats" seats (fun d x => { d with seats := some x }) Json.readNat,
  .keep "plan" plan (fun d x => { d with plan := some x }) Named.decoder,
  .keep "states" states (fun d x => { d with states := some x }) Json.readNat,
  .keep "transitions" transitions (fun d x => { d with transitions := some x }) Json.readNat,
  .keep "depth" depth (fun d x => { d with depth := some x }) Json.readNat,
  .keep "complete" complete (fun d x => { d with complete := some x }) Json.readBool,
  .keep "deadlock" deadlock (fun d x => { d with deadlock := some x })
    (Json.readOption (Json.readList Json.readNat))]

/-- The exploration of a draft that has all fields, perhaps without a deadlock. -/
def finish (d : Draft) : Option Exploration := do
  return {
    seats := ← d.seats, plan := ← d.plan, states := ← d.states, transitions := ← d.transitions,
    depth := ← d.depth, complete := ← d.complete, deadlock := d.deadlock.getD none }

end Exploration.Draft

/-- Reads an exploration. -/
def Exploration.decoder : Decoder Exploration := Json.readRecord Draft.fields {} Draft.finish

end DiningRing
