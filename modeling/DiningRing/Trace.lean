/-
# Trace events

A diner announces three transitions: that it starts to wait, that it starts to eat, and that
it has finished eating.  `Trace.cyclic`, `Trace.adjacent` and `Trace.balanced` are what can
be observed of a whole trace.
-/
import DiningRing.Journal
import DiningRing.Seat.Arithmetic

namespace DiningRing

/-- A transition that is announced. -/
inductive Transition where
  /-- From idle to waiting. -/
  | waiting
  /-- From waiting to eating. -/
  | eating
  /-- From eating to handing back. -/
  | finished
deriving DecidableEq, Repr, Inhabited

/-- The name of a transition in log lines. -/
def Transition.logText : Transition → String
  | .waiting => "Waiting"
  | .eating => "Eating"
  | .finished => "Finished"

/-- The transition that a diner announces when it goes from one phase to another. -/
def Transition.between? : Phase → Phase → Option Transition
  | .idle, .waiting => some .waiting
  | .waiting, .eating => some .eating
  | .eating, .releasing => some .finished
  | _, _ => none

/-- One line of a trace. -/
structure Event where
  seat : Nat
  transition : Transition
deriving DecidableEq, Repr, Inhabited

namespace Event

/-- The wording of an event. -/
def text (e : Event) : String :=
  let what := match e.transition with
    | .waiting => "is waiting to eat"
    | .eating => "is now eating"
    | .finished => "is finished eating"
  s!"Philosopher {Seat.ordinal e.seat} {what}"

/-- The entry that a tracing sink makes of an event. -/
def entry (e : Event) : Journal.Entry where
  level := .info
  target := "symposium_core::trace"
  message := e.text
  fields := [("seat", .number e.seat), ("transition", .text e.transition.logText)]

/-- Whether a seat starts to eat. -/
def isMeal (e : Event) : Bool := e.transition == .eating

end Event

/-! ## Observations on a trace -/

namespace Trace

/-- The seats in the order in which they started to eat. -/
def eatingOrder (events : List Event) : List Nat :=
  (events.filter Event.isMeal).map Event.seat

/-- The meals that a seat started. -/
def mealsOf (seat : Nat) (events : List Event) : Nat := (eatingOrder events).count seat

/-- The transitions of one seat. -/
def ofSeat (seat : Nat) (events : List Event) : List Transition :=
  (events.filter fun e => e.seat == seat).map Event.transition

/-- Whether transitions run waiting, eating, finished and again from the start, the next one
due being `due`. -/
def runsRound : Transition → List Transition → Bool
  | _, [] => true
  | .waiting, .waiting :: rest => runsRound .eating rest
  | .eating, .eating :: rest => runsRound .finished rest
  | .finished, .finished :: rest => runsRound .waiting rest
  | _, _ => false

/-- Whether the events of every seat below `seats` run in rounds. -/
def cyclic (seats : Nat) (events : List Event) : Bool :=
  (List.range seats).all fun seat => runsRound .waiting (ofSeat seat events)

/-- Whether a seat starts to eat while a neighbour of it is eating, given who eats already. -/
def meets (seats : Nat) : List Nat → List Event → Bool
  | _, [] => false
  | eaters, e :: rest =>
    match e.transition with
    | .waiting => meets seats eaters rest
    | .eating =>
      eaters.any (fun other => other == Seat.next seats e.seat || e.seat == Seat.next seats other)
        || meets seats (e.seat :: eaters) rest
    | .finished => meets seats (eaters.filter (· != e.seat)) rest

/-- Whether two neighbours at a table of `seats` ever ate together. -/
def adjacent (seats : Nat) (events : List Event) : Bool := meets seats [] events

/-- The largest difference between the numbers at two neighbouring places of a ring. -/
def neighborGap (numbers : List Nat) : Nat :=
  let differences := (numbers.zip (numbers.drop 1 ++ numbers.take 1)).map fun p =>
    (p.1 - p.2) + (p.2 - p.1)
  differences.foldl Nat.max 0

/-- Whether no two neighbours are more than one meal apart. -/
def balanced (seats : Nat) (events : List Event) : Bool :=
  neighborGap ((List.range seats).map fun seat => mealsOf seat events) ≤ 1

end Trace

end DiningRing
