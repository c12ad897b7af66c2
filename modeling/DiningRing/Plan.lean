/-
# Ownership plans

A plan says where every fork lies before the first move, and in which order each diner
reaches for its forks.  Under `reversedLast` the first diner starts with both of its forks,
the last with none and reaching for its right fork first, and all others with their right
fork.  Under `uniform` every left fork is on its way to its diner.
-/
import DiningRing.Error
import DiningRing.Seat.Arithmetic
import DiningRing.Text.LowerCase

namespace DiningRing

/-! ## Placements and assignments -/

/-- Where the fork on one side of a seat lies when the ring starts. -/
inductive Placement where
  /-- In this diner's hand. -/
  | held
  /-- In flight toward this diner. -/
  | incoming
  /-- With the neighbour, or in flight toward the neighbour. -/
  | away
deriving DecidableEq, Repr, Inhabited

/-- Whether this side accounts for the fork of its edge. -/
def Placement.carriesFork : Placement → Bool
  | held | incoming => true
  | away => false

/-- The starting position of one diner. -/
structure Assignment where
  left : Placement
  right : Placement
  order : Order
deriving DecidableEq, Repr, Inhabited

/-- The forks in hand at the start. -/
def Assignment.hands (a : Assignment) : Hands := ⟨a.left == .held, a.right == .held⟩

/-! ## Plans -/

/-- An ownership plan. -/
inductive Plan where
  | reversedLast
  | uniform
deriving DecidableEq, Repr

namespace Plan

/-- The plan that holds where none is named. -/
instance : Inhabited Plan := ⟨reversedLast⟩

/-- The starting position of `seat` at a table of `seats`. -/
def assign (p : Plan) (seat seats : Nat) : Assignment :=
  match p with
  | reversedLast =>
    if seat = 0 then ⟨.held, .held, .leftThenRight⟩
    else if seat + 1 = seats then ⟨.away, .away, .rightThenLeft⟩
    else ⟨.away, .held, .leftThenRight⟩
  | uniform => ⟨.incoming, .away, .leftThenRight⟩

/-- The starting positions of all seats, in ring order. -/
def table (p : Plan) (seats : Nat) : List Assignment :=
  (List.range seats).map fun seat => p.assign seat seats

/-- The largest number of seats whose starting positions can be kept in memory: each takes
three bytes. -/
def mostSeats : Nat := Word.mostEntries 3

/-- The forks that the plan puts on an edge: edge `e` joins the right side of seat `e` and
the left side of the next seat. -/
def forksOn (p : Plan) (seats edge : Nat) : Nat :=
  (p.assign edge seats).right.carriesFork.toNat
    + (p.assign (Seat.next seats edge) seats).left.carriesFork.toNat

/-- A plan fits a ring of at least two seats if every edge starts with one fork. -/
def validate (p : Plan) (seats : Nat) : Except RingError Unit :=
  if seats < 2 then .error (.invalidSeatCount seats)
  else
    match (List.range seats).find? fun edge => p.forksOn seats edge != 1 with
    | some edge => .error (.unbalancedPlan edge (p.forksOn seats edge))
    | none => .ok ()

/-- Whether some seat reaches for its right fork first. -/
def hasReversedSeat (p : Plan) (seats : Nat) : Bool :=
  (p.table seats).any fun a => a.order == .rightThenLeft

/-! ## Names of plans -/

/-- The name of a plan. -/
def text : Plan → String
  | reversedLast => "reversed-last"
  | uniform => "uniform"

/-- The wording of the error for a name that is no plan's. -/
def unknownMessage (name : String) : String :=
  s!"unknown ownership plan '{name}', expected 'reversed-last' or 'uniform'"

/-- The plan that a name means, blanks at its ends and the case of its letters apart. -/
def ofName? (name : String) : Option Plan :=
  match Text.lowerCase (Text.trim name) with
  | "reversed-last" | "reversed_last" | "reversed" => some reversedLast
  | "uniform" | "naive" => some uniform
  | _ => none

end Plan

end DiningRing
