/-
# Live tables

A live table is its lanes, its philosophers and a clock.  `Table.step` lets one seat go from
one point of waiting to the next.  Seats can be given turns in any order; the clock moves
only when it is told to.
-/
import DiningRing.Live.Philosopher

namespace DiningRing

/-! ## Tables -/

/-- A live table.  A seat whose philosopher has left is empty. -/
structure Table where
  lanes : Lanes
  philosophers : Array (Option Philosopher)
  clock : Nat
deriving DecidableEq, Repr

/-- What a turn leads to.  The ending is there if the work of the seat is over. -/
structure Turn where
  table : Table
  notices : List Notice
  ending : Option (Except RingError Unit)

namespace Table

/-- The philosopher at a seat. -/
def philosopher? (t : Table) (seat : Nat) : Option Philosopher := (t.philosophers[seat]?).join

/-- The number of seats that the table has had. -/
def seats (t : Table) : Nat := t.philosophers.size

/-- The table with another philosopher at a seat. -/
def put (t : Table) (seat : Nat) (p : Option Philosopher) : Table :=
  { t with philosophers := t.philosophers.setIfInBounds seat p }

/-- Seats philosophers at wired ends under assignments, the further ends being dropped. -/
def seatAll (lanes : Lanes) (wirings : List Wiring) (assignments : List Assignment)
    (pacing : Pacing) : Table :=
  let unused := wirings.drop assignments.length
  let lanes := unused.foldl (fun l w => w.right.leave (w.left.leave l)) lanes
  let seated := (wirings.zip assignments).map fun w => some (Philosopher.sit w.1 w.2 pacing)
  ⟨lanes, seated.toArray, 0⟩

end Table

/-- Wires a ring and seats everybody under its plan. -/
def Ring.seat (r : Ring) (pacing : Pacing) : Except RingError Table :=
  match r.wire with
  | .error e => .error e
  | .ok (lanes, wirings) => .ok (Table.seatAll lanes wirings (r.plan.table r.seats) pacing)

namespace Table

/-! ## Calls -/

/-- Asks the philosopher at a seat to do something.  It begins at its next turn. -/
def call (t : Table) (seat : Nat) (r : Request) : Table :=
  match t.philosopher? seat with
  | some p => t.put seat (some { p with call := some (r.call p) })
  | none => t

/-- The table after the philosopher at a seat has left, dropping both ends and all forks. -/
def drop (t : Table) (seat : Nat) : Table :=
  match t.philosopher? seat with
  | some p =>
    { t.put seat none with lanes := p.wiring.right.leave (p.wiring.left.leave t.lanes) }
  | none => t

/-- The table after the work of a seat has been given up or is over: lifted forks are lost,
and a philosopher who was to leave does. -/
def hangUp (t : Table) (seat : Nat) : Table :=
  match t.philosopher? seat with
  | some p =>
    match p.call with
    | some call => if call.leaves then t.drop seat else t.put seat (some { p with call := none })
    | none => t
  | none => t

/-! ## Turns -/

/-- Lets a philosopher work until it has to wait again. -/
def settle (t : Table) (p : Philosopher) (call : Call) (agenda : List Instr) : Turn :=
  let w := p.workOn call agenda
  let keep (call : Call) : Table := t.put p.seat (some { w.philosopher with call := some call })
  match w.stop with
  | .waiting rest =>
    let wake := match rest with
      | .pause ticks :: _ => some (t.clock + ticks)
      | _ => none
    ⟨keep { call with agenda := rest, lifted := w.lifted, wake := wake }, w.notices, none⟩
  | .ended =>
    ⟨(keep { call with agenda := [], lifted := w.lifted }).hangUp p.seat, w.notices,
      some (.ok ())⟩
  | .failed e =>
    ⟨(keep { call with agenda := [], lifted := w.lifted }).hangUp p.seat, w.notices,
      some (.error e)⟩

/-- Ends the work of a seat with an error. -/
def fail (t : Table) (seat : Nat) (e : RingError) : Turn := ⟨t.hangUp seat, [], some (.error e)⟩

/-- Lets a philosopher take a fork and work on, if one has arrived. -/
def takeTurn (t : Table) (p : Philosopher) (call : Call) (side : Side) (rest : List Instr) :
    Option Turn :=
  match (p.wiring.endpoint side).take t.lanes with
  | .pending => none
  | .closed => some (t.fail p.seat (.endOfStream p.seat side))
  | .done lanes =>
    let p := p.withHands (p.hands.set side true)
    some ({ t with lanes := lanes }.settle p call rest)

/-- Lets a philosopher hand back a fork and work on, if there is room. -/
def giveTurn (t : Table) (p : Philosopher) (call : Call) (side : Side) (rest : List Instr) :
    Option Turn :=
  match (p.wiring.endpoint side).give t.lanes with
  | .pending => none
  | .closed => some (t.fail p.seat (.channelClosed p.seat side))
  | .done lanes =>
    let call := { call with lifted := call.lifted.set side false }
    some ({ t with lanes := lanes }.settle p call rest)

/-- A turn of the philosopher `p` with a call, if it need not wait. -/
def turn (t : Table) (p : Philosopher) (call : Call) : Option Turn :=
  match call.agenda, call.wake with
  | .pause _ :: rest, some wake =>
    if wake ≤ t.clock then some (t.settle p { call with wake := none } rest) else none
  | .acquire side :: rest, _ =>
    if p.hands.holds side then some (t.settle p call (.acquire side :: rest))
    else t.takeTurn p call side rest
  | .give side :: rest, _ => t.giveTurn p call side rest
  | agenda, _ => some (t.settle p call agenda)

/-- A turn of a seat, if there is work for it and it need not wait. -/
def step (t : Table) (seat : Nat) : Option Turn :=
  match t.philosopher? seat with
  | some p =>
    match p.call with
    | some call => t.turn p call
    | none => none
  | none => none

/-! ## Time -/

/-- The tick for which a seat waits, if it waits for the clock. -/
def wakeOf? (t : Table) (seat : Nat) : Option Nat :=
  match t.philosopher? seat with
  | some p => p.call.bind Call.wake
  | none => none

/-- The first tick for which some seat waits. -/
def nextWake? (t : Table) : Option Nat :=
  ((List.range t.seats).filterMap t.wakeOf?).min?

/-- The table at another time. -/
def withClock (t : Table) (clock : Nat) : Table := { t with clock := clock }

/-- Whether no seat can take a turn. -/
def isStill (t : Table) : Bool := (List.range t.seats).all fun seat => (t.step seat).isNone

end Table

end DiningRing
