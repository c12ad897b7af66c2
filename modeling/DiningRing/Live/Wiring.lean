/-
# Wiring a ring

Every edge gets a link, and every seat the two ends beside it.  Forks that the plan has
incoming are in flight before anybody sits down.
-/
import DiningRing.Journal
import DiningRing.Live.Lane

namespace DiningRing

/-- A seat with its two ends. -/
structure Wiring where
  seat : Nat
  left : Endpoint
  right : Endpoint
deriving DecidableEq, Repr, Inhabited

/-- The end on a side. -/
def Wiring.endpoint (w : Wiring) : Side → Endpoint
  | .left => w.left
  | .right => w.right

/-- A list with its last item moved to the front. -/
def rotateRight {α : Type} (l : List α) : List α :=
  l.drop (l.length - 1) ++ l.take (l.length - 1)

namespace Ring

/-- Puts a fork in flight from an end of an edge, where there is none yet. -/
def preload (edge : Nat) (e : Endpoint) (l : Lanes) : Except RingError Lanes :=
  match e.give l with
  | .done l => .ok l
  | .closed | .pending => .error (.unbalancedPlan edge 2)

/-- Puts the forks in flight that the plan has incoming along an edge. -/
def preloadEdge (r : Ring) (l : Lanes) (edge : Nat) : Except RingError Lanes :=
  let (ofLeftSeat, ofRightSeat) := Endpoint.link edge
  let towardLeftSeat :=
    if (r.assignment edge).right = .incoming then preload edge ofRightSeat l else .ok l
  match towardLeftSeat with
  | .error e => .error e
  | .ok l =>
    if (r.assignment (Seat.next r.seats edge)).left = .incoming then preload edge ofLeftSeat l
    else .ok l

/-- The ends of all links, handed to the seats: seat `e` is on the left of edge `e`, and the
links' other ends move on by one seat. -/
def wirings (r : Ring) : List Wiring :=
  let links := (List.range r.seats).map Endpoint.link
  let rights := links.map Prod.fst
  let lefts := rotateRight (links.map Prod.snd)
  ((List.range r.seats).zip (lefts.zip rights)).map fun w => ⟨w.1, w.2.1, w.2.2⟩

/-- Wires a ring. -/
def wire (r : Ring) : Except RingError (Lanes × List Wiring) :=
  match (List.range r.seats).foldlM r.preloadEdge (.ofEdges r.seats) with
  | .error e => .error e
  | .ok lanes => .ok (lanes, r.wirings)

/-- The entry about a ring that has been wired. -/
def wiredEntry (r : Ring) : Journal.Entry where
  level := .debug
  target := "symposium_core::ring"
  message := "Wired ring"
  fields := [("seats", .number r.seats), ("plan", .text r.plan.text)]

end Ring

end DiningRing
