/-
# Live diners

A live diner follows an agenda of small instructions.  Some take no time and need nobody
else; the others wait for the clock or for a lane, and these are the only points at which
one diner's work can be interleaved with another's.
-/
import DiningRing.Live.Wiring
import DiningRing.Trace

namespace DiningRing

/-! ## Instructions -/

/-- How long a diner thinks before it asks for forks, and how long it eats, in ticks of the
clock. -/
structure Pacing where
  think : Nat
  eat : Nat
deriving DecidableEq, Repr, Inhabited

/-- One instruction of an agenda. -/
inductive Instr where
  /-- Lets a number of ticks pass. -/
  | pause (ticks : Nat)
  /-- Goes to another phase, and announces it. -/
  | enter (phase : Phase)
  /-- Takes the fork on a side, unless it is in hand. -/
  | acquire (side : Side)
  /-- Starts a meal, for which both forks must be in hand. -/
  | serve
  /-- Lifts both forks out of the hands, to hand them back. -/
  | lift
  /-- Hands back the lifted fork on a side. -/
  | give (side : Side)
  /-- Says that it has sat down. -/
  | greet
deriving DecidableEq, Repr

namespace Instr

/-- Takes both forks in an order. -/
def acquireAll (o : Order) : List Instr := o.sides.map acquire

/-- A meal. -/
def meal (pacing : Pacing) : List Instr := [serve, pause pacing.eat]

/-- Hands back both forks, the left one first. -/
def release : List Instr := [lift, give .left, give .right]

/-- One round: think, wait, eat, hand back, and be idle again. -/
def round (pacing : Pacing) (o : Order) : List Instr :=
  [pause pacing.think, enter .waiting] ++ acquireAll o ++ meal pacing ++ [enter .releasing]
    ++ release ++ [enter .idle]

end Instr

/-! ## Philosophers -/

/-- A piece of work that a diner has been asked to do. -/
structure Call where
  /-- What is left to be done. -/
  agenda : List Instr
  /-- Whether it starts another round at the end. -/
  repeats : Bool
  /-- Whether the diner leaves the table when the work is over. -/
  leaves : Bool
  /-- The forks that are lifted out of the hands and not yet handed back. -/
  lifted : Hands
  /-- The tick at which the pause at the head of the agenda ends, once it has begun. -/
  wake : Option Nat
deriving DecidableEq, Repr

/-- A live diner. -/
structure Philosopher where
  wiring : Wiring
  diner : Diner
  order : Order
  pacing : Pacing
  meals : Nat
  call : Option Call
deriving DecidableEq, Repr

/-- What a diner lets others know. -/
inductive Notice where
  | event (e : Event)
  /-- It has sat down, with these forks in hand. -/
  | seated (seat : Nat) (order : Order) (hands : Hands)
deriving DecidableEq, Repr

/-- Where work without waiting comes to a stop. -/
inductive Stop where
  /-- At an instruction that has to wait, the first one of the rest. -/
  | waiting (rest : List Instr)
  /-- At the end. -/
  | ended
  /-- At an error. -/
  | failed (e : RingError)
deriving DecidableEq, Repr

/-- What work without waiting leads to. -/
structure Work where
  philosopher : Philosopher
  lifted : Hands
  notices : List Notice
  stop : Stop
deriving DecidableEq, Repr

namespace Philosopher

/-- A diner who sits down with the forks that are held under an assignment. -/
def sit (w : Wiring) (a : Assignment) (pacing : Pacing) : Philosopher where
  wiring := w
  diner := ⟨.idle, a.hands⟩
  order := a.order
  pacing := pacing
  meals := 0
  call := none

/-- The number of the seat. -/
def seat (p : Philosopher) : Nat := p.wiring.seat

/-- The forks in hand. -/
def hands (p : Philosopher) : Hands := p.diner.hands

/-- The diner with other forks in hand. -/
def withHands (p : Philosopher) (h : Hands) : Philosopher :=
  { p with diner := { p.diner with hands := h } }

/-- The diner in another phase. -/
def withPhase (p : Philosopher) (phase : Phase) : Philosopher :=
  { p with diner := { p.diner with phase := phase } }

/-- What is announced when the diner goes to another phase. -/
def announcement (p : Philosopher) (phase : Phase) : List Notice :=
  match Transition.between? p.diner.phase phase with
  | some t => [.event ⟨p.seat, t⟩]
  | none => []

/-- The diner at the start of a meal. -/
def served (p : Philosopher) : Philosopher :=
  { p.withPhase .eating with meals := p.meals + 1 }

/-- Work with notices made before it. -/
def Work.after (notices : List Notice) (w : Work) : Work :=
  { w with notices := notices ++ w.notices }

/-- Works through an agenda up to the first instruction that has to wait. -/
def work (p : Philosopher) (lifted : Hands) : List Instr → Work
  | [] => ⟨p, lifted, [], .ended⟩
  | .pause 0 :: rest => p.work lifted rest
  | .pause (ticks + 1) :: rest => ⟨p, lifted, [], .waiting (.pause (ticks + 1) :: rest)⟩
  | .enter phase :: rest =>
    Work.after (p.announcement phase) ((p.withPhase phase).work lifted rest)
  | .acquire side :: rest =>
    if p.hands.holds side then p.work lifted rest
    else ⟨p, lifted, [], .waiting (.acquire side :: rest)⟩
  | .serve :: rest =>
    if p.hands.both then Work.after (p.announcement .eating) (p.served.work lifted rest)
    else ⟨p, lifted, [], .failed (.eatWithoutForks p.seat p.hands)⟩
  | .lift :: rest =>
    if p.hands.both then (p.withHands .empty).work .full rest
    else ⟨p, lifted, [], .failed (.releaseWithoutForks p.seat p.hands)⟩
  | .give side :: rest => ⟨p, lifted, [], .waiting (.give side :: rest)⟩
  | .greet :: rest =>
    Work.after [.seated p.seat p.order p.hands] (p.work lifted rest)

/-- Works through an agenda, and at its end through another round if the call repeats.  A
round cannot be worked through without waiting. -/
def workOn (p : Philosopher) (call : Call) (agenda : List Instr) : Work :=
  let first := p.work call.lifted agenda
  match first.stop with
  | .ended =>
    if call.repeats then
      Work.after first.notices
        (first.philosopher.work first.lifted (Instr.round p.pacing p.order))
    else first
  | .waiting _ | .failed _ => first

end Philosopher

/-! ## Requests -/

/-- What a diner can be asked to do. -/
inductive Request where
  /-- A number of rounds. -/
  | cycles (count : Nat)
  | acquire (side : Side)
  | acquireAll
  | eat
  | release
  /-- Rounds without end; the diner leaves the table if they end all the same. -/
  | run
deriving DecidableEq, Repr

namespace Request

/-- The agenda of a request. -/
def agenda (p : Philosopher) : Request → List Instr
  | cycles count => (List.replicate count (Instr.round p.pacing p.order)).flatten
  | acquire side => [.acquire side]
  | acquireAll => Instr.acquireAll p.order
  | eat => Instr.meal p.pacing
  | release => Instr.release
  | run => .greet :: Instr.round p.pacing p.order

/-- The call of a request. -/
def call (p : Philosopher) (r : Request) : Call :=
  ⟨r.agenda p, r = run, r = run, .empty, none⟩

end Request

end DiningRing
