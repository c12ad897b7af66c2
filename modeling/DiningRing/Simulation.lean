/-
# Simulations

A simulation is a ring in some state, stepped seat by seat.  It numbers the steps from one
and keeps a tally per seat: actions, meals, and how long the seat had to wait.  Every step
checks the model again, so a flaw would show at the step that made it.
-/
import DiningRing.Model
import DiningRing.Trace.Sink

namespace DiningRing

/-! ## Tallies -/

/-- What a simulation counts for one seat. -/
structure Tally where
  actions : Nat
  meals : Nat
  /-- The step at which the seat started to wait, while it does. -/
  waitingSince : Option Nat
  /-- The longest stretch of steps between waiting and eating. -/
  longestWait : Nat
  /-- The step at which the seat first ate. -/
  firstMeal : Option Nat
deriving DecidableEq, Repr, Inhabited

namespace Tally

/-- The tally before the first step. -/
def zero : Tally := ⟨0, 0, none, 0, none⟩

/-- The tally of a seat that starts to eat at a step. -/
def eatAt (t : Tally) (step : Nat) : Tally where
  actions := t.actions
  meals := t.meals + 1
  waitingSince := none
  longestWait := match t.waitingSince with
    | some since => max t.longestWait (step - since)
    | none => t.longestWait
  firstMeal := t.firstMeal.or (some step)

/-- The tally of a seat that performs an action at a step. -/
def after (t : Tally) (a : Action) (step : Nat) : Tally :=
  let t := { t with actions := t.actions + 1 }
  match a with
  | .startWaiting => { t with waitingSince := some step }
  | .eat => t.eatAt step
  | .finish | .take _ | .give _ => t

end Tally

/-! ## Simulations -/

/-- A ring that is stepped by hand or by a scheduler. -/
structure Simulation where
  ring : Ring
  state : RingState
  /-- The steps taken so far. -/
  steps : Nat
  tallies : Array Tally
  sink : Sink
deriving Inhabited

/-- What a step gives.  The simulation goes on from `simulation`, refused or not. -/
structure Stepped where
  result : Except SimulationError Action
  simulation : Simulation
  journal : Journal

namespace Simulation

/-- A simulation at the moment when everybody is seated. -/
def begin (ring : Ring) (sink : Sink) : Simulation where
  ring := ring
  state := ring.initial
  steps := 0
  tallies := Array.replicate ring.seats .zero
  sink := sink

/-- A simulation of a ring that is laid first and looked over. -/
def create (seats : Nat) (plan : Plan) (sink : Sink := .null) :
    Except SimulationError Simulation :=
  match Ring.lay seats plan with
  | .error e => .error (.ring e)
  | .ok ring =>
    match ring.verify ring.initial 0 with
    | .error e => .error e
    | .ok () => .ok (begin ring sink)

/-- The number of seats. -/
def seats (sim : Simulation) : Nat := sim.ring.seats

/-- The tally of a seat. -/
def tally (sim : Simulation) (seat : Nat) : Tally := sim.tallies.getD seat .zero

/-- The actions of a seat so far. -/
def actions (sim : Simulation) (seat : Nat) : Nat := (sim.tally seat).actions

/-- The meals of a seat so far. -/
def meals (sim : Simulation) (seat : Nat) : Nat := (sim.tally seat).meals

/-- The seats that can move, in ascending order. -/
def enabled (sim : Simulation) : List Nat := sim.ring.enabled sim.state

/-- Whether no seat can move. -/
def isDeadlocked (sim : Simulation) : Bool := sim.enabled.isEmpty

/-- The event that an action of a seat announces. -/
def eventOf? (seat : Nat) (a : Action) : Option Event := a.transition?.map (Event.mk seat)

/-- The simulation after an action of a seat that leads to a state. -/
def advance (sim : Simulation) (seat : Nat) (a : Action) (state : RingState) : Simulation where
  ring := sim.ring
  state := state
  steps := sim.steps + 1
  tallies := sim.tallies.modify seat fun t => t.after a (sim.steps + 1)
  sink := match eventOf? seat a with
    | some e => sim.sink.record e
    | none => sim.sink

/-- What an action of a seat writes to the journal. -/
def journalOf (sim : Simulation) (seat : Nat) (a : Action) : Journal :=
  match eventOf? seat a with
  | some e => sim.sink.journal e
  | none => #[]

/-- A step that is refused and changes nothing. -/
def refuse (sim : Simulation) (e : SimulationError) : Stepped := ⟨.error e, sim, #[]⟩

/-- Advances a seat by one action and looks the state over again. -/
def step (sim : Simulation) (seat : Nat) : Stepped :=
  let number := sim.steps + 1
  if seat < sim.seats then
    match sim.ring.apply sim.state seat with
    | .error flaw => sim.refuse (.invariantViolated number flaw.text)
    | .ok none => sim.refuse (.invalidSchedule number seat)
    | .ok (some (a, state)) =>
      ⟨match sim.ring.verify state number with
        | .error e => .error e
        | .ok () => .ok a,
       sim.advance seat a state, sim.journalOf seat a⟩
  else sim.refuse (.invalidSchedule number seat)

end Simulation

end DiningRing
