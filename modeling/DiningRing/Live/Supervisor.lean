/-
# The supervisor

A supervisor lays the table, seats everybody and then waits.  Nobody stops of themselves, so
the first diner who does ends the whole ring.
-/
import DiningRing.Config
import DiningRing.Live.Session

namespace DiningRing

/-! ## Entries -/

namespace Supervisor

/-- Where the entries of a supervisor come from. -/
def target : String := "symposium_core::supervisor"

/-- The entry about a diner who has been set to work. -/
def spawnedEntry (seat : Nat) : Journal.Entry :=
  ⟨.debug, target, "Spawned philosopher", [("seat", .number seat)]⟩

/-- The entry about a ring at which everybody has been set to work. -/
def seatedEntry (r : Ring) : Journal.Entry :=
  ⟨.info, target, "Ring seated", [("seats", .number r.seats), ("plan", .text r.plan.text)]⟩

/-- The entry about the error that ended a ring. -/
def stoppedEntry (e : RingError) : Journal.Entry :=
  ⟨.error, target, "Philosopher stopped; tearing down ring", [("error", .text e.message)]⟩

/-- The entry about a ring that has been shut down. -/
def shutDownEntry (seats : Nat) : Journal.Entry :=
  ⟨.info, target, "Ring shut down", [("seats", .number seats)]⟩

end Supervisor

/-! ## Supervisors -/

/-- A configuration with an observer. -/
structure Supervisor where
  config : Config
  observer : Observer

/-- The running diners of a ring. -/
structure Running where
  session : Session
  /-- The number of seats, and of diners who have not been waited for. -/
  seats : Nat

namespace Supervisor

/-- The pacing of a configuration. -/
def pacing (c : Config) : Pacing := ⟨c.thinkTime.ticks, c.eatTime.ticks⟩

/-- Seats everybody and sets them to work, if there is something that can run them. -/
def spawn (s : Supervisor) (hasRuntime : Bool) : Except RingError Running :=
  if !hasRuntime then
    .error (.spawnFailed
      ("there is no reactor running, must be called from the context of a Tokio 1.x runtime"))
  else
    match Ring.lay s.config.seats s.config.plan with
    | .error e => .error e
    | .ok ring =>
      match ring.seat (pacing s.config) with
      | .error e => .error e
      | .ok table =>
        let seats := List.range ring.seats
        let session := Session.begin (seats.foldl (fun t seat => t.call seat .run) table) s.observer
        let journal := #[ring.wiredEntry] ++ (seats.map spawnedEntry).toArray
          ++ #[seatedEntry ring]
        .ok ⟨{ session with journal := journal }, ring.seats⟩

end Supervisor

namespace Running

/-- Why a ring stops with the end of one of its diners. -/
def errorOf (e : Ended) : RingError :=
  match e.ending with
  | .returned (.error error) => error
  | .returned (.ok ()) => .noDiners
  | .panicked message => .dinerPanicked e.seat message
  | .cut => .cancelled

/-- Why a ring has stopped, if one of its diners has ended. -/
def failure? (r : Running) : Option RingError := r.session.ended.toList.head?.map errorOf

/-- Runs until `halt` holds or a number of ticks have passed.  `goal` is a number of rounds
that each diner may have to take meanwhile. -/
def runUntil (r : Running) (halt : Session → Bool) (ticks goal : Nat) : Running :=
  let s := r.session
  { r with
    session := Session.runUntil halt (s.table.clock + ticks) (s.turnsIn ticks goal) s }

/-- Runs until the first diner ends, or a number of ticks have passed. -/
def untilStopped (r : Running) (ticks goal : Nat) : Running :=
  r.runUntil (fun s => !s.ended.isEmpty) ticks goal

/-- Notes why the ring has stopped. -/
def noteFailure (r : Running) (e : RingError) : Running :=
  { r with
    session := { r.session with
      journal := r.session.journal.push (Supervisor.stoppedEntry e) } }

/-- Waits for the first diner who ends, for a number of ticks. -/
def join (r : Running) (ticks goal : Nat) : Option RingError × Running :=
  let r := r.untilStopped ticks goal
  match r.failure? with
  | some e => (some e, r.noteFailure e)
  | none => (none, r)

/-- Waits for the first diner who ends after all have been cancelled from outside. -/
def joinOrphaned (r : Running) : RingError × Running := (.cancelled, r.noteFailure .cancelled)

/-- Stops everybody. -/
def shutDown (r : Running) : Running :=
  { r with
    session := { r.session with
      journal := r.session.journal.push (Supervisor.shutDownEntry r.seats) } }

/-- Whether the first recorder of the session has seen `least` meals of each seat below
`watched`.  Where there is no recorder no meals are seen. -/
def isFed (watched least : Nat) (s : Session) : Bool :=
  (s.observer.sink.recorders.headD .counting).fed watched least

/-- Waits for `least` meals of each seat below `watched`, for a number of ticks, and says
whether they were reached. -/
def waitForMeals (r : Running) (watched least ticks : Nat) : Bool × Running :=
  let r := r.runUntil (isFed watched least) ticks least
  (isFed watched least r.session, r)

end Running

end DiningRing
