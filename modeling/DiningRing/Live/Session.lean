/-
# Sessions at a live table

A session is a table with an observer of its events.  It gives the seats their turns in
order, round after round, and moves the clock on to the next tick for which somebody waits
when all have come to rest.  A time limit ends what has not ended by itself.
-/
import DiningRing.Live.Table
import DiningRing.Trace.Sink

namespace DiningRing

/-! ## Observers -/

/-- What a panic carries along. -/
inductive Payload where
  /-- A text that is part of the program. -/
  | fixed (s : String)
  /-- A text made while it ran. -/
  | text (s : String)
  /-- No text. -/
  | other
deriving DecidableEq, Repr

/-- The message of a panic. -/
def Payload.message : Payload → String
  | fixed s | text s => s
  | other => "non-string panic payload"

/-- A fault in an observer: it panics at the `nth` event of a kind, after having recorded
it. -/
structure Tripwire where
  event : Event
  nth : Nat
  payload : Payload
  /-- The events of that kind so far. -/
  seen : Nat
deriving DecidableEq, Repr

namespace Tripwire

/-- The tripwire after an event. -/
def watch (w : Tripwire) (e : Event) : Tripwire :=
  if e = w.event then { w with seen := w.seen + 1 } else w

/-- Whether the event just watched is the one. -/
def snaps (w : Tripwire) (e : Event) : Bool := e == w.event && w.seen == w.nth

end Tripwire

/-- A sink, perhaps with a fault. -/
structure Observer where
  sink : Sink
  tripwire : Option Tripwire

/-! ## Sessions -/

/-- How the work of a seat ended. -/
inductive Ending where
  | returned (result : Except RingError Unit)
  | panicked (message : String)
  /-- It was given up at its time limit. -/
  | cut

/-- The end of the work of a seat, and the tick at which it came. -/
structure Ended where
  seat : Nat
  clock : Nat
  ending : Ending

/-- A table under observation.  `ended` is the work that is over, in the order in which it
ended. -/
structure Session where
  table : Table
  observer : Observer
  ended : Array Ended
  journal : Journal

namespace Session

/-- A session at a table. -/
def begin (t : Table) (o : Observer) : Session := ⟨t, o, #[], #[]⟩

/-- Notes the end of the work of a seat. -/
def close (s : Session) (seat : Nat) (e : Ending) : Session :=
  { s with ended := s.ended.push ⟨seat, s.table.clock, e⟩ }

/-- The end of the work of a seat. -/
def endOf? (s : Session) (seat : Nat) : Option Ended := s.ended.find? fun e => e.seat == seat

end Session

/-- The entry about a philosopher who has sat down. -/
def seatedEntry (seat : Nat) (order : Order) (h : Hands) : Journal.Entry where
  level := .debug
  target := "symposium_core::agent"
  message := "Philosopher seated"
  fields := [("seat", .number seat), ("order", .text order.logText),
    ("holds_left", .flag h.left), ("holds_right", .flag h.right)]

namespace Session

/-- The session after an event has been observed, and the message if the observer panicked
over it. -/
def observe (s : Session) (e : Event) : Session × Option String :=
  let recorded := { s with
    observer := ⟨s.observer.sink.record e, s.observer.tripwire.map fun w => w.watch e⟩
    journal := s.journal ++ s.observer.sink.journal e }
  let message := recorded.observer.tripwire.bind fun w =>
    if w.snaps e then some w.payload.message else none
  (recorded, message)

/-- The session after notices, up to the one over which the observer panicked, if any. -/
def notify (s : Session) : List Notice → Session × Option String
  | [] => (s, none)
  | .seated seat order h :: rest =>
    { s with journal := s.journal.push (seatedEntry seat order h) }.notify rest
  | .event e :: rest =>
    match s.observe e with
    | (s, some message) => (s, some message)
    | (s, none) => s.notify rest

/-- The session after a turn of a seat.  If the observer panics, the diner's work ends there,
and the diner leaves. -/
def absorb (s : Session) (seat : Nat) (t : Turn) : Session :=
  match { s with table := t.table }.notify t.notices with
  | (s, some message) => { s with table := s.table.drop seat }.close seat (.panicked message)
  | (s, none) =>
    match t.ending with
    | some result => s.close seat (.returned result)
    | none => s

/-- Gives a seat turns until it has to wait, at most `fuel` of them, and says whether there
was one. -/
def poll : Nat → Session → Nat → Session × Bool
  | 0, s, _ => (s, false)
  | fuel + 1, s, seat =>
    match s.table.step seat with
    | some t => ((s.absorb seat t).poll fuel seat |>.1, true)
    | none => (s, false)

/-- More turns than a seat can take while all others rest: it soon waits for a neighbour. -/
def burst : Nat := 16

/-- Polls all seats once, in order, and says whether there was a turn. -/
def sweep (s : Session) : Session × Bool :=
  (List.range s.table.seats).foldl
    (fun (s, moved) seat =>
      let (s, m) := poll burst s seat
      (s, moved || m))
    (s, false)

/-! ## Running -/

/-- Runs until `halt` holds or the limit has come: sweeps while there are turns, else moves
the clock on.  At the limit itself there are no more turns. -/
def runUntil (halt : Session → Bool) (limit : Nat) : Nat → Session → Session
  | 0, s => { s with table := s.table.withClock limit }
  | fuel + 1, s =>
    if halt s || limit ≤ s.table.clock then s
    else
      match s.sweep with
      | (s, true) => runUntil halt limit fuel s
      | (s, false) =>
        match s.table.nextWake? with
        | some wake =>
          if wake < limit then
            runUntil halt limit fuel { s with table := s.table.withClock wake }
          else { s with table := s.table.withClock limit }
        | none => { s with table := s.table.withClock limit }

/-- Gives a seat its last turns, and gives up what is still not over. -/
def cutOff (s : Session) (seat : Nat) : Session :=
  if (s.endOf? seat).isSome then s
  else
    let s := (poll burst s seat).1
    if (s.endOf? seat).isSome then s
    else { s with table := s.table.hangUp seat }.close seat .cut

/-- A bound on the turns that agendas can take. -/
def workload (s : Session) : Nat :=
  s.table.philosophers.toList.foldr
    (fun p? total =>
      match p?.bind Philosopher.call with
      | some call => 2 * call.agenda.length + 32 + total
      | none => total)
    0

/-- A bound on the turns that a table can take in a number of ticks, if a diner has only so
many rounds in it at a time. -/
def turnsIn (s : Session) (ticks rounds : Nat) : Nat :=
  (ticks + 2 + rounds) * (16 * s.table.seats + 16)

/-- Has several seats do what they are asked under one time limit.  What is not over when
the limit comes gets one more turn, and wins if it ends with that. -/
def performAll (s : Session) (requests : List (Nat × Request)) (limit : Nat) : Session :=
  let table := requests.foldl (fun t r => t.call r.1 r.2) s.table
  let s := { s with table := table, ended := #[] }
  let deadline := s.table.clock + limit
  let finished (s : Session) : Bool := requests.all fun r => (s.endOf? r.1).isSome
  let s := runUntil finished deadline (s.turnsIn limit s.workload) s
  if finished s then s
  else requests.foldl (fun s r => s.cutOff r.1) s

/-- Has a seat do what it is asked under a time limit. -/
def perform (s : Session) (seat : Nat) (r : Request) (limit : Nat) : Session :=
  s.performAll [(seat, r)] limit

/-- The session after the philosopher at a seat has been dropped. -/
def drop (s : Session) (seat : Nat) : Session := { s with table := s.table.drop seat }

end Session

end DiningRing
