/-
# Configuration

How large a ring is, how long its diners eat and think, and under which plan it is laid.  A
configuration starts from the defaults, takes what the environment says, then the settings
made by hand, and is looked over at the end.
-/
import DiningRing.Plan
import DiningRing.Text.Numeral

namespace DiningRing

/-! ## Durations -/

/-- A span of time. -/
structure Duration where
  nanoseconds : Nat
deriving DecidableEq, Repr, Inhabited

namespace Duration

/-- No time at all. -/
def zero : Duration := ⟨0⟩

/-- A number of milliseconds. -/
def ofMillis (n : Nat) : Duration := ⟨n * 1000000⟩

/-- A number of microseconds. -/
def ofMicros (n : Nat) : Duration := ⟨n * 1000⟩

/-- The whole milliseconds in a span. -/
def millis (d : Duration) : Nat := d.nanoseconds / 1000000

/-- The milliseconds that a clock which counts only whole ones needs for a span. -/
def ticks (d : Duration) : Nat := (d.nanoseconds + 999999) / 1000000

end Duration

/-! ## Configurations -/

/-- The configuration of a ring. -/
structure Config where
  seats : Nat
  eatTime : Duration
  thinkTime : Duration
  plan : Plan
deriving DecidableEq, Repr

namespace Config

/-- The number of seats where none is given. -/
def defaultSeats : Nat := 16

/-- The largest number of seats. -/
def maxSeats : Nat := 4096

/-- The longest time spent eating or thinking. -/
def maxPause : Duration := .ofMillis 60000

/-- The configuration where nothing is given. -/
def default : Config := ⟨defaultSeats, .zero, .zero, .reversedLast⟩

instance : Inhabited Config := ⟨default⟩

/-! ## Settings -/

/-- A value set by hand. -/
inductive Setting where
  | seats (n : Nat)
  | eatTime (d : Duration)
  | thinkTime (d : Duration)
  | plan (p : Plan)
deriving DecidableEq, Repr

/-- The configuration after a value has been set. -/
def set (c : Config) : Setting → Config
  | .seats n => { c with seats := n }
  | .eatTime d => { c with eatTime := d }
  | .thinkTime d => { c with thinkTime := d }
  | .plan p => { c with plan := p }

/-- The configuration after several values have been set, the last one of a kind counting. -/
def setAll (c : Config) (settings : List Setting) : Config := settings.foldl set c

/-- Looks over a configuration: the seats first, then the time spent eating, then the time
spent thinking. -/
def validate (c : Config) : Except ConfigError Config :=
  if c.seats < 2 then .error (.outOfBounds "seats must be at least 2")
  else if maxSeats < c.seats then .error (.outOfBounds s!"seats must be <= {maxSeats}")
  else if maxPause.nanoseconds < c.eatTime.nanoseconds then
    .error (.outOfBounds "eat_time must be <= 60s")
  else if maxPause.nanoseconds < c.thinkTime.nanoseconds then
    .error (.outOfBounds "think_time must be <= 60s")
  else .ok c

end Config

/-! ## The environment -/

/-- What the environment holds under a name. -/
inductive Variable where
  | unset
  /-- Bytes that are no UTF-8. -/
  | undecodable
  | text (s : String)
deriving DecidableEq, Repr, Inhabited

namespace Variable

/-- The variable that holds some bytes. -/
def ofBytes (bytes : List UInt8) : Variable :=
  match String.fromUTF8? ⟨bytes.toArray⟩ with
  | some s => text s
  | none => undecodable

/-- The text of a variable.  One that cannot be decoded counts as unset. -/
def text? : Variable → Option String
  | text s => some s
  | unset | undecodable => none

end Variable

/-- The variables that configure a ring. -/
structure Environment where
  seats : Variable
  eatMillis : Variable
  thinkMillis : Variable
  plan : Variable
deriving DecidableEq, Repr

namespace Environment

/-- The environment in which a variable is looked up by its name. -/
def ofLookup (lookup : String → Variable) : Environment where
  seats := lookup "SYMPOSIUM_SEATS"
  eatMillis := lookup "SYMPOSIUM_EAT_MS"
  thinkMillis := lookup "SYMPOSIUM_THINK_MS"
  plan := lookup "SYMPOSIUM_PLAN"

/-- Reads a variable that holds a number; `width` names the type in the wording of errors. -/
def numberSetting? (key width : String) (v : Variable) (setting : Nat → Config.Setting) :
    Except ConfigError (Option Config.Setting) :=
  match v.text? with
  | none => .ok none
  | some s =>
    match Numeral.parse s with
    | .ok n => .ok (some (setting n))
    | .error e => .error (.invalidVariable key s!"invalid {width} value '{s}': {e.text}")

/-- Reads a variable that names a plan. -/
def planSetting? (key : String) (v : Variable) : Except ConfigError (Option Config.Setting) :=
  match v.text? with
  | none => .ok none
  | some s =>
    match Plan.ofName? s with
    | some p => .ok (some (.plan p))
    | none => .error (.invalidVariable key (Plan.unknownMessage s))

/-- The readings of the four variables, in the order in which they are read. -/
def readings (env : Environment) : List (Except ConfigError (Option Config.Setting)) := [
  numberSetting? "SYMPOSIUM_SEATS" "usize" env.seats .seats,
  numberSetting? "SYMPOSIUM_EAT_MS" "u64" env.eatMillis fun n => .eatTime (.ofMillis n),
  numberSetting? "SYMPOSIUM_THINK_MS" "u64" env.thinkMillis fun n => .thinkTime (.ofMillis n),
  planSetting? "SYMPOSIUM_PLAN" env.plan]

/-- What the environment sets, or its first fault. -/
def settings (env : Environment) : Except ConfigError (List Config.Setting) :=
  env.readings.foldr
    (fun reading rest =>
      match reading with
      | .error e => .error e
      | .ok none => rest
      | .ok (some s) => rest.map (s :: ·))
    (.ok [])

end Environment

namespace Config

/-- The configuration that the environment asks for. -/
def ofEnvironment (env : Environment) : Except ConfigError Config :=
  env.settings.map default.setAll

/-- The configuration that the environment asks for, changed by hand and looked over. -/
def configure (env : Environment) (settings : List Setting) : Except ConfigError Config :=
  match ofEnvironment env with
  | .error e => .error e
  | .ok c => (c.setAll settings).validate

end Config

end DiningRing
