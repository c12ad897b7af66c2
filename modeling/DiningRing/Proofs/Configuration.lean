/-
# How a ring is configured

A configuration comes about in three layers.  The four variables of the environment are read in
their order, and the first one whose text means nothing ends it all, whatever is set by hand
afterwards.  Then each field has the value that was set last by hand, else the value of its
variable, else the one that holds where nothing is given.  At the end the bounds are looked over, in
their order too, and the first one that is violated is reported.

What a variable may hold is said without reading it: a numeral (`Numeral.Means`), or the name of a
plan once the blanks at its ends and the case of its letters are taken away (`Plan.Named`).  Bytes
that are no text count as nothing.

What passes all three layers is good for a ring: it can be laid, and it can be spawned.

Main statement: `Config.configuration_is_exact`.
-/
import DiningRing.Proofs.Live.Health
import DiningRing.Proofs.Numerals

namespace DiningRing

/-! ### Names of plans -/

namespace Plan

/-- The names under which a plan is known. -/
def aliases : Plan → List String
  | reversedLast => ["reversed-last", "reversed_last", "reversed"]
  | uniform => ["uniform", "naive"]

/-- A text names a plan: without blanks at its ends and in lower case it is one of the names. -/
def Named (name : String) (p : Plan) : Prop := Text.lowerCase (Text.trim name) ∈ p.aliases

lemma ofName?_eq_some_iff {name : String} {p : Plan} : ofName? name = some p ↔ Named name p := by
  unfold ofName? Named
  split
  all_goals cases p <;> simp_all [aliases]

end Plan

/-! ### What variables hold -/

namespace Variable

variable {α : Type} {Means : String → α → Prop} {v : Variable}

/-- The value that a variable holds, if texts mean values of some kind: none if there is no text. -/
inductive Holds (Means : String → α → Prop) : Variable → Option α → Prop where
  | unset : Holds Means .unset none
  | undecodable : Holds Means .undecodable none
  | text {s : String} {a : α} (means : Means s a) : Holds Means (.text s) (some a)

/-- A variable with a text that means nothing. -/
def Faulty (Means : String → α → Prop) (v : Variable) : Prop :=
  ∃ s, v = .text s ∧ ∀ a, ¬ Means s a

lemma exists_holds (h : ¬ v.Faulty Means) : ∃ a, v.Holds Means a := by
  cases v with
  | unset => exact ⟨none, .unset⟩
  | undecodable => exact ⟨none, .undecodable⟩
  | text s =>
    by_contra hno
    exact h ⟨s, rfl, fun a ha => hno ⟨some a, .text ha⟩⟩

end Variable

namespace Environment

variable {v : Variable} {lookup : String → Variable}

lemma numberSetting?_of_holds {n : Option ℕ} (h : v.Holds (Numeral.Means (2 ^ 64)) n)
    (key width : String) (setting : ℕ → Config.Setting) :
    numberSetting? key width v setting = .ok (n.map setting) := by
  cases h with
  | unset | undecodable => rfl
  | text means => simp [numberSetting?, Variable.text?, Numeral.parse_eq_ok_iff.mpr means]

lemma numberSetting?_of_faulty (h : v.Faulty (Numeral.Means (2 ^ 64))) (key width : String)
    (setting : ℕ → Config.Setting) :
    ∃ message, numberSetting? key width v setting = .error (.invalidVariable key message) := by
  obtain ⟨s, rfl, hs⟩ := h
  cases hparse : Numeral.parse s with
  | ok n => exact absurd (Numeral.parse_eq_ok_iff.mp hparse) (hs n)
  | error e => exact ⟨_, by simp only [numberSetting?, Variable.text?, hparse]; rfl⟩

lemma planSetting?_of_holds {p : Option Plan} (h : v.Holds Plan.Named p) (key : String) :
    planSetting? key v = .ok (p.map .plan) := by
  cases h with
  | unset | undecodable => rfl
  | text means => simp [planSetting?, Variable.text?, Plan.ofName?_eq_some_iff.mpr means]

lemma planSetting?_of_faulty (h : v.Faulty Plan.Named) (key : String) :
    ∃ message, planSetting? key v = .error (.invalidVariable key message) := by
  obtain ⟨s, rfl, hs⟩ := h
  cases hname : Plan.ofName? s with
  | some p => exact absurd (Plan.ofName?_eq_some_iff.mp hname) (hs p)
  | none => exact ⟨_, by simp only [planSetting?, Variable.text?, hname]; rfl⟩

/-! ### The variables in their order -/

/-- The variables of a ring. -/
inductive Key where
  | seats
  | eatMillis
  | thinkMillis
  | plan

namespace Key

/-- The name of a variable. -/
def name : Key → String
  | seats => "SYMPOSIUM_SEATS"
  | eatMillis => "SYMPOSIUM_EAT_MS"
  | thinkMillis => "SYMPOSIUM_THINK_MS"
  | plan => "SYMPOSIUM_PLAN"

/-- A variable is faulty in an environment: its text is no name of a plan, or no numeral for a
word. -/
def Faulty (lookup : String → Variable) : Key → Prop
  | plan => (lookup plan.name).Faulty Plan.Named
  | key => (lookup key.name).Faulty (Numeral.Means (2 ^ 64))

/-- What reading a variable comes to. -/
def reading (lookup : String → Variable) : Key → Except ConfigError (Option Config.Setting)
  | seats => numberSetting? seats.name "usize" (lookup seats.name) .seats
  | eatMillis =>
    numberSetting? eatMillis.name "u64" (lookup eatMillis.name) fun n => .eatTime (.ofMillis n)
  | thinkMillis =>
    numberSetting? thinkMillis.name "u64" (lookup thinkMillis.name)
      fun n => .thinkTime (.ofMillis n)
  | plan => planSetting? plan.name (lookup plan.name)

variable {key : Key}

lemma reading_of_faulty (h : key.Faulty lookup) :
    ∃ message, key.reading lookup = .error (.invalidVariable key.name message) := by
  cases key with
  | seats | eatMillis | thinkMillis =>
    simp only [reading]
    exact numberSetting?_of_faulty h _ _ _
  | plan =>
    simp only [reading]
    exact planSetting?_of_faulty h _

lemma reading_of_not_faulty (h : ¬ key.Faulty lookup) : ∃ s, key.reading lookup = .ok s := by
  cases key with
  | seats | eatMillis | thinkMillis =>
    obtain ⟨n, hn⟩ := Variable.exists_holds h
    simp only [reading]
    exact ⟨_, numberSetting?_of_holds hn _ _ _⟩
  | plan =>
    obtain ⟨p, hp⟩ := Variable.exists_holds h
    simp only [reading]
    exact ⟨_, planSetting?_of_holds hp _⟩

end Key

/-- What readings come to in their order: all that they set, or the first fault. -/
def gather : List (Except ConfigError (Option Config.Setting)) →
    Except ConfigError (List Config.Setting)
  | [] => .ok []
  | .error e :: _ => .error e
  | .ok none :: rest => gather rest
  | .ok (some s) :: rest => (gather rest).map (s :: ·)

lemma settings_eq_gather (env : Environment) : env.settings = gather env.readings := by
  unfold settings
  induction env.readings with
  | nil => rfl
  | cons reading rest ih =>
    rw [List.foldr_cons, ih]
    match reading with
    | .error e => rfl
    | .ok none => rfl
    | .ok (some s) => rfl

lemma gather_ok (settings : List (Option Config.Setting)) :
    gather (settings.map .ok) = .ok (settings.filterMap id) := by
  induction settings with
  | nil => rfl
  | cons setting rest ih =>
    cases setting with
    | none => exact ih
    | some s =>
      rw [List.map_cons, gather, ih]
      rfl

/-- The first fault counts. -/
lemma gather_error {before after : List (Except ConfigError (Option Config.Setting))}
    {e : ConfigError} (h : ∀ reading ∈ before, ∃ s, reading = .ok s) :
    gather (before ++ .error e :: after) = .error e := by
  induction before with
  | nil => rfl
  | cons reading before ih =>
    rw [List.forall_mem_cons] at h
    obtain ⟨⟨s, rfl⟩, hbefore⟩ := h
    cases s with
    | none => exact ih hbefore
    | some s =>
      rw [List.cons_append, gather, ih hbefore]
      rfl

lemma readings_ofLookup (lookup : String → Variable) : (ofLookup lookup).readings
    = [Key.seats, .eatMillis, .thinkMillis, .plan].map (Key.reading lookup) :=
  rfl

/-- **The first variable at fault is named.** -/
lemma settings_of_faulty {before after : List Key} {key : Key}
    (horder : [Key.seats, .eatMillis, .thinkMillis, .plan] = before ++ key :: after)
    (hbefore : ∀ earlier ∈ before, ¬ earlier.Faulty lookup) (hkey : key.Faulty lookup) :
    ∃ message, (ofLookup lookup).settings = .error (.invalidVariable key.name message) := by
  obtain ⟨message, hmessage⟩ := Key.reading_of_faulty hkey
  refine ⟨message, ?_⟩
  rw [settings_eq_gather, readings_ofLookup, horder, List.map_append, List.map_cons, hmessage]
  refine gather_error fun reading hreading => ?_
  obtain ⟨earlier, hmem, rfl⟩ := List.mem_map.mp hreading
  exact Key.reading_of_not_faulty (hbefore earlier hmem)

/-- What is set by variables that hold some values, or none. -/
def given (seats eat think : Option ℕ) (plan : Option Plan) : List Config.Setting :=
  [seats.map .seats, eat.map fun n => .eatTime (.ofMillis n),
    think.map fun n => .thinkTime (.ofMillis n), plan.map .plan].filterMap id

/-- **What sound variables hold is set.** -/
lemma settings_of_holds {seats eat think : Option ℕ} {plan : Option Plan}
    (hseats : (lookup "SYMPOSIUM_SEATS").Holds (Numeral.Means (2 ^ 64)) seats)
    (heat : (lookup "SYMPOSIUM_EAT_MS").Holds (Numeral.Means (2 ^ 64)) eat)
    (hthink : (lookup "SYMPOSIUM_THINK_MS").Holds (Numeral.Means (2 ^ 64)) think)
    (hplan : (lookup "SYMPOSIUM_PLAN").Holds Plan.Named plan) :
    (ofLookup lookup).settings = .ok (given seats eat think plan) := by
  rw [settings_eq_gather, given, ← gather_ok]
  simp only [readings, ofLookup, numberSetting?_of_holds hseats, numberSetting?_of_holds heat,
    numberSetting?_of_holds hthink, planSetting?_of_holds hplan, List.map_cons, List.map_nil]

end Environment

/-! ### Values set by hand -/

attribute [ext] Config

namespace Config

namespace Setting

/-- The seats that are set. -/
def seats? : Setting → Option ℕ
  | seats n => some n
  | _ => none

/-- The time to eat that is set. -/
def eatTime? : Setting → Option Duration
  | eatTime d => some d
  | _ => none

/-- The time to think that is set. -/
def thinkTime? : Setting → Option Duration
  | thinkTime d => some d
  | _ => none

/-- The plan that is set. -/
def plan? : Setting → Option Plan
  | plan p => some p
  | _ => none

end Setting

/-- The value of a field that counts: the one set last, else the variable's, else the default. -/
def chosen {α : Type} (field? : Setting → Option α) (settings : List Setting) (held : Option α)
    (default : α) : α :=
  ((settings.filterMap field?).getLast?.or held).getD default

/-- **The last setting counts**, for any field that settings write or leave alone. -/
lemma get_setAll {α : Type} {get : Config → α} {field? : Setting → Option α}
    (hset : ∀ c s, get (set c s) = (field? s).getD (get c)) (c : Config) (settings : List Setting) :
    get (c.setAll settings) = (settings.filterMap field?).getLast?.getD (get c) := by
  induction settings generalizing c with
  | nil => rfl
  | cons s rest ih =>
    show get ((c.set s).setAll rest) = _
    rw [ih, hset]
    cases hs : field? s with
    | none => rw [List.filterMap_cons_none hs, Option.getD_none]
    | some a =>
      rw [List.filterMap_cons_some hs, List.getLast?_cons, Option.getD_some, Option.getD_some]

/-- **Each field has the value that counts.** -/
lemma setAll_setAll_default (seats eat think : Option ℕ) (plan : Option Plan)
    (settings : List Setting) :
    (default.setAll (Environment.given seats eat think plan)).setAll settings
    = { seats := chosen Setting.seats? settings seats 16
        eatTime := chosen Setting.eatTime? settings (eat.map .ofMillis) .zero
        thinkTime := chosen Setting.thinkTime? settings (think.map .ofMillis) .zero
        plan := chosen Setting.plan? settings plan .reversedLast } := by
  have hgiven : default.setAll (Environment.given seats eat think plan) = ⟨seats.getD 16,
      (eat.map .ofMillis).getD .zero, (think.map .ofMillis).getD .zero,
      plan.getD .reversedLast⟩ := by
    cases seats <;> cases eat <;> cases think <;> cases plan <;> rfl
  rw [hgiven]
  simp only [chosen, Option.getD_or]
  -- each kind of setting writes its own field and leaves the other three alone
  refine Config.ext ?_ ?_ ?_ ?_
  all_goals exact get_setAll (fun c s => by cases s <;> rfl) _ settings

/-! ### The bounds of a configuration -/

/-- What looking over a configuration comes to: it is accepted as it is if it keeps all bounds, and
refused for the first one that it violates. -/
structure Judged (c : Config) (verdict : Except ConfigError Config) : Prop where
  accepted : verdict = .ok c ↔ 2 ≤ c.seats ∧ c.seats ≤ 4096 ∧
    c.eatTime.nanoseconds ≤ 60 * 10 ^ 9 ∧ c.thinkTime.nanoseconds ≤ 60 * 10 ^ 9
  fewSeats : c.seats < 2 → verdict = .error (.outOfBounds "seats must be at least 2")
  manySeats : 4096 < c.seats → verdict = .error (.outOfBounds "seats must be <= 4096")
  longMeals : 2 ≤ c.seats → c.seats ≤ 4096 → 60 * 10 ^ 9 < c.eatTime.nanoseconds →
    verdict = .error (.outOfBounds "eat_time must be <= 60s")
  longThoughts : 2 ≤ c.seats → c.seats ≤ 4096 → c.eatTime.nanoseconds ≤ 60 * 10 ^ 9 →
    60 * 10 ^ 9 < c.thinkTime.nanoseconds →
    verdict = .error (.outOfBounds "think_time must be <= 60s")

lemma judged_validate (c : Config) : c.Judged c.validate := by
  have hpause : maxPause.nanoseconds = 60 * 10 ^ 9 := rfl
  have hseats : maxSeats = 4096 := rfl
  have htext : s!"seats must be <= {maxSeats}" = "seats must be <= 4096" := rfl
  unfold validate
  rw [hpause, htext, hseats]
  split_ifs with hfew hmany hmeals hthoughts
  all_goals
    constructor <;> simp <;> omega

/-- What is accepted has seats enough for a ring. -/
lemma two_le_seats_of_validate {c d : Config} (h : c.validate = .ok d) : 2 ≤ d.seats := by
  unfold validate at h
  split_ifs at h with hfew
  cases h
  exact Nat.not_lt.mp hfew

/-! ### The whole way -/

/-- **Configuration is exact.**  Whatever the environment holds and whatever is set by hand, the
first variable whose text means nothing is named, in the order in which the variables are read, and
no setting helps.  If there is none, each field has the value that was set last, else the value of
its variable, else the default; and that configuration is accepted if it keeps all bounds, and
refused for the first one that it violates.  A ring can be laid for every configuration that is
accepted, and spawned where there is something to run it. -/
theorem configuration_is_exact (lookup : String → Variable) :
    let env := Environment.ofLookup lookup
    (∀ before key after,
      [Environment.Key.seats, .eatMillis, .thinkMillis, .plan] = before ++ key :: after →
      (∀ earlier ∈ before, ¬ earlier.Faulty lookup) → key.Faulty lookup →
      ∃ message, ofEnvironment env = .error (.invalidVariable key.name message) ∧
        ∀ settings, configure env settings = .error (.invalidVariable key.name message)) ∧
    ((∀ key : Environment.Key, ¬ key.Faulty lookup) → ∃ seats eat think plan,
      (lookup "SYMPOSIUM_SEATS").Holds (Numeral.Means (2 ^ 64)) seats ∧
      (lookup "SYMPOSIUM_EAT_MS").Holds (Numeral.Means (2 ^ 64)) eat ∧
      (lookup "SYMPOSIUM_THINK_MS").Holds (Numeral.Means (2 ^ 64)) think ∧
      (lookup "SYMPOSIUM_PLAN").Holds Plan.Named plan ∧
      ∀ settings, Judged
        { seats := chosen Setting.seats? settings seats 16
          eatTime := chosen Setting.eatTime? settings (eat.map .ofMillis) .zero
          thinkTime := chosen Setting.thinkTime? settings (think.map .ofMillis) .zero
          plan := chosen Setting.plan? settings plan .reversedLast }
        (configure env settings)) ∧
    ∀ settings c, configure env settings = .ok c →
      Ring.lay c.seats c.plan = .ok ⟨c.seats, c.plan⟩ ∧
      ∀ o : Observer, ∃ running, (Supervisor.mk c o).spawn true = .ok running := by
  intro env
  refine ⟨fun before key after horder hbefore hkey => ?_, fun hsound => ?_,
    fun settings c hc => ?_⟩
  · obtain ⟨message, hmessage⟩ := Environment.settings_of_faulty horder hbefore hkey
    have hfails : ofEnvironment env = .error (.invalidVariable key.name message) := by
      rw [ofEnvironment, hmessage]
      rfl
    exact ⟨message, hfails, fun settings => by rw [configure, hfails]⟩
  · obtain ⟨seats, hseats⟩ := Variable.exists_holds (hsound .seats)
    obtain ⟨eat, heat⟩ := Variable.exists_holds (hsound .eatMillis)
    obtain ⟨think, hthink⟩ := Variable.exists_holds (hsound .thinkMillis)
    obtain ⟨plan, hplan⟩ := Variable.exists_holds (hsound .plan)
    refine ⟨seats, eat, think, plan, hseats, heat, hthink, hplan, fun settings => ?_⟩
    rw [← setAll_setAll_default, configure, ofEnvironment,
      Environment.settings_of_holds hseats heat hthink hplan]
    exact judged_validate _
  · have hseats : 2 ≤ c.seats := by
      unfold configure at hc
      split at hc
      · cases hc
      · exact two_le_seats_of_validate hc
    refine ⟨Ring.lay_eq_ok hseats c.plan, fun o => ?_⟩
    obtain ⟨running, -, hspawn, -⟩ := Supervisor.exists_laid_session c hseats o
    exact ⟨running, hspawn⟩

/-- A pause with a blank behind it is no numeral, and it is read before the plan, which has no name
either.  A plus sign and a zero in front are allowed, and so are blanks and capitals around the name
of a plan; a minute is a pause that is accepted, and a nanosecond more is not. -/
theorem configuration_is_exact_at_samples :
    let faulty : String → Variable := fun name =>
      if name = "SYMPOSIUM_SEATS" then .undecodable else
        if name = "SYMPOSIUM_EAT_MS" then .text "5 " else .text "round"
    let sound : String → Variable := fun name =>
      if name = "SYMPOSIUM_SEATS" then .text "+07" else
        if name = "SYMPOSIUM_PLAN" then .text " Naive " else .unset
    let accepted : Config := ⟨7, ⟨60 * 10 ^ 9⟩, .zero, .uniform⟩
    ¬ Environment.Key.seats.Faulty faulty ∧ Environment.Key.eatMillis.Faulty faulty ∧
    (∃ message, ∀ settings, configure (.ofLookup faulty) settings
      = .error (.invalidVariable "SYMPOSIUM_EAT_MS" message)) ∧
    (∀ key : Environment.Key, ¬ key.Faulty sound) ∧
    configure (.ofLookup sound) [.eatTime .zero, .eatTime ⟨60 * 10 ^ 9⟩] = .ok accepted ∧
    configure (.ofLookup sound) [.eatTime ⟨60 * 10 ^ 9 + 1⟩]
      = .error (.outOfBounds "eat_time must be <= 60s") ∧
    ∃ running, (Supervisor.mk accepted ⟨.null, none⟩).spawn true = .ok running := by
  intro faulty sound accepted
  have hblank : ∀ n, ¬ Numeral.Means (2 ^ 64) "5 " n := by
    intro n h
    have hparse : Numeral.parse "5 " = .error .invalidDigit := by decide
    cases hparse.symm.trans (Numeral.parse_eq_ok_iff.mpr h)
  have hnumeral : Numeral.parse "+07" = .ok 7 := by decide
  have hname : Plan.ofName? " Naive " = some .uniform := by decide
  have hfirst : ¬ Environment.Key.seats.Faulty faulty := by
    rintro ⟨s, hs, -⟩
    cases hs
  have hsecond : Environment.Key.eatMillis.Faulty faulty := ⟨"5 ", rfl, hblank⟩
  have hsound : ∀ key : Environment.Key, ¬ key.Faulty sound := by
    intro key
    cases key with
    | seats =>
      rintro ⟨s, hs, hno⟩
      cases hs
      exact hno 7 (Numeral.parse_eq_ok_iff.mp hnumeral)
    | eatMillis | thinkMillis =>
      rintro ⟨s, hs, -⟩
      cases hs
    | plan =>
      rintro ⟨s, hs, hno⟩
      cases hs
      exact hno .uniform (Plan.ofName?_eq_some_iff.mp hname)
  obtain ⟨message, -, hfails⟩ := (configuration_is_exact faulty).1 [.seats] .eatMillis
    [.thinkMillis, .plan] rfl (by simpa using hfirst) hsecond
  obtain ⟨-, hvalues, hgood⟩ := configuration_is_exact sound
  obtain ⟨seats, eat, think, plan, hseats, heat, hthink, hplan, hjudged⟩ := hvalues hsound
  obtain rfl : seats = some 7 := by
    cases hseats with
    | text means =>
      exact congrArg some (Except.ok.inj ((Numeral.parse_eq_ok_iff.mpr means).symm.trans hnumeral))
  obtain rfl : eat = none := by cases heat with | unset => rfl
  obtain rfl : think = none := by cases hthink with | unset => rfl
  obtain rfl : plan = some .uniform := by
    cases hplan with
    | text means => exact (Plan.ofName?_eq_some_iff.mpr means).symm.trans hname
  have haccepted : configure (.ofLookup sound) [.eatTime .zero, .eatTime ⟨60 * 10 ^ 9⟩]
      = .ok accepted := (hjudged _).accepted.mpr (by decide)
  exact ⟨hfirst, hsecond, ⟨message, hfails⟩, hsound, haccepted,
    (hjudged _).longMeals (by decide) (by decide) (by decide),
    (hgood _ accepted haccepted).2 ⟨.null, none⟩⟩

end Config

end DiningRing
