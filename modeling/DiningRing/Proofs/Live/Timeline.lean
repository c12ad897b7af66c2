/-
# Meals and the clock

A table is undisturbed if time passes in sleeps alone: as long as somebody can take a turn the
clock stands still, and then it moves on to the next tick for which somebody sleeps
(`Session.undisturbed`).  Nothing is assumed about the order in which seats that are ready get
their turns; the one in which a session that runs by itself gives them is one of these
(`Session.exists_undisturbed_of_runUntil`).

In whatever order that is, an undisturbed session stays punctual (`Session.OnTime.follow`), so
that the meals among the events that are heard are those of the timetable, each at its time.
They do come: with every turn there is a move or a seat sits down, two turns at least for each
time that the clock is set, and there are at most seven moves for each meal.
-/
import DiningRing.Proofs.Live.Health
import DiningRing.Proofs.Live.Punctual

namespace DiningRing

namespace Session

/-! ### Timelines -/

/-- What is heard at a moment. -/
def spoken (s : Session) : Moment → List Event
  | .turn seat =>
    match s.table.step seat with
    | some t => heard t.notices
    | none => []
  | .time _ => []

/-- What is heard at several moments, and at which tick of the clock. -/
def timeline (s : Session) : List Moment → List (ℕ × Event)
  | [] => []
  | m :: moments => (s.spoken m).map (Prod.mk s.table.clock) ++ timeline (s.happen m) moments

/-- The meals among events. -/
def mealsIn (events : List (ℕ × Event)) : List (ℕ × Event) := events.filter fun e => e.2.isMeal

/-- Whether a moment can come next if nothing disturbs the table: a seat gets a turn that it can
take, or the clock moves on to the next tick for which somebody sleeps because nobody can take a
turn. -/
def isDue (s : Session) : Moment → Bool
  | .turn seat => (s.table.step seat).isSome
  | .time clock => s.table.isStill && s.table.nextWake? == some clock

/-- Whether moments come one after another without a disturbance. -/
def undisturbed (s : Session) : List Moment → Bool
  | [] => true
  | m :: moments => s.isDue m && undisturbed (s.happen m) moments

variable {r : Ring} {pc : Pacing} {sink : Sink} {s : Session} {N T k : ℕ} {fresh : Finset ℕ}
  {events : List (ℕ × Event)}

lemma mealsIn_append (events later : List (ℕ × Event)) :
    mealsIn (events ++ later) = mealsIn events ++ mealsIn later :=
  List.filter_append events later

/-- Those who start to eat at one time. -/
lemma mealsIn_map (c : ℕ) (events : List Event) : mealsIn (events.map (Prod.mk c))
    = ((Trace.eatingOrder events).map (Prod.mk c)).map (Prod.map id (Event.mk · .eating)) := by
  induction events with
  | nil => rfl
  | cons e events ih =>
    obtain ⟨i, transition⟩ := e
    have happend := mealsIn_append [(c, ⟨i, transition⟩)] (events.map (Prod.mk c))
    rw [List.map_cons, ← List.singleton_append, happend, ih]
    cases transition <;> rfl

lemma undisturbed_append (s : Session) (moments later : List Moment) :
    s.undisturbed (moments ++ later)
      = (s.undisturbed moments && (s.follow moments).undisturbed later) := by
  induction moments generalizing s with
  | nil => rfl
  | cons m moments ih =>
    rw [List.cons_append, undisturbed, undisturbed, ih, Bool.and_assoc]
    rfl

/-! ### Undisturbed sessions -/

/-- A session that has come to a moment undisturbed, with `events` heard in `N` moments, and
with the seats of `fresh` still to have their first turn. -/
structure OnTime (r : Ring) (pc : Pacing) (sink : Sink) (s : Session) (events : List (ℕ × Event))
    (N T k : ℕ) (fresh : Finset ℕ) : Prop where
  table : s.table.OnTime r pc T k
  observer : s.observer = ⟨sink.recordAll (events.map Prod.snd), none⟩
  meals : mealsIn events = (pc.calendar r.seats (s.table.view.begun r.seats k)).map
    (Prod.map id (Event.mk · .eating))
  greets : ∀ i, s.table.Greets i → i ∈ fresh
  moments : N + 2 * fresh.card ≤ 2 * (T + r.seats)
  /-- After the clock has been set somebody can take a turn. -/
  still : s.table.isStill = true → N + 2 * fresh.card < 2 * (T + r.seats)

/-- **A turn that can be taken leaves the session on time.** -/
lemma OnTime.turn (hs : s.OnTime r pc sink events N T k fresh) {i : ℕ} {turn : Turn}
    (hstep : s.table.step i = some turn) : ∃ T' k' fresh', (s.happen (.turn i)).OnTime r pc sink
      (events ++ (s.spoken (.turn i)).map (Prod.mk s.table.clock)) (N + 1) T' k' fresh' := by
  obtain ⟨hending, hclock, T', k', htable, hcalendar, hgreets, hprogress⟩ := hs.table.step hstep
  obtain ⟨journal, habsorb⟩ := exists_absorb (by rw [hs.observer]) hending
  have hspoken : s.spoken (.turn i) = heard turn.notices := by simp only [spoken, hstep]
  -- with each turn two more moments are allowed for
  have hmoments : N + 1 + 2 * (fresh.erase i).card < 2 * (T' + r.seats) := by
    have hle := hs.moments
    rcases hprogress with hlt | ⟨hle', hgreet⟩
    · have hcard := fresh.card_erase_le (a := i)
      omega
    · have hcard := Finset.card_erase_add_one (hs.greets i hgreet)
      omega
  refine ⟨T', k', fresh.erase i, ?_⟩
  rw [happen_turn_of_some hstep, habsorb, hspoken]
  refine ⟨htable, ?_, ?_, fun j hj => ?_, hmoments.le, fun _ => hmoments⟩
  · rw [hs.observer, List.map_append, Sink.recordAll_append, List.map_map]
    simp [Function.comp_def]
  · rw [mealsIn_append, hs.meals, mealsIn_map, ← List.map_append, ← hcalendar]
  · obtain ⟨hgreet, hji⟩ := hgreets j hj
    exact Finset.mem_erase.mpr ⟨hji, hs.greets j hgreet⟩

/-- **So does the clock if it moves on while nobody can take a turn.** -/
lemma OnTime.time (hn : 2 ≤ r.seats) (hs : s.OnTime r pc sink events N T k fresh) {clock : ℕ}
    (hstill : s.table.isStill = true) (hnext : s.table.nextWake? = some clock) :
    (s.happen (.time clock)).OnTime r pc sink events (N + 1) T k fresh := by
  obtain ⟨wake, hwake, htable, hmoves⟩ := hs.table.wait hn hstill
  obtain rfl : wake = clock := Option.some.inj (hwake.symm.trans hnext)
  have hmoments := hs.still hstill
  refine ⟨htable, hs.observer, hs.meals, hs.greets, by omega, fun h => ?_⟩
  exact absurd (hmoves.symm.trans h) (by simp)

/-- **Every moment that is due leaves the session on time.** -/
theorem OnTime.happen (hn : 2 ≤ r.seats) (hs : s.OnTime r pc sink events N T k fresh) {m : Moment}
    (hdue : s.isDue m = true) : ∃ T' k' fresh', (s.happen m).OnTime r pc sink
      (events ++ (s.spoken m).map (Prod.mk s.table.clock)) (N + 1) T' k' fresh' := by
  cases m with
  | turn i =>
    obtain ⟨turn, hstep⟩ := Option.isSome_iff_exists.mp hdue
    exact hs.turn hstep
  | time clock =>
    simp only [isDue, Bool.and_eq_true, beq_iff_eq] at hdue
    refine ⟨T, k, fresh, ?_⟩
    rw [spoken, List.map_nil, List.append_nil]
    exact hs.time hn hdue.1 hdue.2

/-- **Every undisturbed session is on time.** -/
theorem OnTime.follow (hn : 2 ≤ r.seats) (hs : s.OnTime r pc sink events N T k fresh)
    {moments : List Moment} (hundisturbed : s.undisturbed moments = true) :
    ∃ T' k' fresh', (s.follow moments).OnTime r pc sink (events ++ s.timeline moments)
      (N + moments.length) T' k' fresh' := by
  induction moments generalizing s events N T k fresh with
  | nil =>
    refine ⟨T, k, fresh, ?_⟩
    rw [timeline, List.append_nil]
    exact hs
  | cons m moments ih =>
    rw [undisturbed, Bool.and_eq_true] at hundisturbed
    obtain ⟨T₁, k₁, fresh₁, hfirst⟩ := hs.happen hn hundisturbed.1
    obtain ⟨T₂, k₂, fresh₂, hrest⟩ := ih hfirst hundisturbed.2
    refine ⟨T₂, k₂, fresh₂, ?_⟩
    rw [timeline, ← List.append_assoc, List.length_cons, Nat.add_comm moments.length,
      ← Nat.add_assoc]
    exact hrest

/-- **An undisturbed session never comes to an end.** -/
theorem OnTime.exists_due (hn : 2 ≤ r.seats) (hs : s.OnTime r pc sink events N T k fresh) :
    ∃ m, s.isDue m = true := by
  cases hstill : s.table.isStill with
  | true =>
    obtain ⟨clock, hclock, -⟩ := hs.table.wait hn hstill
    exact ⟨.time clock, by simp [isDue, hstill, hclock]⟩
  | false =>
    rw [Table.isStill, List.all_eq_false] at hstill
    obtain ⟨i, -, hi⟩ := hstill
    exact ⟨.turn i, Option.isSome_iff_ne_none.mpr (by simpa using hi)⟩

/-! ### Runs of a session -/

/-- A seat that is polled gets turns that it can take, or none. -/
lemma exists_undisturbed_of_poll (fuel : ℕ) (s : Session) (seat : ℕ) :
    ∃ moments, s.undisturbed moments = true ∧ (poll fuel s seat).1 = s.follow moments ∧
      ((poll fuel s seat).2 = false → 0 < fuel → s.table.step seat = none ∧ moments = []) := by
  induction fuel generalizing s with
  | zero => exact ⟨[], rfl, rfl, fun _ h => absurd h (lt_irrefl 0)⟩
  | succ fuel ih =>
    cases hstep : s.table.step seat with
    | none => exact ⟨[], rfl, by simp only [poll, hstep]; rfl, fun _ _ => ⟨rfl, rfl⟩⟩
    | some t =>
      obtain ⟨moments, hundisturbed, hpoll, -⟩ := ih (s.absorb seat t)
      refine ⟨.turn seat :: moments, ?_, ?_, fun h => ?_⟩
      · rw [undisturbed, happen_turn_of_some hstep, hundisturbed, isDue, hstep]
        rfl
      · rw [follow, List.foldl_cons, happen_turn_of_some hstep]
        simp only [poll, hstep]
        exact hpoll
      · simp [poll, hstep] at h

/-- A sweep without a turn finds that nobody can take one. -/
lemma exists_undisturbed_of_sweep (s : Session) :
    ∃ moments, s.undisturbed moments = true ∧ s.sweep.1 = s.follow moments ∧
      (s.sweep.2 = false → s.table.isStill = true ∧ moments = []) := by
  have hfold : ∀ (seats : List ℕ) (p : Session × Bool), ∃ moments,
      let after := seats.foldl
        (fun p seat => ((poll burst p.1 seat).1, p.2 || (poll burst p.1 seat).2)) p
      p.1.undisturbed moments = true ∧ after.1 = p.1.follow moments ∧
        (after.2 = false → p.2 = false ∧ (∀ seat ∈ seats, p.1.table.step seat = none) ∧
          moments = []) := by
    intro seats
    induction seats with
    | nil => exact fun p => ⟨[], rfl, rfl, fun h => ⟨h, by simp, rfl⟩⟩
    | cons seat seats ih =>
      intro p
      obtain ⟨first, hfirst, hpoll, hnone⟩ := exists_undisturbed_of_poll burst p.1 seat
      obtain ⟨moments, hrest, hafter, hquiet⟩ :=
        ih ((poll burst p.1 seat).1, p.2 || (poll burst p.1 seat).2)
      refine ⟨first ++ moments, ?_, ?_, fun h => ?_⟩
      · rw [undisturbed_append, hfirst, ← hpoll]
        exact hrest
      · rw [follow_append, ← hpoll]
        exact hafter
      · obtain ⟨hmoved, hseats, rfl⟩ := hquiet h
        rw [Bool.or_eq_false_iff] at hmoved
        obtain ⟨hseat, rfl⟩ := hnone hmoved.2 (by decide)
        have hsame : (poll burst p.1 seat).1 = p.1 := hpoll
        rw [hsame] at hseats
        exact ⟨hmoved.1, List.forall_mem_cons.mpr ⟨hseat, hseats⟩, rfl⟩
  obtain ⟨moments, hundisturbed, hafter, hquiet⟩ := hfold (List.range s.table.seats) (s, false)
  refine ⟨moments, hundisturbed, hafter, fun h => ?_⟩
  obtain ⟨-, hseats, hnil⟩ := hquiet h
  exact ⟨Table.isStill_iff.mpr fun i hi => hseats i (List.mem_range.mpr hi), hnil⟩

/-- **A session that runs by itself is undisturbed**, until its clock is set to its limit. -/
theorem exists_undisturbed_of_runUntil (halt : Session → Bool) (limit fuel : ℕ) (s : Session) :
    ∃ moments, s.undisturbed moments = true ∧ (runUntil halt limit fuel s = s.follow moments ∨
      runUntil halt limit fuel s = (s.follow moments).happen (.time limit)) := by
  induction fuel generalizing s with
  | zero => exact ⟨[], rfl, .inr rfl⟩
  | succ fuel ih =>
    obtain ⟨moments, hundisturbed, hsweep, hquiet⟩ := s.exists_undisturbed_of_sweep
    rw [runUntil]
    split_ifs with hhalt
    · exact ⟨[], rfl, .inl rfl⟩
    · cases hs : s.sweep with
      | mk after moved =>
        rw [hs] at hsweep hquiet
        obtain rfl : after = s.follow moments := hsweep
        cases moved with
        | true =>
          obtain ⟨later, hlater, hrest⟩ := ih (s.follow moments)
          refine ⟨moments ++ later, by rw [undisturbed_append, hundisturbed, hlater]; rfl, ?_⟩
          rw [follow_append]
          exact hrest
        | false =>
          obtain ⟨hstill, rfl⟩ := hquiet rfl
          dsimp only
          split
          · rename_i wake hwake
            split_ifs
            · obtain ⟨later, hlater, hrest⟩ := ih (s.happen (.time wake))
              have hwake : s.table.nextWake? = some wake := hwake
              refine ⟨.time wake :: later, ?_, hrest⟩
              simp [undisturbed, isDue, hstill, hwake, hlater]
            · exact ⟨[], rfl, .inr rfl⟩
          · exact ⟨[], rfl, .inr rfl⟩

end Session

/-! ### The start -/

lemma Duration.ticks_ofMillis (n : ℕ) : (Duration.ofMillis n).ticks = n := by
  show (n * 1000000 + 999999) / 1000000 = n
  omega

namespace Ring

variable {n i : ℕ} {pc : Pacing} {l : Lanes}

/-- Before anybody has had a turn everybody is on time. -/
lemma onTime_runBelow (hn : 2 ≤ n) (hl : Preloaded ⟨n, .reversedLast⟩ n l) :
    ((Ring.laid ⟨n, .reversedLast⟩ pc l).runBelow n).OnTime ⟨n, .reversedLast⟩ pc 0 0 where
  atWork := Ring.atWork_runBelow hl
  timely := by
    rw [Ring.view_runBelow hl, Table.clock_runBelow]
    exact timely_initial hn pc
  punctual := by
    intro i p call hp hwork
    have hi : i < n := (Ring.atWork_runBelow hl).lt hp
    rw [philosopher?_runBelow (r := ⟨n, .reversedLast⟩) hi] at hp
    obtain rfl := Option.some.inj hp
    obtain rfl := Option.some.inj hwork.called
    refine ⟨rfl, fun wake h => (by cases h), fun _ => ⟨?_, turnsOf_zero hi⟩⟩
    rw [Table.clock_runBelow]
    rfl

/-- The first of them can take its turn. -/
lemma isStill_runBelow (hn : 2 ≤ n) (hl : Preloaded ⟨n, .reversedLast⟩ n l) :
    ((Ring.laid ⟨n, .reversedLast⟩ pc l).runBelow n).isStill = false := by
  have hatWork : ((Ring.laid ⟨n, .reversedLast⟩ pc l).runBelow n).AtWork ⟨n, .reversedLast⟩ :=
    Ring.atWork_runBelow hl
  have hfirst : 0 < n := by omega
  have hp : ((Ring.laid ⟨n, .reversedLast⟩ pc l).runBelow n).philosopher? 0 = some _ :=
    philosopher?_runBelow (r := ⟨n, .reversedLast⟩) hfirst
  obtain ⟨p, call, hp', hwork⟩ := hatWork.working 0 hfirst
  obtain rfl := Option.some.inj (hp.symm.trans hp')
  obtain rfl := Option.some.inj hwork.called
  rw [Bool.eq_false_iff]
  intro hstill
  have hstep := Table.AtWork.isSome_step_of_greet hp hwork rfl
  rw [Table.isStill_iff.mp hstill 0 (Table.lt_size hp)] at hstep
  cases hstep

end Ring

/-- An undisturbed ring begins on time. -/
lemma Supervisor.exists_onTime {n : ℕ} (hn : 2 ≤ n) (think eat : ℕ) (sink : Sink) :
    ∃ running, (Supervisor.mk ⟨n, .ofMillis eat, .ofMillis think, .reversedLast⟩
        ⟨sink, none⟩).spawn true = .ok running ∧ running.session.table.clock = 0 ∧
      running.session.OnTime ⟨n, .reversedLast⟩ ⟨think, eat⟩ sink [] 0 0 0 (Finset.range n) := by
  obtain ⟨running, lanes, hspawn, hlanes, htable, hobserver, -⟩ :=
    exists_laid_session ⟨n, .ofMillis eat, .ofMillis think, .reversedLast⟩ hn ⟨sink, none⟩
  have hlanes : Ring.Preloaded ⟨n, .reversedLast⟩ n lanes := hlanes
  have hpacing : pacing ⟨n, .ofMillis eat, .ofMillis think, .reversedLast⟩ = ⟨think, eat⟩ := by
    simp only [pacing, Duration.ticks_ofMillis]
  rw [hpacing] at htable
  have htable : running.session.table
    = (Ring.laid ⟨n, .reversedLast⟩ ⟨think, eat⟩ lanes).runBelow n := htable
  have hbegun : running.session.table.view.begun n 0 = 0 := by
    have hview : ((Ring.laid ⟨n, .reversedLast⟩ ⟨think, eat⟩ lanes).runBelow n).view = _ :=
      Ring.view_runBelow hlanes
    rw [htable, hview]
    exact Ring.begun_initial (by omega)
  refine ⟨running, hspawn, ?_, htable ▸ Ring.onTime_runBelow hn hlanes, hobserver, ?_, ?_, ?_, ?_⟩
  · rw [htable, Table.clock_runBelow]
    rfl
  · show _ = (Pacing.calendar _ n _).map _
    rw [hbegun]
    rfl
  · rintro i ⟨p, call, hp, -, -⟩
    rw [htable] at hp
    exact Finset.mem_range.mpr ((Ring.atWork_runBelow hlanes).lt hp)
  · rw [Finset.card_range, Nat.zero_add, Nat.zero_add]
  · rw [htable, Ring.isStill_runBelow hn hlanes]
    exact fun h => by cases h

/-- **Meals of an undisturbed ring keep the timetable.**  Think times and eat times are whole
milliseconds, and the ring is spawned at time zero.  However the seats that are ready get their
turns, as long as time passes in sleeps alone: the `k`-th meal that is heard, counted from zero,
is that of seat `k % n`, and it is heard at the tick that the timetable says.  It has been heard
after more than `14 * k + 4 * n` turns and settings of the clock, and there is always a next
one. -/
theorem live_meals_keep_the_timetable {n : ℕ} (hn : 2 ≤ n) (think eat : ℕ) (sink : Sink) :
    let c : Config := ⟨n, .ofMillis eat, .ofMillis think, .reversedLast⟩
    ∃ running, (Supervisor.mk c ⟨sink, none⟩).spawn true = .ok running ∧
      let start := running.session
      start.table.clock = 0 ∧
      ∀ moments : List Session.Moment, start.undisturbed moments = true →
        let events := start.timeline moments
        let meals := events.filter fun e => e.2.isMeal
        (start.follow moments).observer.sink = sink.recordAll (events.map Prod.snd) ∧
        (∀ k < meals.length, meals[k]? = some
          (think + k % n * eat + k / n * max (n * eat) (think + eat), ⟨k % n, .eating⟩)) ∧
        (∀ k, 14 * k + 4 * n < moments.length → k < meals.length) ∧
        ∃ next, start.undisturbed (moments ++ [next]) = true := by
  intro c
  obtain ⟨running, hspawn, hclock, hstart⟩ := Supervisor.exists_onTime hn think eat sink
  refine ⟨running, hspawn, hclock, fun moments hundisturbed => ?_⟩
  obtain ⟨T, k, fresh, hend⟩ := hstart.follow hn hundisturbed
  rw [List.nil_append, Nat.zero_add] at hend
  have hmeals : (running.session.timeline moments).filter (fun e => e.2.isMeal) = _ := hend.meals
  have hlength := congrArg List.length hmeals
  rw [List.length_map, Pacing.calendar, List.length_map, List.length_range] at hlength
  refine ⟨by rw [hend.observer], fun j hj => ?_, fun j hj => ?_, ?_⟩
  · rw [hmeals, Pacing.calendar, List.getElem?_map, List.getElem?_map,
      List.getElem?_range (by omega)]
    rfl
  · have hpace := hend.table.timely.paced.moves_le (show 0 < n by omega)
    have hmoments := hend.moments
    have hseats : (⟨n, .reversedLast⟩ : Ring).seats = n := rfl
    rw [hseats] at hmoments hlength
    omega
  · obtain ⟨next, hdue⟩ := hend.exists_due hn
    refine ⟨next, ?_⟩
    rw [Session.undisturbed_append, hundisturbed, Session.undisturbed, hdue]
    rfl

/-- At a table of two each diner thinks for five ticks and eats for one, so that the table rests
from tick seven on until the first diner is hungry again at tick eleven. -/
theorem live_meals_keep_the_timetable_at_two :
    let moments : List Session.Moment :=
      [.turn 1, .turn 0, .time 5, .turn 1, .turn 0, .time 6, .turn 0, .turn 0, .turn 1, .turn 0,
        .turn 1, .time 7, .turn 1, .turn 1, .turn 1, .time 11, .turn 0, .turn 0, .turn 0]
    2 ≤ 2 ∧ ∃ running, (Supervisor.mk ⟨2, .ofMillis 1, .ofMillis 5, .reversedLast⟩
        ⟨.null, none⟩).spawn true = .ok running ∧
      let start := running.session
      let meals := (start.timeline moments).filter fun e => e.2.isMeal
      start.undisturbed moments = true ∧
        meals = [(5, ⟨0, .eating⟩), (6, ⟨1, .eating⟩), (11, ⟨0, .eating⟩)] ∧
        meals[2]? = some (5 + 2 % 2 * 1 + 2 / 2 * max (2 * 1) (5 + 1), ⟨2 % 2, .eating⟩) ∧
        ∃ next, start.undisturbed (moments ++ [next]) = true := by
  intro moments
  obtain ⟨running, hspawn, -, htimetable⟩ := live_meals_keep_the_timetable (n := 2) (by decide) 5 1
    .null
  have hrun : ((Supervisor.mk ⟨2, .ofMillis 1, .ofMillis 5, .reversedLast⟩
      ⟨.null, none⟩).spawn true).toOption.map (fun running =>
        (running.session.undisturbed moments,
          (running.session.timeline moments).filter fun e => e.2.isMeal))
      = some (true, [(5, ⟨0, .eating⟩), (6, ⟨1, .eating⟩), (11, ⟨0, .eating⟩)]) := by
    decide +kernel
  rw [hspawn] at hrun
  obtain ⟨hundisturbed, hmeals⟩ := Prod.mk.inj (Option.some.inj hrun)
  obtain ⟨-, htimes, -, hnext⟩ := htimetable moments hundisturbed
  exact ⟨by decide, running, hspawn, hundisturbed, hmeals, htimes 2 (by rw [hmeals]; decide), hnext⟩

end DiningRing
