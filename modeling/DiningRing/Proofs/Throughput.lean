/-
# Throughput and bounded waiting

The pace of a ring bounds what a simulation under `reversedLast` counts, whatever its
scheduler does: its steps by its meals and its meals by its steps, and with them the steps
until everybody has eaten and the steps that a seat has to wait for a meal.

A wait is bounded at both of its ends.  A seat that starts to wait has at most a round of
turns before its own, which bounds from below the step at which it starts
(`Simulation.Timed.start_waiting`); and it eats in its own turn, which bounds from above the
step at which it stops (`Simulation.Timed.wait_le`).
-/
import DiningRing.Proofs.Pace

open Finset (range)

namespace DiningRing

namespace Simulation

variable {n k i j : ℕ} {sim t : Simulation} {h : List Move} {a : Action}

/-- A simulation whose ring is at its pace after `k` turns and whose tallies tell of it. -/
structure Timed (sim : Simulation) (k : ℕ) : Prop where
  tallied : sim.Tallied
  paced : sim.state.Paced sim.ring.seats sim.steps k
  meals : ∀ i < sim.ring.seats,
    sim.meals i = turnsOf sim.ring.seats (sim.state.begun sim.ring.seats k) i
  /-- A seat that waits for its meal of turn `n * meals + i` has started to do so less than a
  round of turns before it. -/
  waiting : ∀ i < sim.ring.seats, ∀ since, (sim.tally i).waitingSince = some since →
    7 * (sim.ring.seats * sim.meals i + i + 1) + 1 ≤ since + 8 * sim.ring.seats
  longest : ∀ i < sim.ring.seats, (sim.tally i).longestWait ≤ 8 * sim.ring.seats - 4

/-- A seat that is not busy has eaten as often as it has passed the turn on. -/
lemma Timed.meals_of_not_busy (ht : sim.Timed k) (hi : i < sim.ring.seats)
    (hfree : (sim.state.diner i).phase.busy = false) :
    sim.meals i = turnsOf sim.ring.seats k i := by
  rw [ht.meals i hi, RingState.begun]
  by_cases hturn : k % sim.ring.seats = i
  · rw [hturn, hfree]
    rfl
  · cases (sim.state.diner (k % sim.ring.seats)).phase.busy with
    | false => rfl
    | true => rw [Bool.toNat_true, turnsOf_succ hi, if_neg hturn, Nat.add_zero]

/-! ### The two ends of a wait -/

/-- Whoever starts to wait does so less than a round of turns before its own. -/
lemma Timed.start_waiting (ht : sim.Timed k) (hi : i < sim.ring.seats)
    (h : sim.ring.Ready sim.state i .startWaiting) :
    7 * (sim.ring.seats * sim.meals i + i + 1) + 1 ≤ sim.steps + 1 + 8 * sim.ring.seats := by
  have hp := Ring.paced_perform ht.paced hi h
  have hpace := hp.pace
  have hturns := mul_turnsOf_le hi k
  have hself := Ring.diner_perform_self (a := .startWaiting) ht.paced.sound.fits hi
  cases h with
  | startWaiting hidle =>
    rw [ht.meals_of_not_busy hi (by rw [hidle]; rfl)]
    -- the seat that has started to wait is at stage one at least
    have hone : 1 ≤ ((sim.ring.perform sim.state i .startWaiting).diner i).stage := by
      rw [hself]
      exact Diner.one_le_stage_of_waiting rfl
    have hsum := (sim.ring.perform sim.state i .startWaiting).stage_le_sum hi
    simp only [Action.passes] at hpace
    omega

/-- Whoever starts to eat has not waited too long. -/
lemma Timed.wait_le (ht : sim.Timed k) (hi : i < sim.ring.seats)
    (h : sim.ring.Ready sim.state i .eat) {since : ℕ}
    (hsince : (sim.tally i).waitingSince = some since) :
    sim.steps + 1 - since ≤ 8 * sim.ring.seats - 4 := by
  have hn : 0 < sim.ring.seats := by omega
  have hwait := ht.waiting i hi since hsince
  have hfree : (sim.state.diner i).phase.busy = false := by
    cases h with
    | eat hp => rw [hp]; rfl
  have hturn : i = k % sim.ring.seats := by
    by_contra hne
    rcases Ring.seat_of_ready ht.paced.turn hi h hne with heq | ⟨side, heq⟩
    · cases heq
    · cases heq
  have hbegun : sim.state.begun sim.ring.seats k = k := by
    rw [RingState.begun, ← hturn, hfree]
    rfl
  have hmeals : sim.ring.seats * sim.meals i + i = k := by
    rw [ht.meals_of_not_busy hi hfree, hturn]
    exact mul_turnsOf_mod hn k
  rw [hmeals] at hwait
  -- in the first round the number of steps alone is small enough
  rcases Nat.lt_or_ge k sim.ring.seats with hearly | hlate
  · have hmoves := ht.paced.moves_le_of_lt (by rw [hbegun]; exact hearly)
    rw [hbegun] at hmoves
    omega
  · have hmoves := ht.paced.moves_le_of_le hn hlate (by rw [← hturn]; exact hfree)
    omega

/-! ### Steps keep the time -/

section

variable (ht : sim.Timed k) (hi : i < sim.ring.seats) (hready : sim.ring.Ready sim.state i a)
include ht hi hready

lemma Timed.meals_advance (hj : j < sim.ring.seats) :
    (sim.advance i a (sim.ring.perform sim.state i a)).meals j
      = turnsOf sim.ring.seats
        ((sim.ring.perform sim.state i a).begun sim.ring.seats (k + a.passes)) j := by
  obtain ⟨hbegun, hseat⟩ := Ring.begun_perform ht.paced.turn ht.paced.sound hi hready
  rw [Simulation.meals_advance ht.tallied hi, ht.meals j hj, hbegun]
  by_cases ha : a = .eat
  · rw [if_pos ha, turnsOf_succ hj, ← hseat ha]
    simp [ha]
  · simp [ha]

lemma Timed.waiting_advance (hj : j < sim.ring.seats) (since : ℕ)
    (hsince : ((sim.advance i a (sim.ring.perform sim.state i a)).tally j).waitingSince
      = some since) :
    7 * (sim.ring.seats * (sim.advance i a (sim.ring.perform sim.state i a)).meals j + j + 1) + 1
      ≤ since + 8 * sim.ring.seats := by
  rw [Simulation.meals_advance ht.tallied hi]
  by_cases hji : j = i
  · subst hji
    rw [tally_advance_self ht.tallied hi] at hsince
    cases a with
    | startWaiting =>
      obtain rfl : sim.steps + 1 = since := by simpa [Tally.after] using hsince
      simpa using ht.start_waiting hi hready
    | eat => simp [Tally.after, Tally.eatAt] at hsince
    | take | finish | give => simpa using ht.waiting j hi since hsince
  · rw [tally_advance_ne hji] at hsince
    rw [if_neg (fun heat => hji heat.2.symm)]
    exact ht.waiting j hj since hsince

lemma Timed.longestWait_advance (hj : j < sim.ring.seats) :
    ((sim.advance i a (sim.ring.perform sim.state i a)).tally j).longestWait
      ≤ 8 * sim.ring.seats - 4 := by
  have hlongest := ht.longest j hj
  by_cases hji : j = i
  · subst hji
    rw [tally_advance_self ht.tallied hi]
    cases a with
    | eat =>
      cases hsince : (sim.tally j).waitingSince with
      | none => simpa [Tally.after, Tally.eatAt, hsince] using hlongest
      | some since =>
        have hwait := ht.wait_le hi hready hsince
        simp only [Tally.after, Tally.eatAt, hsince]
        exact Nat.max_le.mpr ⟨hlongest, hwait⟩
    | startWaiting | take | finish | give => exact hlongest
  · rw [tally_advance_ne hji]
    exact hlongest

/-- **Every step of a simulation that is timed leads to one that is.** -/
theorem Timed.advance :
    (sim.advance i a (sim.ring.perform sim.state i a)).Timed (k + a.passes) where
  tallied := ht.tallied.advance
  paced := Ring.paced_perform ht.paced hi hready
  meals := fun _ hj => ht.meals_advance hi hready hj
  waiting := fun _ hj => ht.waiting_advance hi hready hj
  longest := fun _ hj => ht.longestWait_advance hi hready hj

end

/-- Under `reversedLast` a simulation that begins is timed. -/
theorem timed_begin (hn : 2 ≤ n) (sink : Sink) :
    (Simulation.begin ⟨n, .reversedLast⟩ sink).Timed 0 where
  tallied := tallied_begin _ sink
  paced := Ring.paced_initial hn
  meals := by
    intro i hi
    show _ = turnsOf n ((Ring.initial ⟨n, .reversedLast⟩).begun n 0) i
    rw [meals_begin, Ring.begun_initial (show 0 < n by omega)]
    exact (turnsOf_zero hi).symm
  waiting := by
    intro i _ since hsince
    rw [tally_begin] at hsince
    simp [Tally.zero] at hsince
  longest := by
    intro i _
    rw [tally_begin]
    exact Nat.zero_le _

/-- **Over every course of a simulation that is timed it stays so.** -/
theorem Course.timed (hc : Course sim h t) (hsim : sim.Timed k) : ∃ m, t.Timed m := by
  induction hc with
  | start => exact ⟨k, hsim⟩
  | move _ hi hready ih =>
    obtain ⟨m, ht⟩ := ih
    exact ⟨_, ht.advance hi hready⟩

/-! ### Reports -/

/-- All meals together are those that have begun. -/
lemma Timed.sum_meals (hn : 0 < sim.ring.seats) (ht : sim.Timed k) :
    ∑ i ∈ range sim.ring.seats, sim.meals i = sim.state.begun sim.ring.seats k := by
  rw [Finset.sum_congr rfl fun i hi => ht.meals i (Finset.mem_range.mp hi), sum_turnsOf hn]

/-- After enough steps everybody has eaten. -/
lemma Timed.everyoneAte (ht : sim.Timed k) (hsteps : 7 * sim.ring.seats - 4 ≤ sim.steps)
    (name : String) (o : Outcome) : (sim.report name o).everyoneAte = true := by
  have hall : sim.ring.seats ≤ sim.state.begun sim.ring.seats k := by
    by_contra hlt
    have hmoves := ht.paced.moves_le_of_lt (by omega)
    omega
  rw [Report.everyoneAte, meals_report ht.tallied, List.all_eq_true]
  intro m hm
  obtain ⟨i, hi, rfl⟩ := List.mem_map.mp hm
  have hi : i < sim.ring.seats := List.mem_range.mp hi
  rw [decide_eq_true_iff, ht.meals i hi]
  exact turnsOf_pos hi hall

lemma Timed.longestWait_le (ht : sim.Timed k) {name : String} {o : Outcome} {w : ℕ}
    (hw : w ∈ (sim.report name o).longestWait) : w ≤ 8 * sim.ring.seats - 4 := by
  rw [longestWait_report ht.tallied] at hw
  obtain ⟨i, hi, rfl⟩ := List.mem_map.mp hw
  exact ht.longest i (List.mem_range.mp hi)

/-- Every schedule under `reversedLast` leads to a simulation that is timed. -/
lemma exists_timed_play (hn : 2 ≤ n) (sink : Sink) (schedule : List ℕ) :
    ∃ k, ((Simulation.begin ⟨n, .reversedLast⟩ sink).play schedule).Timed k :=
  (course_begin hn .reversedLast sink schedule).timed (timed_begin hn sink)

/-- The bounds on a report that is asked for after some schedule. -/
lemma report_bounds (hn : 2 ≤ n) (sink : Sink) (schedule : List ℕ) (name : String)
    (o : Outcome) :
    let report := ((Simulation.begin ⟨n, .reversedLast⟩ sink).play schedule).report name o
    (7 * n - 4 ≤ report.steps → report.everyoneAte = true) ∧
      ∀ w ∈ report.longestWait, w ≤ 8 * n - 4 := by
  intro report
  obtain ⟨k, ht⟩ := exists_timed_play hn sink schedule
  have hring := ring_play hn .reversedLast sink schedule
  refine ⟨fun hsteps => ht.everyoneAte (by rw [hring]; exact hsteps) name o, fun w hw => ?_⟩
  have hle := ht.longestWait_le hw
  rwa [hring] at hle

/-- **Throughput and bounded waiting.**  Whatever schedule drives a simulation under
`reversedLast`, its steps are at most seven for each meal and one for each seat, and its
meals take seven steps each but for `n + 3` of all; after `7 * n - 4` steps everybody has
eaten; and nobody ever waits for more than `8 * n - 4` steps, neither by a report that is
asked for at that moment nor by that of a run that goes on from there. -/
theorem meals_and_waits_bounded (hn : 2 ≤ n) (sink : Sink) :
    Simulation.create n .reversedLast sink = .ok (Simulation.begin ⟨n, .reversedLast⟩ sink) ∧
    ∀ schedule : List ℕ,
      let start := Simulation.begin ⟨n, .reversedLast⟩ sink
      let sim := start.play schedule
      let M := ∑ i ∈ range n, sim.meals i
      sim.steps = (start.history schedule).length ∧
      sim.steps ≤ 7 * M + n ∧
      7 * M ≤ sim.steps + n + 3 ∧
      (∀ name outcome,
        let report := sim.report name outcome
        report.meals.length = n ∧ report.longestWait.length = n ∧
        (7 * n - 4 ≤ report.steps → report.everyoneAte = true) ∧
        ∀ w ∈ report.longestWait, w ≤ 8 * n - 4) ∧
      ∀ (scheduler : Scheduler) (budget : ℕ) (report : Report),
        (sim.run scheduler budget).report = .ok report →
        (7 * n - 4 ≤ report.steps → report.everyoneAte = true) ∧
        ∀ w ∈ report.longestWait, w ≤ 8 * n - 4 := by
  refine ⟨create_eq_ok hn _ sink, fun schedule => ?_⟩
  intro start sim M
  have hsteps : sim.steps = (start.history schedule).length :=
    (course_begin hn .reversedLast sink schedule).steps_eq.trans (Nat.zero_add _)
  obtain ⟨k, ht⟩ := exists_timed_play hn sink schedule
  have hring : sim.ring = ⟨n, .reversedLast⟩ := ring_play hn .reversedLast sink schedule
  have hM : M = sim.state.begun n k := by
    have h := ht.sum_meals (by rw [hring]; show 0 < n; omega)
    rwa [hring] at h
  have hpaced : sim.state.Paced n sim.steps k := by
    have h := ht.paced
    rwa [hring] at h
  have hpos : 0 < n := by omega
  refine ⟨hsteps, ?_, ?_, fun name o => ⟨?_, ?_, ?_⟩,
    fun scheduler budget report hrun => ?_⟩
  · rw [hM]
    exact hpaced.moves_le hpos
  · rw [hM]
    exact hpaced.meals_le hpos
  · rw [meals_report ht.tallied, List.length_map, List.length_range, hring]
  · rw [longestWait_report ht.tallied, List.length_map, List.length_range, hring]
  · exact report_bounds hn sink schedule name o
  · -- a run goes on through the states of a schedule
    obtain ⟨rest, name, o, rfl⟩ := exists_play_of_run hrun
    have h := report_bounds hn sink (schedule ++ rest) name o
    rwa [play_append] at h

/-- A table of two after its first ten steps, a blocked seat having been asked in between,
and the report of a round robin that goes on from there. -/
theorem meals_and_waits_bounded_at_two :
    2 ≤ 2 ∧
    let sim := (Simulation.begin ⟨2, .reversedLast⟩ .null).play
      [0, 1, 0, 1, 0, 0, 0, 1, 1, 1, 1]
    let report : Report := ⟨2, .reversedLast, "round-robin", 13, .completed, [1, 1], [2, 7],
      [some 3, some 9]⟩
    7 * 2 - 4 ≤ sim.steps ∧ (sim.report "by hand" .completed).everyoneAte = true ∧
      (sim.run (.roundRobin 0) 3).report = .ok report ∧
      report.everyoneAte = true ∧ ∀ w ∈ report.longestWait, w ≤ 8 * 2 - 4 := by
  obtain ⟨-, hbounds⟩ := meals_and_waits_bounded (n := 2) (by decide) .null
  obtain ⟨-, -, -, hreport, hrun⟩ := hbounds [0, 1, 0, 1, 0, 0, 0, 1, 1, 1, 1]
  refine ⟨by decide, by decide, (hreport "by hand" .completed).2.2.1 (by decide), ?_⟩
  have hok : (((Simulation.begin ⟨2, .reversedLast⟩ .null).play
      [0, 1, 0, 1, 0, 0, 0, 1, 1, 1, 1]).run (.roundRobin 0) 3).report
      = .ok ⟨2, .reversedLast, "round-robin", 13, .completed, [1, 1], [2, 7],
        [some 3, some 9]⟩ := by decide +kernel
  obtain ⟨hate, hwaits⟩ := hrun (.roundRobin 0) 3 _ hok
  exact ⟨hok, hate (by decide), hwaits⟩

end Simulation

end DiningRing
