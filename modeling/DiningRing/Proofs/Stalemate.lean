/-
# The stalemate of the uniform plan

Under `uniform` every diner reaches for its left fork first and finds it on its way, while
nobody ever gets a right one.  So each seat has exactly two actions before it, to start to
wait and to take its left fork, and it can always make the next of them: a seat can move as
long as it has an action ahead (`RingState.Starved.exists_ready_iff`).  Whatever the schedule,
the table comes to rest after two actions of every seat, and always in the same state, in
which everybody waits with the left fork in hand (`RingState.stalemate`).
-/
import DiningRing.Proofs.Deadlock
import DiningRing.Proofs.Safety
import DiningRing.Proofs.Tally

open Finset (range)

namespace DiningRing

namespace RingState

variable {n i e : ℕ} {s : RingState} {p : Plan}

/-- Everybody waits with the left fork in hand, and nothing is in flight. -/
def stalemate (n : ℕ) : RingState :=
  ⟨Array.replicate n ⟨.waiting, ⟨true, false⟩⟩, Array.replicate n false, Array.replicate n false⟩

lemma fits_stalemate (n : ℕ) : (stalemate n).Fits n :=
  ⟨Array.size_replicate, Array.size_replicate, Array.size_replicate⟩

lemma diner_stalemate (hi : i < n) : (stalemate n).diner i = ⟨.waiting, ⟨true, false⟩⟩ := by
  simp [stalemate, diner, Array.getD_eq_getD_getElem?, hi]

lemma slot_stalemate (n : ℕ) (slot : Slot) : (stalemate n).slot slot = false := by
  cases slot <;> simp [stalemate, RingState.slot, Array.getD_eq_getD_getElem?,
    Array.getElem?_replicate] <;> split_ifs <;> rfl

/-! ### What is ahead -/

/-- Where nobody owns a right fork, a left fork that is not in hand is on its way. -/
lemma Starved.inbound_left (hs : s.Starved n) (hsound : s.Sound n) (hi : i < n)
    (hleft : s.hand i .left = false) : s.slot (Slot.inbound n i .left) = true := by
  have hone := hsound.one_place hi .left
  have hprev := hs.right _ (Seat.previous_lt hi)
  rw [owns, Bool.or_eq_false_iff] at hprev
  obtain ⟨hhand, hslot⟩ := hprev
  have hout : Slot.outbound n i .left = Slot.inbound n (Seat.previous n i) .right := rfl
  rw [hleft, hout, hslot] at hone
  simp only [Seat.neighbor, Side.opposite, hhand, Bool.toNat_false] at hone
  rw [← Bool.toNat_eq_one]
  omega

/-- **A seat of the uniform plan can move exactly as long as it has an action ahead.** -/
theorem Starved.exists_ready_iff (hs : s.Starved n) (hsound : s.Sound n) (hi : i < n) :
    (∃ a, (⟨n, .uniform⟩ : Ring).Ready s i a) ↔ 0 < (s.diner i).ahead := by
  constructor
  · rintro ⟨a, ha⟩
    have hstep := (Ring.starved_perform (r := ⟨n, .uniform⟩) hs hi ha).2
    omega
  · intro hahead
    rcases hs.phase i hi with ⟨hp, -⟩ | hp
    · exact ⟨_, .startWaiting hp⟩
    · have hleft : s.hand i .left = false := by
        rw [Bool.eq_false_iff]
        intro h
        have hholds : (s.diner i).hands.left = true := h
        simp [Diner.ahead, hp, hholds] at hahead
      have hmissing : Ring.missing? .leftThenRight (s.diner i).hands = some .left := by
        have hholds : (s.diner i).hands.holds .left = false := hleft
        simp [Ring.missing?, Order.sides, Order.first, hholds]
      exact ⟨_, .take .left hp hmissing (hs.inbound_left hsound hi hleft)⟩

/-- No seat can move exactly when nothing is ahead of anybody. -/
lemma Starved.enabled_eq_nil_iff (hs : s.Starved n) (hsound : s.Sound n) :
    Ring.enabled ⟨n, .uniform⟩ s = [] ↔ ∑ i ∈ range n, (s.diner i).ahead = 0 := by
  rw [Finset.sum_eq_zero_iff, List.eq_nil_iff_forall_not_mem]
  constructor
  · intro h i hi
    have hi : i < n := Finset.mem_range.mp hi
    by_contra hne
    have hready := (hs.exists_ready_iff hsound hi).mpr (Nat.pos_of_ne_zero hne)
    exact h i (Ring.mem_enabled_iff.mpr ⟨hi, hready⟩)
  · intro h i hmem
    obtain ⟨hi, hready⟩ := Ring.mem_enabled_iff.mp hmem
    have hpos := (hs.exists_ready_iff hsound hi).mp hready
    have hzero := h i (Finset.mem_range.mpr hi)
    omega

/-- **When nothing is ahead of anybody there is a stalemate.** -/
theorem Starved.eq_stalemate (hs : s.Starved n) (hsound : s.Sound n)
    (hzero : ∑ i ∈ range n, (s.diner i).ahead = 0) : s = stalemate n := by
  have hdiner : ∀ i < n, s.diner i = ⟨.waiting, ⟨true, false⟩⟩ := by
    intro i hi
    have hahead := Finset.sum_eq_zero_iff.mp hzero i (Finset.mem_range.mpr hi)
    have hright := hs.right i hi
    rw [owns, Bool.or_eq_false_iff] at hright
    have hright : (s.diner i).hands.right = false := hright.1
    rcases hs.phase i hi with ⟨hp, -⟩ | hp
    · simp [Diner.ahead, hp] at hahead
    · have hleft : (s.diner i).hands.left = true := by
        simpa [Diner.ahead, hp] using hahead
      show (⟨(s.diner i).phase, ⟨(s.diner i).hands.left, (s.diner i).hands.right⟩⟩ : Diner) = _
      rw [hp, hleft, hright]
  refine hs.fits.ext (fits_stalemate n) (fun i hi => ?_) (fun e he => ?_) fun e he => ?_
  · rw [hdiner i hi, diner_stalemate hi]
  · -- the fork of edge `e` is in the left hand of the next seat
    have hhand : s.hand (Seat.next n e) .left = true := by
      rw [hand, hdiner _ (Seat.next_lt he)]
      rfl
    have hslot := hsound.inbound_of_hand (Seat.next_lt he) hhand
    rw [Slot.inbound, Seat.previous_next he] at hslot
    rw [hslot, slot_stalemate]
  · have hright := hs.right e he
    rw [owns, Bool.or_eq_false_iff] at hright
    rw [slot_stalemate]
    exact hright.2

end RingState

/-! ### Tallies without a meal -/

/-- A tally in which no meal shows. -/
structure Tally.Fasting (t : Tally) : Prop where
  meals : t.meals = 0
  longestWait : t.longestWait = 0
  firstMeal : t.firstMeal = none

lemma Tally.fasting_zero : Tally.zero.Fasting := ⟨rfl, rfl, rfl⟩

lemma Tally.Fasting.after {t : Tally} {a : Action} (ht : t.Fasting) (ha : a ≠ .eat)
    (step : ℕ) : (t.after a step).Fasting := by
  cases a with
  | eat => exact absurd rfl ha
  | startWaiting | take | finish | give => exact ⟨ht.meals, ht.longestWait, ht.firstMeal⟩

namespace Simulation

variable {n i : ℕ} {sim t : Simulation} {h : List Move}

/-- Over a course without a meal no meal shows in any tally. -/
lemma Course.fasting (hc : Course sim h t) (hsim : sim.Tallied)
    (hzero : ∀ j < sim.ring.seats, (sim.tally j).Fasting) (hno : ∀ m ∈ h, m.action ≠ .eat) :
    ∀ j < t.ring.seats, (t.tally j).Fasting := by
  induction hc with
  | start => exact hzero
  | @move h t i a before hi _ ih =>
    have hbefore := ih fun m hm => hno m (List.mem_append_left _ hm)
    have ha : a ≠ .eat := hno ⟨i, a⟩ (List.mem_append_right _ (List.mem_singleton_self _))
    intro j hj
    by_cases hji : j = i
    · subst hji
      rw [tally_advance_self (before.tallied hsim) hi]
      exact (hbefore j hi).after ha _
    · rw [tally_advance_ne hji]
      exact hbefore j hj

lemma map_range_eq_replicate {α : Type*} {f : ℕ → α} {x : α} (hf : ∀ i < n, f i = x) :
    (List.range n).map f = List.replicate n x := by
  rw [List.eq_replicate_iff, List.length_map, List.length_range]
  refine ⟨rfl, fun y hy => ?_⟩
  obtain ⟨i, hi, rfl⟩ := List.mem_map.mp hy
  exact hf i (List.mem_range.mp hi)

/-! ### Simulations of the uniform plan -/

/-- What holds after every schedule of a simulation under `uniform`. -/
lemma starved_play (hn : 2 ≤ n) (sink : Sink) (schedule : List ℕ) :
    let start := Simulation.begin ⟨n, .uniform⟩ sink
    let sim := start.play schedule
    sim.state.Starved n ∧ (∀ m ∈ start.history schedule, m.action ≠ .eat) ∧
      sim.steps + ∑ i ∈ range n, (sim.state.diner i).ahead = 2 * n := by
  intro start sim
  have hc := course_begin hn .uniform sink schedule
  obtain ⟨hstarved, hno, hsum⟩ := hc.ringCourse.starved (Ring.starved_initial n)
  refine ⟨hstarved, hno, ?_⟩
  have hsteps : sim.steps = (start.history schedule).length := hc.steps_eq.trans (Nat.zero_add _)
  have hahead : ∑ i ∈ range n, (start.state.diner i).ahead = 2 * n := Ring.sum_ahead_initial n
  rw [hsteps]
  exact hsum.trans hahead

/-- The numbers of a report that is asked for after some schedule under `uniform`. -/
lemma uniform_report (hn : 2 ≤ n) (sink : Sink) (schedule : List ℕ) (name : String)
    (o : Outcome) :
    let report := ((Simulation.begin ⟨n, .uniform⟩ sink).play schedule).report name o
    report.steps ≤ 2 * n ∧ report.meals = List.replicate n 0 ∧
      report.longestWait = List.replicate n 0 ∧ report.firstMeal = List.replicate n none := by
  intro report
  have hc := course_begin hn .uniform sink schedule
  obtain ⟨-, hno, hsum⟩ := starved_play hn sink schedule
  have hring := ring_play hn .uniform sink schedule
  have hbegin := tallied_begin ⟨n, .uniform⟩ sink
  have htallied := hc.tallied hbegin
  have hfasting := hc.fasting hbegin (fun j _ => by rw [tally_begin]; exact Tally.fasting_zero) hno
  rw [hring] at hfasting
  have hsteps : report.steps ≤ 2 * n := hsum ▸ Nat.le_add_right _ _
  refine ⟨hsteps, ?_, ?_, ?_⟩
  · rw [meals_report htallied, hring]
    exact map_range_eq_replicate fun i hi => (hfasting i hi).meals
  · rw [longestWait_report htallied, hring]
    exact map_range_eq_replicate fun i hi => (hfasting i hi).longestWait
  · rw [firstMeal_report htallied, hring]
    exact map_range_eq_replicate fun i hi => (hfasting i hi).firstMeal

/-- **The uniform plan deadlocks under every schedule.**  Nobody ever eats; after `t` steps
`t` is at most `2 * n`, and no seat can move exactly when it is `2 * n`; the state is then
the same for every schedule, the stalemate; and reports show no meal and no wait, neither
those asked for at any moment nor those of runs that go on from there. -/
theorem uniform_deadlocks_under_every_schedule (hn : 2 ≤ n) (sink : Sink) :
    Simulation.create n .uniform sink = .ok (Simulation.begin ⟨n, .uniform⟩ sink) ∧
    ∀ schedule : List ℕ,
      let start := Simulation.begin ⟨n, .uniform⟩ sink
      let sim := start.play schedule
      sim.steps = (start.history schedule).length ∧
      (∀ m ∈ start.history schedule, m.action ≠ .eat) ∧
      sim.steps ≤ 2 * n ∧
      (sim.isDeadlocked = true ↔ sim.steps = 2 * n) ∧
      (sim.steps = 2 * n → sim.state = RingState.stalemate n) ∧
      (∀ name outcome,
        let report := sim.report name outcome
        report.steps = sim.steps ∧ report.meals = List.replicate n 0 ∧
        report.longestWait = List.replicate n 0 ∧ report.firstMeal = List.replicate n none) ∧
      ∀ (scheduler : Scheduler) (budget : ℕ) (report : Report),
        (sim.run scheduler budget).report = .ok report →
        report.steps ≤ 2 * n ∧ report.meals = List.replicate n 0 ∧
        report.longestWait = List.replicate n 0 ∧ report.firstMeal = List.replicate n none := by
  refine ⟨create_eq_ok hn _ sink, fun schedule => ?_⟩
  intro start sim
  have hc := course_begin hn .uniform sink schedule
  have hsound : sim.state.Sound n := sound_play hn .uniform sink schedule
  have hring : sim.ring = ⟨n, .uniform⟩ := ring_play hn .uniform sink schedule
  obtain ⟨hstarved, hno, hsum⟩ := starved_play hn sink schedule
  have hstill : ∑ i ∈ range n, (sim.state.diner i).ahead = 0 ↔ sim.steps = 2 * n := by
    have hsum : sim.steps + ∑ i ∈ range n, (sim.state.diner i).ahead = 2 * n := hsum
    omega
  refine ⟨hc.steps_eq.trans (Nat.zero_add _), hno, hsum ▸ Nat.le_add_right _ _, ?_, ?_,
    fun name o => ⟨rfl, (uniform_report hn sink schedule name o).2⟩,
    fun scheduler budget report hrun => ?_⟩
  · rw [isDeadlocked, enabled, hring, List.isEmpty_iff, hstarved.enabled_eq_nil_iff hsound]
    exact hstill
  · exact fun hsteps => hstarved.eq_stalemate hsound (hstill.mpr hsteps)
  · -- a run goes on through the states of a schedule
    obtain ⟨rest, name, o, rfl⟩ := exists_play_of_run hrun
    have h := uniform_report hn sink (schedule ++ rest) name o
    rwa [play_append] at h

/-- At a table of three, after a schedule that also asks seats that are stuck, and the report
of a run that finds the table at rest. -/
theorem uniform_deadlocks_at_three :
    2 ≤ 3 ∧
    let sim := (Simulation.begin ⟨3, .uniform⟩ .null).play [2, 2, 2, 0, 1, 1, 0, 0]
    let report : Report := ⟨3, .uniform, "lockstep", 6, .deadlocked 6, [0, 0, 0], [0, 0, 0],
      [none, none, none]⟩
    sim.steps = 2 * 3 ∧ sim.isDeadlocked = true ∧ sim.state = RingState.stalemate 3 ∧
      (sim.run .lockstep 9).report = .ok report ∧ report.meals = List.replicate 3 0 := by
  obtain ⟨-, hdeadlock⟩ := uniform_deadlocks_under_every_schedule (n := 3) (by decide) .null
  obtain ⟨-, -, -, hiff, hstate, -, hrun⟩ := hdeadlock [2, 2, 2, 0, 1, 1, 0, 0]
  have hsteps : ((Simulation.begin ⟨3, .uniform⟩ .null).play [2, 2, 2, 0, 1, 1, 0, 0]).steps
      = 2 * 3 := by decide
  have hok : (((Simulation.begin ⟨3, .uniform⟩ .null).play [2, 2, 2, 0, 1, 1, 0, 0]).run
      .lockstep 9).report = .ok ⟨3, .uniform, "lockstep", 6, .deadlocked 6, [0, 0, 0],
        [0, 0, 0], [none, none, none]⟩ := by decide +kernel
  exact ⟨by decide, hsteps, hiff.mpr hsteps, hstate hsteps, hok, (hrun .lockstep 9 _ hok).2.1⟩

end Simulation

end DiningRing
