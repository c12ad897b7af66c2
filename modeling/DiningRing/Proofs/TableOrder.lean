/-
# Meals go round the table

Under `reversedLast` the order of meals does not depend on the schedule: the meal that is
the `k`-th of the whole table, counted from zero, is that of seat `k % n`.  So the number of
all meals tells the number of meals of each seat, and no two seats are ever more than one
meal apart.
-/
import DiningRing.Proofs.Tally
import DiningRing.Proofs.Turn

open Finset (range)

namespace DiningRing

/-! ### Counting around the table -/

/-- The turns of a seat among the first `m` turns at a table of `n`. -/
def turnsOf (n m i : ℕ) : ℕ := (m + n - 1 - i) / n

lemma turnsOf_zero {n i : ℕ} (hi : i < n) : turnsOf n 0 i = 0 :=
  Nat.div_eq_of_lt (by omega)

/-- Turn `m` is that of seat `m % n`. -/
lemma turnsOf_succ {n i : ℕ} (hi : i < n) (m : ℕ) :
    turnsOf n (m + 1) i = turnsOf n m i + if m % n = i then 1 else 0 := by
  have hsum : m + 1 + n - 1 - i = (m + n - 1 - i) + 1 := by omega
  have hdvd : n ∣ m + n - 1 - i + 1 ↔ m % n = i := by
    have hm := Nat.div_add_mod m n
    have hlt := Nat.mod_lt m (show 0 < n by omega)
    rcases Nat.lt_or_ge (m % n) i with h | h
    · have heq : m + n - 1 - i + 1 = n * (m / n) + (n + m % n - i) := by omega
      rw [heq, Nat.dvd_add_right (Nat.dvd_mul_right _ _)]
      refine ⟨fun hd => ?_, fun hd => by omega⟩
      have := Nat.le_of_dvd (by omega) hd
      omega
    · have heq : m + n - 1 - i + 1 = n * (m / n) + n + (m % n - i) := by omega
      rw [heq, Nat.dvd_add_right (Nat.dvd_add (Nat.dvd_mul_right _ _) (Nat.dvd_refl n))]
      constructor
      · intro hd
        have := Nat.eq_zero_of_dvd_of_lt hd (by omega)
        omega
      · intro hd
        rw [hd, Nat.sub_self]
        exact Nat.dvd_zero n
  rw [turnsOf, turnsOf, hsum, Nat.succ_div]
  simp only [hdvd]

/-- Two seats at a table are at most one turn apart. -/
lemma turnsOf_le_succ {n i j : ℕ} (hj : j < n) (m : ℕ) : turnsOf n m i ≤ turnsOf n m j + 1 := by
  have h : (m + n - 1 - i) / n ≤ (m + n - 1 - j + n) / n := Nat.div_le_div_right (by omega)
  rwa [Nat.add_div_right _ (by omega)] at h

/-- The turn after those that a seat has had is less than a round away. -/
lemma mul_turnsOf_le {n i : ℕ} (hi : i < n) (m : ℕ) : n * turnsOf n m i + i + 1 ≤ m + n := by
  have h : n * ((m + n - 1 - i) / n) ≤ m + n - 1 - i := Nat.mul_div_le _ _
  rw [turnsOf]
  omega

/-- The turns of a seat before one of its own. -/
lemma mul_turnsOf_mod {n : ℕ} (hn : 0 < n) (m : ℕ) :
    n * turnsOf n m (m % n) + m % n = m := by
  have hm := Nat.div_add_mod m n
  have hlt := Nat.mod_lt m hn
  have hsub : m + n - 1 - m % n = (n - 1) + n * (m / n) := by omega
  have hzero : (n - 1) / n = 0 := Nat.div_eq_of_lt (by omega)
  rw [turnsOf, hsub, Nat.add_mul_div_left _ _ hn, hzero, Nat.zero_add]
  exact hm

/-- In the first round every seat has its turn. -/
lemma turnsOf_pos {n m i : ℕ} (hi : i < n) (hm : n ≤ m) : 0 < turnsOf n m i :=
  Nat.div_pos (by omega) (by omega)

lemma count_range_mod {n i : ℕ} (hi : i < n) (m : ℕ) :
    ((List.range m).map (· % n)).count i = turnsOf n m i := by
  induction m with
  | zero => rw [turnsOf_zero hi]; rfl
  | succ m ih =>
    rw [List.range_succ, List.map_append, List.count_append, ih, turnsOf_succ hi]
    simp [List.count_singleton]

lemma sum_turnsOf {n : ℕ} (hn : 0 < n) (m : ℕ) : ∑ i ∈ range n, turnsOf n m i = m := by
  induction m with
  | zero => exact Finset.sum_eq_zero fun i hi => turnsOf_zero (Finset.mem_range.mp hi)
  | succ m ih =>
    rw [Finset.sum_congr rfl fun i hi => turnsOf_succ (Finset.mem_range.mp hi) m,
      Finset.sum_add_distrib, ih, Finset.sum_ite_eq]
    simp [Nat.mod_lt m hn]

/-! ### Meals that have begun -/

/-- The meals that have begun when `k` turns have been passed on: whoever is busy has begun
the meal of its turn. -/
def RingState.begun (n : ℕ) (s : RingState) (k : ℕ) : ℕ :=
  k + (s.diner (k % n)).phase.busy.toNat

namespace Ring

open RingState (Sound)

variable {r : Ring} {s : RingState} {i j k : ℕ} {a : Action} {side other : Side}

/-- Whoever eats, stops eating or hands back does so in its turn. -/
lemma seat_of_ready (ht : s.Turn r.seats k) (hi : i < r.seats) (h : r.Ready s i a)
    (hne : i ≠ k % r.seats) : a = .startWaiting ∨ ∃ side, a = .take side := by
  have hfree : (s.diner i).phase.busy ≠ true := fun hb => hne (ht.busy i hi hb)
  cases h with
  | startWaiting => exact .inl rfl
  | take side => exact .inr ⟨side, rfl⟩
  | eat _ hboth =>
    simp only [Hands.both, Bool.and_eq_true] at hboth
    have howns : s.owns r.seats i .left = true := by
      simp [RingState.owns, RingState.hand, Hands.holds, hboth.1]
    exact absurd ((ht.left i hi).mp howns).1 hne
  | finish hp => exact absurd (by rw [hp]; rfl) hfree
  | give side hp => exact absurd (by rw [hp]; rfl) hfree

/-- **A step begins a meal exactly when it is the action `eat`**, and then it is the turn of
the seat that eats. -/
theorem begun_perform (ht : s.Turn r.seats k) (hs : s.Sound r.seats) (hi : i < r.seats)
    (h : r.Ready s i a) :
    (r.perform s i a).begun r.seats (k + a.passes) = s.begun r.seats k + (if a = .eat then 1 else 0)
      ∧ (a = .eat → i = s.begun r.seats k % r.seats) := by
  by_cases hturn : i = k % r.seats
  · have hself := diner_perform_self (a := a) hs.fits hi
    cases h with
    | startWaiting hp | take _ hp | eat hp | finish hp =>
      simp [RingState.begun, Action.passes, ← hturn, hself, Diner.after, hp, Phase.busy]
    | give side hp hret =>
      cases side with
      | left =>
        have hright : (s.diner i).hands.right = true := hs.releasing i hi hp
        simp [RingState.begun, Action.passes, ← hturn, hself, Diner.after, hp, Phase.busy,
          Hands.set, Hands.neither, hright]
      | right =>
        -- the turn passes on, but the next seat has not begun its meal
        have hfree := not_busy_after_give_right ht hs hi hp hret _
          (Nat.mod_lt (k + 1) (show 0 < r.seats by omega))
        rw [RingState.begun, Action.passes, hfree]
        simp [RingState.begun, ← hturn, hp, Phase.busy]
  · -- out of its turn a seat is not looked at, and cannot pass the turn on
    rcases seat_of_ready ht hi h hturn with rfl | ⟨side, rfl⟩
    · simp [RingState.begun, Action.passes, diner_perform_ne (Ne.symm hturn)]
    · simp [RingState.begun, Action.passes, diner_perform_ne (Ne.symm hturn)]

lemma begun_initial {n : ℕ} (hn : 0 < n) : (initial ⟨n, .reversedLast⟩).begun n 0 = 0 := by
  rw [RingState.begun, diner_initial (r := ⟨n, .reversedLast⟩) (Nat.mod_lt 0 hn)]
  rfl

end Ring

/-- **Over every course, meals go round the table**: from a state in which it is the turn of
the first seat and nobody is busy, the seats that eat are `0, 1, 2, …` modulo `n`. -/
theorem RingState.Course.table_order {n : ℕ} {s t : RingState} {h : List Move}
    (hc : s.Course n h t) (hs : s.Sound n) (hturn : s.Turn n 0) (hzero : s.begun n 0 = 0) :
    ∃ k, t.Turn n k ∧ eaters h = (List.range (t.begun n k)).map (· % n) := by
  -- on the course, with the number of turns passed on found anew at each move
  induction hc with
  | start => exact ⟨0, hturn, by rw [hzero]; rfl⟩
  | @move h t i a p before hi hready ih =>
    obtain ⟨k, ht, heaters⟩ := ih
    have hsound := before.sound hs
    obtain ⟨hbegun, hseat⟩ := Ring.begun_perform (r := ⟨n, p⟩) ht hsound hi hready
    refine ⟨k + a.passes, Ring.turn_perform (r := ⟨n, p⟩) ht hsound hi hready, ?_⟩
    rw [eaters_append, heaters, hbegun]
    by_cases ha : a = .eat
    · rw [if_pos ha, List.range_succ, List.map_append, ha, eaters_eat, hseat ha]
      rfl
    · rw [if_neg ha, eaters_of_ne_eat i ha, List.append_nil, Nat.add_zero]

/-! ### Rings under `reversedLast` -/

namespace RingState

variable {n : ℕ} {t : RingState} {h : List Move}

/-- The first course of a ring under `reversedLast`: whose turn it is at the end, and who has
eaten until then. -/
lemma Course.table_order_initial (hn : 2 ≤ n)
    (hc : Course n (Ring.initial ⟨n, .reversedLast⟩) h t) :
    ∃ k, t.Turn n k ∧ eaters h = (List.range (t.begun n k)).map (· % n) := by
  exact hc.table_order (Ring.sound_initial (r := ⟨n, .reversedLast⟩) hn) (Ring.turn_initial n)
    (Ring.begun_initial (show 0 < n by omega))

/-- The same said without the turn. -/
lemma Course.eaters_eq (hn : 2 ≤ n) (hc : Course n (Ring.initial ⟨n, .reversedLast⟩) h t) :
    eaters h = (List.range (eaters h).length).map (· % n) ∧
      (∀ i < n, ∀ j < n, (t.diner i).phase.busy = true → (t.diner j).phase.busy = true → i = j) ∧
      ∀ i < n, (eaters h).count i = turnsOf n (eaters h).length i := by
  obtain ⟨k, ht, heaters⟩ := hc.table_order_initial hn
  have hlength : (eaters h).length = t.begun n k := by rw [heaters]; simp
  refine ⟨by rw [hlength, heaters], fun i hi j hj => ht.busy_unique hi hj, fun i hi => ?_⟩
  rw [hlength, heaters, count_range_mod hi]

end RingState

namespace Simulation

variable {n : ℕ} {t : Simulation} {h : List Move}

lemma Course.meals_eq_count {r : Ring} {sink : Sink}
    (hc : Course (Simulation.begin r sink) h t) (i : ℕ) : t.meals i = (eaters h).count i := by
  rw [hc.meals_eq (tallied_begin r sink) i, meals_begin, Nat.zero_add]

/-- All meals of a simulation together are the meals of its course. -/
lemma Course.sum_meals (hn : 2 ≤ n) {sink : Sink}
    (hc : Course (Simulation.begin ⟨n, .reversedLast⟩ sink) h t) :
    ∑ i ∈ range n, t.meals i = (eaters h).length := by
  obtain ⟨-, -, hcount⟩ := hc.ringCourse.eaters_eq hn
  rw [Finset.sum_congr rfl fun i hi => by
    rw [hc.meals_eq_count, hcount i (Finset.mem_range.mp hi)], sum_turnsOf (by omega)]

end Simulation

/-- **Meals go round the table.**  Whatever schedule drives a simulation under `reversedLast`,
its `k`-th meal, counted from zero, is that of seat `k % n`; at most one seat of the whole
table eats or hands back; when `M` meals have begun, seat `i` has begun `(M + n - 1 - i) / n`
of them; and no two seats are more than one meal apart.  The same holds of calls on the bare
state, even if the ring of the other plan, with its other order at the last seat, makes some
of them. -/
theorem meals_go_round_the_table {n : ℕ} (hn : 2 ≤ n) (sink : Sink) :
    (Simulation.create n .reversedLast sink
        = .ok (Simulation.begin ⟨n, .reversedLast⟩ sink) ∧
      ∀ schedule : List ℕ,
        let start := Simulation.begin ⟨n, .reversedLast⟩ sink
        let sim := start.play schedule
        let M := ∑ i ∈ range n, sim.meals i
        eaters (start.history schedule) = (List.range M).map (· % n) ∧
        (∀ i < n, ∀ j < n, (sim.state.diner i).phase.busy = true →
          (sim.state.diner j).phase.busy = true → i = j) ∧
        (∀ i < n, sim.meals i = (M + n - 1 - i) / n) ∧
        ∀ i < n, ∀ j < n, sim.meals i ≤ sim.meals j + 1) ∧
    (Ring.lay n .reversedLast = .ok ⟨n, .reversedLast⟩ ∧
      ∀ calls : List Ring.Call, (∀ c ∈ calls, c.seat < n) →
        let start := Ring.initial ⟨n, .reversedLast⟩
        let s := start.after n calls
        let order := eaters (start.moves n calls)
        order = (List.range order.length).map (· % n) ∧
        (∀ i < n, ∀ j < n, (s.diner i).phase.busy = true → (s.diner j).phase.busy = true →
          i = j) ∧
        ∀ i < n, order.count i = (order.length + n - 1 - i) / n) := by
  refine ⟨⟨Simulation.create_eq_ok hn _ sink, fun schedule => ?_⟩,
    Ring.lay_eq_ok hn _, fun calls hseats => ?_⟩
  · intro start sim M
    have hc := Simulation.course_begin hn .reversedLast sink schedule
    obtain ⟨horder, hbusy, hcount⟩ := hc.ringCourse.eaters_eq hn
    have hM : M = (eaters (start.history schedule)).length := hc.sum_meals hn
    have hmeals : ∀ i < n, sim.meals i = turnsOf n M i := by
      intro i hi
      rw [hc.meals_eq_count, hcount i hi, hM]
    refine ⟨by rw [hM]; exact horder, hbusy, hmeals, fun i hi j hj => ?_⟩
    rw [hmeals i hi, hmeals j hj]
    exact turnsOf_le_succ hj M
  · exact (RingState.course_after (Ring.sound_initial (r := ⟨n, .reversedLast⟩) hn)
      hseats).eaters_eq hn

/-- At a table of three, after a round in which seats are also asked out of turn. -/
theorem meals_go_round_at_three :
    2 ≤ 3 ∧
    let start := Simulation.begin ⟨3, .reversedLast⟩ .null
    let schedule := [0, 2, 2, 0, 0, 0, 0, 1, 1, 1, 1, 1, 1, 2, 2, 2]
    eaters (start.history schedule) = [0, 1, 2] ∧
      (start.play schedule).meals 2 = (3 + 3 - 1 - 2) / 3 := by
  have h := (meals_go_round_the_table (n := 3) (by decide) .null).1.2
    [0, 2, 2, 0, 0, 0, 0, 1, 1, 1, 1, 1, 1, 2, 2, 2]
  have hM : ∑ i ∈ range 3, ((Simulation.begin ⟨3, .reversedLast⟩ .null).play
      [0, 2, 2, 0, 0, 0, 0, 1, 1, 1, 1, 1, 1, 2, 2, 2]).meals i = 3 := by decide
  simp only [hM] at h
  exact ⟨by decide, h.1, h.2.2.1 2 (by decide)⟩

end DiningRing
