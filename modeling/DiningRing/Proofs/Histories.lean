/-
# What a report tells of a history

A simulation does not keep its history.  What it reports of it has been counted move by move:
actions and meals, the step at which a seat first ate, and the longest of its waits, for which it
only remembers since when a seat has been waiting.  This file says what these numbers are for a
list of moves (`waits` are the waits of a seat) and that the tallies tell exactly that of the
accepted moves, whatever other calls were refused in between (`Simulation.Course.recounts`).

The numbers of one seat do not depend on the moves of the others (`Tally.Tells.other`).  Of its own
moves only a meal needs more than the tally itself: a seat that starts to eat has waited, so that
there is a step to count from.
-/
import DiningRing.Proofs.Announcements
import DiningRing.Proofs.Recorders
import DiningRing.Proofs.Safety
import Mathlib.Algebra.BigOperators.Group.Finset.Basic
import Mathlib.Order.Bounds.Basic

namespace DiningRing

/-! ### Waits in a history -/

section

variable {i j k w : ℕ} {h : List Move} {m : Move}

/-- The place of the move with which a seat last started to wait. -/
structure LastStart (i : ℕ) (h : List Move) (j : ℕ) : Prop where
  starts : h[j]? = some ⟨i, .startWaiting⟩
  last : ∀ l, j < l → h[l]? ≠ some ⟨i, .startWaiting⟩

/-- The waits of a seat: for each of its meals the moves made since it last started to wait
before that. -/
def waits (i : ℕ) (h : List Move) : Set ℕ :=
  {w | ∃ j k, h[k]? = some ⟨i, .eat⟩ ∧ LastStart i (h.take k) j ∧ w = k - j}

lemma getElem?_concat_iff {m' : Move} :
    (h ++ [m])[k]? = some m' ↔ h[k]? = some m' ∨ k = h.length ∧ m = m' := by
  rcases lt_trichotomy k h.length with hlt | rfl | hgt
  · rw [List.getElem?_append_left hlt]
    simp [hlt.ne]
  · simp
  · have hlength : (h ++ [m]).length ≤ k := by
      rw [List.length_append, List.length_singleton]
      exact hgt
    simp [List.getElem?_eq_none hlength, List.getElem?_eq_none hgt.le, hgt.ne']

lemma LastStart.lt (hj : LastStart i h j) : j < h.length :=
  (List.getElem?_eq_some_iff.mp hj.starts).1

lemma LastStart.unique (hj : LastStart i h j) (hk : LastStart i h k) : j = k := by
  rcases lt_trichotomy j k with hlt | rfl | hgt
  · exact absurd hk.starts (hj.last k hlt)
  · rfl
  · exact absurd hj.starts (hk.last j hgt)

/-- A move that is no start of the seat to wait leaves its last one in place. -/
lemma LastStart.concat (hj : LastStart i h j) (hm : m ≠ ⟨i, .startWaiting⟩) :
    LastStart i (h ++ [m]) j where
  starts := getElem?_concat_iff.mpr (.inl hj.starts)
  last := by
    intro l hl heq
    rcases getElem?_concat_iff.mp heq with heq | ⟨-, heq⟩
    · exact hj.last l hl heq
    · exact hm heq

lemma lastStart_concat (i : ℕ) (h : List Move) :
    LastStart i (h ++ [⟨i, .startWaiting⟩]) h.length where
  starts := List.getElem?_concat_length
  last := by
    intro l hl heq
    rw [List.getElem?_eq_none (by simpa using hl)] at heq
    cases heq

/-- **One more move adds a wait if it is a meal.** -/
lemma mem_waits_concat : w ∈ waits i (h ++ [m]) ↔
    w ∈ waits i h ∨ m = ⟨i, .eat⟩ ∧ ∃ j, LastStart i h j ∧ w = h.length - j := by
  constructor
  · rintro ⟨j, k, heat, hj, rfl⟩
    rcases getElem?_concat_iff.mp heat with heat | ⟨rfl, rfl⟩
    · have hk : k ≤ h.length := (List.getElem?_eq_some_iff.mp heat).1.le
      rw [List.take_append_of_le_length hk] at hj
      exact .inl ⟨j, k, heat, hj, rfl⟩
    · rw [List.take_left] at hj
      exact .inr ⟨rfl, j, hj, rfl⟩
  · rintro (⟨j, k, heat, hj, rfl⟩ | ⟨rfl, j, hj, rfl⟩)
    · have hk : k ≤ h.length := (List.getElem?_eq_some_iff.mp heat).1.le
      refine ⟨j, k, getElem?_concat_iff.mpr (.inl heat), ?_, rfl⟩
      rwa [List.take_append_of_le_length hk]
    · refine ⟨j, h.length, List.getElem?_concat_length, ?_, rfl⟩
      rwa [List.take_left]

lemma waits_concat_of_ne (hm : m ≠ ⟨i, .eat⟩) : waits i (h ++ [m]) = waits i h := by
  ext w
  rw [mem_waits_concat]
  simp [hm]

end

/-! ### What a tally tells -/

namespace Tally

variable {i : ℕ} {h : List Move} {m : Move} {a : Action} {t : Tally}

/-- A tally tells the numbers of a seat in a history.  While the seat waits it knows since when. -/
structure Tells (t : Tally) (i : ℕ) (h : List Move) : Prop where
  actions : t.actions = (h.map Move.seat).count i
  meals : t.meals = h.count ⟨i, .eat⟩
  firstMeal : t.firstMeal = (h.idxOf? ⟨i, .eat⟩).map (· + 1)
  longestWait : IsGreatest (insert 0 (waits i h)) t.longestWait
  waiting : ∀ step, t.waitingSince = some step → ∃ j, step = j + 1 ∧ LastStart i h j

lemma tells_zero (i : ℕ) : zero.Tells i [] where
  actions := rfl
  meals := rfl
  firstMeal := rfl
  longestWait := by
    refine ⟨Set.mem_insert 0 _, ?_⟩
    rintro w (rfl | ⟨j, k, heat, -, -⟩)
    · exact le_rfl
    · cases heat
  waiting := by simp [zero]

lemma idxOf?_concat (h : List Move) (m m' : Move) : (h ++ [m]).idxOf? m'
    = (h.idxOf? m').or (if m = m' then some h.length else none) := by
  by_cases hm : m = m' <;> simp [List.idxOf?, List.findIdx?_append, List.findIdx?_cons, hm]

/-- A move of another seat changes nothing for a seat. -/
lemma Tells.other (ht : t.Tells i h) (hm : m.seat ≠ i) : t.Tells i (h ++ [m]) := by
  have hne : ∀ a, m ≠ ⟨i, a⟩ := fun a heq => hm (congrArg Move.seat heq)
  refine ⟨?_, ?_, ?_, ?_, fun step hstep => ?_⟩
  · rw [ht.actions]
    simp [hm]
  · rw [ht.meals]
    simp [hne .eat]
  · rw [ht.firstMeal, idxOf?_concat, if_neg (hne .eat), Option.or_none]
  · rw [waits_concat_of_ne (hne .eat)]
    exact ht.longestWait
  · obtain ⟨j, hj, hlast⟩ := ht.waiting step hstep
    exact ⟨j, hj, hlast.concat (hne .startWaiting)⟩

lemma firstMeal_after (t : Tally) (a : Action) (step : ℕ) : (t.after a step).firstMeal
    = t.firstMeal.or (if a = .eat then some step else none) := by
  cases a <;> simp [after, eatAt]

/-- A meal makes the longest wait the longer one of it and the one that it ends. -/
lemma Tells.longestWait_eat (ht : t.Tells i h) (hwaits : t.waitingSince ≠ none) :
    IsGreatest (insert 0 (waits i (h ++ [⟨i, .eat⟩]))) (t.after .eat (h.length + 1)).longestWait := by
  obtain ⟨step, hstep⟩ := Option.ne_none_iff_exists'.mp hwaits
  obtain ⟨j, rfl, hj⟩ := ht.waiting step hstep
  have hafter : (t.after .eat (h.length + 1)).longestWait = max t.longestWait (h.length - j) := by
    simp [after, eatAt, hstep, Nat.add_sub_add_right]
  rw [hafter]
  constructor
  · rcases le_total t.longestWait (h.length - j) with hle | hle
    · rw [max_eq_right hle]
      exact .inr (mem_waits_concat.mpr (.inr ⟨rfl, j, hj, rfl⟩))
    · rw [max_eq_left hle]
      rcases ht.longestWait.1 with hzero | hmem
      · exact .inl hzero
      · exact .inr (mem_waits_concat.mpr (.inl hmem))
  · rintro w (rfl | hw)
    · exact Nat.zero_le _
    · rcases mem_waits_concat.mp hw with hw | ⟨-, k, hk, rfl⟩
      · exact (ht.longestWait.2 (.inr hw)).trans (le_max_left _ _)
      · rw [hk.unique hj]
        exact le_max_right _ _

/-- **A tally keeps telling the numbers of its seat**, if the seat eats only after it has
waited. -/
theorem Tells.own (ht : t.Tells i h) (hwaits : a = .eat → t.waitingSince ≠ none) :
    (t.after a (h.length + 1)).Tells i (h ++ [⟨i, a⟩]) where
  actions := by
    have hactions : (t.after a (h.length + 1)).actions = t.actions + 1 := by
      cases a <;> rfl
    rw [hactions, ht.actions]
    simp
  meals := by
    rw [Simulation.meals_after, ht.meals, List.count_append, List.count_singleton]
    simp
  firstMeal := by
    rw [firstMeal_after, ht.firstMeal, idxOf?_concat]
    cases h.idxOf? ⟨i, .eat⟩ with
    | some k => rfl
    | none => by_cases ha : a = .eat <;> simp [ha]
  longestWait := by
    by_cases ha : a = .eat
    · subst ha
      exact ht.longestWait_eat (hwaits rfl)
    · rw [waits_concat_of_ne (by simp [ha])]
      cases a with
      | eat => exact absurd rfl ha
      | startWaiting | take | finish | give => exact ht.longestWait
  waiting := by
    intro step hstep
    cases a with
    | startWaiting =>
      obtain rfl : h.length + 1 = step := Option.some.inj hstep
      exact ⟨h.length, rfl, lastStart_concat i h⟩
    | eat => cases hstep
    | take | finish | give =>
      obtain ⟨j, hj, hlast⟩ := ht.waiting step hstep
      exact ⟨j, hj, hlast.concat (by simp)⟩

end Tally

/-! ### What a simulation tells -/

namespace Simulation

variable {n i : ℕ} {r : Ring} {sink : Sink} {sim t : Simulation} {h : List Move} {a : Action}

/-- A simulation tells the numbers of a history, in which nobody has eaten without having waited. -/
structure Recounts (sim : Simulation) (h : List Move) : Prop where
  tallied : sim.Tallied
  steps : sim.steps = h.length
  tallies : ∀ i < sim.ring.seats, (sim.tally i).Tells i h
  waiting : ∀ i < sim.ring.seats, (sim.state.diner i).phase = .waiting →
    (sim.tally i).waitingSince ≠ none
  meals : ∀ i k, h[k]? = some ⟨i, .eat⟩ → ∃ j, LastStart i (h.take k) j

lemma recounts_begin (r : Ring) (sink : Sink) : (Simulation.begin r sink).Recounts [] where
  tallied := tallied_begin r sink
  steps := rfl
  tallies := by
    intro i _
    rw [tally_begin]
    exact Tally.tells_zero i
  waiting := by
    intro i hi hp
    have hi : i < r.seats := hi
    have hp : (r.initial.diner i).phase = .waiting := hp
    rw [Ring.diner_initial hi] at hp
    cases hp
  meals := by simp

/-- **A ready move keeps a simulation telling its history.** -/
theorem Recounts.advance (hr : sim.Recounts h) (hs : sim.state.Fits sim.ring.seats)
    (hi : i < sim.ring.seats) (ha : sim.ring.Ready sim.state i a) :
    (sim.advance i a (sim.ring.perform sim.state i a)).Recounts (h ++ [⟨i, a⟩]) := by
  -- who starts to eat is waiting, and its tally knows since when
  have hwaits : a = .eat → (sim.tally i).waitingSince ≠ none := by
    rintro rfl
    cases ha with
    | eat hp => exact hr.waiting i hi hp
  have hself : (sim.advance i a (sim.ring.perform sim.state i a)).tally i
      = (sim.tally i).after a (h.length + 1) := by
    rw [tally_advance_self hr.tallied hi, hr.steps]
  refine ⟨hr.tallied.advance, ?_, fun j hj => ?_, fun j hj hp => ?_, fun j k heat => ?_⟩
  · rw [List.length_append, List.length_singleton, ← hr.steps]
    rfl
  · by_cases hji : j = i
    · subst hji
      rw [hself]
      exact (hr.tallies j hj).own hwaits
    · rw [tally_advance_ne hji]
      exact (hr.tallies j hj).other (Ne.symm hji)
  · by_cases hji : j = i
    · subst hji
      have hp : ((sim.state.diner j).after a).phase = .waiting := by
        rw [← Ring.diner_perform_self hs hi]
        exact hp
      rw [hself]
      cases ha with
      | startWaiting => simp [Tally.after]
      | take side hwaiting => exact hr.waiting j hi hwaiting
      | eat | finish => cases hp
      | give side hreleasing =>
        simp only [Diner.after, hreleasing] at hp
        split_ifs at hp
    · have hother : ((sim.ring.perform sim.state i a).diner j).phase = .waiting := hp
      rw [Ring.diner_perform_ne hji] at hother
      rw [tally_advance_ne hji]
      exact hr.waiting j hj hother
  · rcases getElem?_concat_iff.mp heat with heat | ⟨rfl, heq⟩
    · have hk : k ≤ h.length := (List.getElem?_eq_some_iff.mp heat).1.le
      rw [List.take_append_of_le_length hk]
      exact hr.meals j k heat
    · obtain ⟨rfl, rfl⟩ : i = j ∧ a = .eat := by simpa using heq
      obtain ⟨step, hstep⟩ := Option.ne_none_iff_exists'.mp (hwaits rfl)
      obtain ⟨l, -, hl⟩ := (hr.tallies i hi).waiting step hstep
      rw [List.take_left]
      exact ⟨l, hl⟩

/-- **Over every course from the beginning** a simulation tells its moves. -/
theorem Course.recounts (hn : 2 ≤ r.seats) (hc : Course (Simulation.begin r sink) h t) :
    t.Recounts h := by
  induction hc with
  | start => exact recounts_begin r sink
  | move before hi hready ih =>
    exact ih.advance (before.sound (Ring.sound_initial hn)).fits hi hready

/-! ### Recorders -/

/-- A recorder that is the sink of a simulation receives what its course announces. -/
lemma Course.sink_recorder {rec : Recorder} (hc : Course (Simulation.begin r (.recorder rec)) h t) :
    t.sink = .recorder (rec.recordAll (announced h)) := by
  rw [hc.sink_eq]
  exact Sink.recordAll_recorder rec (announced h)

lemma Course.seat_lt (hc : Course sim h t) : ∀ m ∈ h, m.seat < sim.ring.seats := by
  induction hc with
  | start => simp
  | move before hi _ ih =>
    rw [before.ring_eq] at hi
    simpa [or_imp, forall_and, hi] using ih

/-- The meals of a seat in a history are how often it is among those who eat. -/
lemma count_eat_eq (i : ℕ) (h : List Move) : h.count ⟨i, .eat⟩ = (eaters h).count i := by
  induction h with
  | nil => rfl
  | cons m h ih =>
    obtain ⟨j, a⟩ := m
    rw [← List.singleton_append, eaters_append, List.count_append, List.count_append, ih]
    by_cases ha : a = .eat <;> simp [eaters, ha, List.count_singleton]

/-- The meals of the seats of a table are together all meals. -/
lemma sum_count_eaters (hseats : ∀ m ∈ h, m.seat < n) :
    ((List.range n).map fun i => (eaters h).count i).sum = (eaters h).length := by
  have hmem : ∀ i ∈ (eaters h : Multiset ℕ), i ∈ Finset.range n := by
    intro i hi
    obtain ⟨m, hm, rfl⟩ := List.mem_map.mp (Multiset.mem_coe.mp hi)
    exact Finset.mem_range.mpr (hseats m (List.mem_of_mem_filter hm))
  have hsum := Multiset.sum_count_eq_card hmem
  simp only [Multiset.coe_count, Multiset.coe_card] at hsum
  rw [← hsum, ← List.toFinset_range, List.sum_toFinset _ List.nodup_range]

/-! ### Reports -/

/-- **A report tells the history.**  After every schedule, whichever of its calls were refused, the
steps are the accepted moves; the actions and meals of a seat are its moves and its moves to eat;
its first meal is the number, from one on, of the first of these; and its longest wait is the
greatest of its waits, or zero if there is none, no seat having eaten without having waited.  A
recorder has heard of all moves but those that take or give a fork, and its counters and the
order of the meals agree with the report. -/
theorem report_tells_history (hn : 2 ≤ n) (p : Plan) :
    let start := Simulation.begin ⟨n, p⟩ (.recorder .keeping)
    Simulation.create n p (.recorder .keeping) = .ok start ∧
    ∀ (schedule : List ℕ) (name : String) (outcome : Outcome),
      let sim := start.play schedule
      let h := start.history schedule
      let report := sim.report name outcome
      report.steps = h.length ∧
      (∀ i < n, sim.actions i = (h.map Move.seat).count i) ∧
      report.meals = (List.range n).map (fun i => h.count ⟨i, .eat⟩) ∧
      report.firstMeal = (List.range n).map (fun i => (h.idxOf? ⟨i, .eat⟩).map (· + 1)) ∧
      (∃ longest : ℕ → ℕ, report.longestWait = (List.range n).map longest ∧
        ∀ i < n, IsGreatest (insert 0 (waits i h)) (longest i)) ∧
      (∀ i k, h[k]? = some ⟨i, .eat⟩ → ∃ j, LastStart i (h.take k) j) ∧
      ∃ recorder : Recorder, sim.sink = .recorder recorder ∧
        recorder.events.toList = h.filterMap (fun m => eventOf? m.seat m.action) ∧
        recorder.mealsPerSeat n = report.meals ∧
        recorder.totalMeals = report.totalMeals ∧
        recorder.eatingOrder = (h.filter fun m => m.action = .eat).map Move.seat := by
  refine ⟨create_eq_ok hn p _, fun schedule name outcome => ?_⟩
  intro sim h report
  have hc := course_begin hn p (.recorder .keeping) schedule
  have hr : sim.Recounts h := hc.recounts hn
  have hring : sim.ring = ⟨n, p⟩ := ring_play hn p (.recorder .keeping) schedule
  have htells : ∀ i < n, (sim.tally i).Tells i h := by
    have htallies := hr.tallies
    rwa [hring] at htallies
  have hmeals : report.meals = (List.range n).map fun i => h.count ⟨i, .eat⟩ := by
    rw [meals_report hr.tallied, hring]
    exact List.map_congr_left fun i hi => (htells i (List.mem_range.mp hi)).meals
  refine ⟨hr.steps, fun i hi => (htells i hi).actions, hmeals, ?_,
    ⟨fun i => (sim.tally i).longestWait, ?_, fun i hi => (htells i hi).longestWait⟩, hr.meals,
    _, hc.sink_recorder, ?_, ?_, ?_, ?_⟩
  · rw [firstMeal_report hr.tallied, hring]
    exact List.map_congr_left fun i hi => (htells i (List.mem_range.mp hi)).firstMeal
  · rw [longestWait_report hr.tallied, hring]
  · exact Recorder.events_recordAll .keeping (announced h)
  · rw [hmeals]
    refine List.map_congr_left fun i _ => ?_
    rw [Recorder.mealsOf_recordAll, Trace.mealsOf, eatingOrder_announced, count_eat_eq]
    exact Nat.zero_add _
  · have hseats : ∀ m ∈ h, m.seat < n := hc.seat_lt
    rw [Recorder.totalMeals_recordAll, eatingOrder_announced, Report.totalMeals,
      ← List.sum_eq_foldr, hmeals]
    simp only [count_eat_eq]
    rw [sum_count_eaters hseats]
    exact Nat.zero_add _
  · rw [Recorder.eatingOrder, Recorder.events_recordAll]
    exact eatingOrder_announced h

/-- At a table of two, each seat has eaten once; a seat that was blocked and one that is not there
have been asked in between.  The second seat has started to wait with the second move and eats with
the ninth. -/
theorem report_tells_history_at_two :
    let start := Simulation.begin ⟨2, .reversedLast⟩ (.recorder .keeping)
    let schedule := [0, 1, 1, 0, 7, 0, 0, 0, 1, 1, 1]
    let h := start.history schedule
    let report := (start.play schedule).report "by hand" .completed
    2 ≤ 2 ∧ report.steps = 9 ∧ report.meals = [1, 1] ∧ report.firstMeal = [some 3, some 9] ∧
      report.longestWait = [2, 7] ∧ IsGreatest (insert 0 (waits 1 h)) 7 ∧
      h[8]? = some ⟨1, .eat⟩ ∧ (∃ j, LastStart 1 (h.take 8) j) ∧
      ∃ recorder : Recorder, (start.play schedule).sink = .recorder recorder ∧
        recorder.mealsPerSeat 2 = [1, 1] ∧ recorder.eatingOrder = [0, 1] := by
  intro start schedule h report
  have htells := (report_tells_history (n := 2) (by decide) .reversedLast).2 schedule "by hand"
    .completed
  obtain ⟨hsteps, -, hmeals, hfirst, ⟨longest, hlongest, hgreatest⟩, heat, recorder, hsink, -,
    hcounters, -, horder⟩ := htells
  have hwaits : report.longestWait = [2, 7] := by decide +kernel
  have hseven : longest 1 = 7 := by
    have heq : [longest 0, longest 1] = [2, 7] := hlongest.symm.trans hwaits
    simpa using (List.cons.inj (List.cons.inj heq).2).1
  have hmove : h[8]? = some ⟨1, .eat⟩ := by decide +kernel
  refine ⟨by decide, hsteps.trans (by decide +kernel), hmeals.trans (by decide +kernel),
    hfirst.trans (by decide +kernel), hwaits, hseven ▸ hgreatest 1 (by decide), hmove,
    heat 1 8 hmove, recorder, hsink, ?_, ?_⟩
  · exact hcounters.trans (by decide +kernel)
  · exact horder.trans (by decide +kernel)

end Simulation

end DiningRing
