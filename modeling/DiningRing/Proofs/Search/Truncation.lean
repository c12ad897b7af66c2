/-
# What a search has counted that was cut off

The two limits of a search are not of one kind.  The limit on the depth keeps out all states beyond
it, whatever the order in which states are met; the limit on the number of states keeps out single
states of a depth, of which others have been let in.  A state is kept out only once as many are
known as there may be, and all of them are visited then; before that nothing within the depth is
left out (`Search.Visits.visited_of_within`).  So a search visits as many states as both limits allow
(`Search.Visits.states_eq_min`), and as it visits them in the order of their distances, none that it
has left out is nearer than one that it has visited (`Search.Visits.depth_le_of_unvisited`).

This holds of every search that has come to its end, because even the one that ends with a deadlock
has nothing left to visit (`Search.Visits.pending_eq_nil`).
-/
import DiningRing.Proofs.Search.Starvation

namespace DiningRing

/-! ### The states within a depth -/

namespace Ring

variable {r : Ring} {t : RingState} {d : ℕ}

/-- A schedule of at most `d` entries leads to the state. -/
def Within (r : Ring) (d : ℕ) (t : RingState) : Prop :=
  ∃ schedule : List ℕ, schedule.length ≤ d ∧
    ((Simulation.begin r .null).play schedule).state = t

lemma within_iff_leadsTo (hn : 2 ≤ r.seats) :
    r.Within d t ↔ ∃ w, r.LeadsTo w t ∧ w.length ≤ d := by
  constructor
  · rintro ⟨schedule, hlength, rfl⟩
    have haccepted := (Simulation.sublist_history (Simulation.begin r .null) schedule).length_le
    exact ⟨_, leadsTo_history hn .null schedule, haccepted.trans hlength⟩
  · rintro ⟨w, hw, hlength⟩
    exact ⟨w, hlength, (hw.play hn .null).2⟩

lemma exists_near (hn : 2 ≤ r.seats) (d : ℕ) :
    ∃ near : Finset RingState, ∀ t, t ∈ near ↔ r.Within d t := by
  have hfinite : {t | r.Within d t}.Finite := (finite_reachable hn).subset fun t ht => by
    obtain ⟨w, hw, -⟩ := (within_iff_leadsTo hn).mp ht
    exact hw.reachable
  exact ⟨hfinite.toFinset, fun _ => hfinite.mem_toFinset⟩

end Ring

namespace Search

variable {r : Ring} {n d : ℕ} {plan : Plan} {limits : SearchLimits} {visited : List Lead}
  {s : Search} {l : Lead} {t : RingState} {near : Finset RingState} {deadlock : Option (List ℕ)}

/-! ### Searches that have come to their end -/

/-- **A search that has come to its end has nothing left to visit.**  The stalemate is the last
state that it meets. -/
theorem Visits.pending_eq_nil (hn : 2 ≤ n) (hv : s.Visits ⟨n, plan⟩ limits visited)
    (hends : s.Ends ⟨n, plan⟩ visited deadlock) : s.pending = [] := by
  cases hends with
  | exhausted hpending => exact hpending
  | @stuck before l hlast _ hstill =>
    have hl : l ∈ visited := by simp [hlast]
    have hmem := List.mem_append_left s.pending hl
    cases plan with
    | reversedLast =>
      exact absurd hstill (Ring.enabled_ne_nil_of_reachable hn (hv.reachable hmem))
    | uniform =>
      exact hv.pending_of_stalemate hn hl
        (((hv.knows.met.exact l hmem).enabled_eq_nil_iff hn).mp hstill)

lemma Visits.within (hn : 2 ≤ r.seats) (hv : s.Visits r limits visited) (hl : l ∈ visited) :
    r.Within limits.maxDepth l.state := by
  have hmem := List.mem_append_left s.pending hl
  have hexact := hv.knows.met.exact l hmem
  exact (Ring.within_iff_leadsTo hn).mpr
    ⟨l.schedule, hexact.first.leads, hexact.depth ▸ hv.knows.met.within l hmem⟩

section

variable (hv : s.Visits r limits visited) (hpending : s.pending = [])
include hv hpending

lemma Visits.visited_ne_nil : visited ≠ [] := by
  obtain ⟨l, hl, -⟩ := hv.visited_of_known hpending hv.knows.met.start
  exact List.ne_nil_of_mem hl

/-- **With room to spare everything within the depth is visited.** -/
theorem Visits.visited_of_within (hn : 2 ≤ r.seats)
    (hroom : visited.length < max 1 limits.maxStates) (ht : r.Within limits.maxDepth t) :
    ∃ l ∈ visited, l.state = t := by
  obtain ⟨w, hw, hlength⟩ := (Ring.within_iff_leadsTo hn).mp ht
  refine hv.visited_of_known hpending
    (hv.known_of_leadsTo hpending (fun x hx a ha => ?_) hw fun l _ _ hl => hl.trans_le hlength)
  rcases hv.knows.closed x hx a ha with hknown | ⟨-, hfull⟩
  · exact hknown
  · -- the state at the start is visited even where there is no room
    have hpos := List.length_pos_iff.mpr (hv.visited_ne_nil hpending)
    rw [hv.knows.count, hpending, List.append_nil] at hfull
    omega

/-- **A search visits as many states as the limits allow.** -/
theorem Visits.states_eq_min (hn : 2 ≤ r.seats)
    (hnear : ∀ t, t ∈ near ↔ r.Within limits.maxDepth t) :
    s.states = min (max 1 limits.maxStates) near.card := by
  have hcard := hv.card_visited hpending
  have hle : s.states ≤ near.card := by
    rw [← hcard]
    refine Finset.card_le_card fun t ht => ?_
    obtain ⟨l, hl, rfl⟩ := List.mem_map.mp (List.mem_toFinset.mp ht)
    exact (hnear _).mpr (hv.within hn hl)
  have hcap : s.states ≤ max 1 limits.maxStates := by
    have hlength := hv.length_le
    rw [hv.states]
    omega
  refine le_antisymm (le_min hcap hle) ?_
  rcases hcap.lt_or_eq with hroom | hfull
  · refine (min_le_right _ _).trans ?_
    rw [hv.states] at hroom
    rw [← hcard]
    refine Finset.card_le_card fun t ht => ?_
    obtain ⟨l, hl, rfl⟩ := hv.visited_of_within hpending hn hroom ((hnear t).mp ht)
    exact List.mem_toFinset.mpr (List.mem_map_of_mem hl)
  · exact (min_le_left _ _).trans hfull.ge

/-- **No state that is left out is nearer than one that is visited.** -/
theorem Visits.depth_le_of_unvisited (hn : 2 ≤ r.seats) (hl : l ∈ visited)
    (ht : r.Distance t d) (hout : t ∉ visited.map Lead.state) : l.depth ≤ d := by
  by_contra hlt
  obtain ⟨⟨schedule, rfl, rfl⟩, -⟩ := ht
  have hmem := List.mem_append_left s.pending hl
  have haccepted := (Simulation.sublist_history (Simulation.begin r .null) schedule).length_le
  have hdepth := (hv.knows.met.exact l hmem).depth
  have hknown := hv.knows.met.earlier l hmem _ _ (Ring.leadsTo_history hn .null schedule)
    (nearer_of_length (by omega))
  obtain ⟨m, hm, hstate⟩ := hv.visited_of_known hpending hknown
  exact hout (List.mem_map.mpr ⟨m, hm, hstate⟩)

lemma Visits.depth_le : s.depth ≤ limits.maxDepth := by
  obtain ⟨l, hl⟩ := List.exists_mem_of_ne_nil visited (hv.visited_ne_nil hpending)
  obtain ⟨m, hm, hdepth⟩ := hv.exists_deepest hl
  exact hdepth ▸ hv.knows.met.within m (List.mem_append_left _ hm)

end

end Search

/-! ### Leads along schedules -/

/-- The lead to the state that a schedule leads to. -/
def Lead.along (r : Ring) (schedule : List ℕ) : Lead :=
  ⟨((Simulation.begin r .null).play schedule).state, schedule.reverse, schedule.length⟩

@[simp] lemma Lead.schedule_along (r : Ring) (schedule : List ℕ) :
    (Lead.along r schedule).schedule = schedule := List.reverse_reverse schedule

lemma Lead.verify_along {r : Ring} (hn : 2 ≤ r.seats) (schedule : List ℕ) (step : ℕ) :
    r.verify (Lead.along r schedule).state step = .ok () :=
  Ring.verify_of_sound ((Ring.leadsTo_history hn .null schedule).sound hn) step

/-- The tour of a search that both limits cut off. -/
lemma Search.tour_at_two : (Search.start ⟨2, .reversedLast⟩).Tour ⟨2, .reversedLast⟩ ⟨3, 6⟩
    ([[], [0], [1], [0, 0], [0, 1], [0, 0, 0]].map (Lead.along ⟨2, .reversedLast⟩))
    ⟨2, .reversedLast, 6, 8, 3, false, none⟩ := by
  have hverified := Lead.verify_along (r := ⟨2, .reversedLast⟩) le_rfl
  refine
    .goes rfl (hverified [] 0) (by decide) (by decide)
      (expand_cons rfl (meet_of_new ?_ (by decide))
        (expand_cons rfl (meet_of_new ?_ (by decide)) rfl)) <|
    .goes rfl (hverified [0] 1) (by decide) (by decide)
      (expand_cons rfl (meet_of_new ?_ (by decide))
        (expand_cons rfl (meet_of_new ?_ (by decide)) rfl)) <|
    -- the second seat cannot move, and the first one's step leads where `[0, 1]` leads
    .goes rfl (hverified [1] 1) (by decide) (by decide)
      (expand_cons rfl (meet_of_known ?_) rfl) <|
    .goes rfl (hverified [0, 0] 2) (by decide) (by decide)
      (expand_cons rfl (meet_of_new ?_ (by decide))
        (expand_cons rfl (meet_of_full ?_ (by decide)) rfl)) <|
    .goes rfl (hverified [0, 1] 2) (by decide) (by decide)
      (expand_cons rfl (meet_of_full ?_ (by decide)) rfl) <|
    .cut rfl (hverified [0, 0, 0] 3) (by decide) (by decide) <| .ended rfl
  -- what is left is which of the states have been met before
  all_goals
    simp only [start, visit, Std.HashSet.contains_insert, Std.HashSet.contains_empty]
    decide

/-! ### Searches under any limits -/

/-- **What every search counts**, whichever limits cut it off.  A search comes to an end.  It visits
as many states as the limits allow of those that schedules no longer than the limit of the depth
lead to, none of them twice, and no other state is nearer than one of these.  The depth is the
greatest distance among them, and the steps are those of the seats that can move from the states
among them that are nearer than the limit. -/
theorem explore_exact {n : ℕ} (hn : 2 ≤ n) (plan : Plan) (limits : SearchLimits) :
    let ring : Ring := ⟨n, plan⟩
    ∃ (near : Finset RingState) (visited : List Lead) (e : Exploration),
      (∀ t, t ∈ near ↔ ring.Within limits.maxDepth t) ∧
      explore n plan limits = .ok e ∧
      (Search.start ring).Tour ring limits visited e ∧
      (∀ l ∈ visited, ring.Distance l.state l.depth) ∧
      e.states = visited.length ∧ e.states = min (max 1 limits.maxStates) near.card ∧
      (visited.map Lead.state).Nodup ∧
      IsGreatest {d | ∃ l ∈ visited, ring.Distance l.state d} e.depth ∧
      e.depth ≤ limits.maxDepth ∧
      (∀ l ∈ visited, ∀ t d, ring.Distance t d → t ∉ visited.map Lead.state → l.depth ≤ d) ∧
      e.transitions = ((visited.filter fun l => l.depth < limits.maxDepth).map
        fun l => (ring.enabled l.state).length).sum := by
  intro ring
  obtain ⟨near, hnear⟩ := ring.exists_near hn limits.maxDepth
  obtain ⟨visited, s, deadlock, hexplore, htour, hv, hends⟩ := ring.explore_tour hn limits
  have hpending := hv.pending_eq_nil hn hends
  refine ⟨near, visited, s.result ring deadlock, hnear, ?_, htour,
    fun l hl => hv.distance hn (List.mem_append_left _ hl), hv.states,
    hv.states_eq_min hpending hn hnear, hv.nodup_visited hpending,
    hv.isGreatest_depth hn (hv.visited_ne_nil hpending), hv.depth_le hpending,
    fun l hl t d ht hout => hv.depth_le_of_unvisited hpending hn hl ht hout,
    hv.transitions_eq_sum⟩
  rw [explore, Ring.lay_eq_ok hn plan]
  exact hexplore

/-- At a table of two: where no schedule may have an entry, one state is visited and no step is
counted; where there is no room for any state, the one at the start is visited all the same, and
with it the steps of both seats.  Where schedules may have three entries and there is room for six
states, the steps of the last one visited are not counted, as it is as deep as may be, and the state
that the schedule `[0, 0, 1]` leads to is left out. -/
theorem explore_exact_at_two :
    2 ≤ 2 ∧
    (∃ e, explore 2 .uniform ⟨0, 5⟩ = .ok e ∧ e.states = 1 ∧ e.depth = 0 ∧ e.transitions = 0) ∧
    (∃ e, explore 2 .reversedLast ⟨3, 0⟩ = .ok e ∧ e.states = 1 ∧ e.depth = 0 ∧
      e.transitions = 2) ∧
    ∃ visited e, explore 2 .reversedLast ⟨3, 6⟩ = .ok e ∧
      (Search.start ⟨2, .reversedLast⟩).Tour ⟨2, .reversedLast⟩ ⟨3, 6⟩ visited e ∧
      visited.map Lead.schedule = [[], [0], [1], [0, 0], [0, 1], [0, 0, 0]] ∧
      (∀ l ∈ visited, Ring.Distance ⟨2, .reversedLast⟩ l.state l.schedule.length) ∧
      (Lead.along ⟨2, .reversedLast⟩ [0, 0, 1]).state ∉ visited.map Lead.state ∧
      e.states = 6 ∧ e.depth = 3 ∧ e.transitions = 2 + 2 + 1 + 2 + 1 := by
  refine ⟨by decide, ?_, ?_, ?_⟩
  · obtain ⟨near, visited, e, hnear, hexplore, -, -, -, hstates, -, -, hdepth, -, htransitions⟩ :=
      explore_exact (n := 2) (by decide) .uniform ⟨0, 5⟩
    have hone : near = {Ring.initial ⟨2, .uniform⟩} := by
      ext t
      rw [hnear, Finset.mem_singleton]
      constructor
      · rintro ⟨schedule, hlength, rfl⟩
        obtain rfl := List.eq_nil_of_length_eq_zero (Nat.le_zero.mp hlength)
        rfl
      · rintro rfl
        exact ⟨[], le_rfl, rfl⟩
    refine ⟨e, hexplore, by simpa [hone] using hstates, Nat.le_zero.mp hdepth, ?_⟩
    simpa using htransitions
  · obtain ⟨near, visited, e, hnear, hexplore, htour, hdistance, hlength, hstates, -, hdeepest, -,
      -, htransitions⟩ := explore_exact (n := 2) (by decide) .reversedLast ⟨3, 0⟩
    have hstart : Ring.initial ⟨2, .reversedLast⟩ ∈ near := (hnear _).mpr ⟨[], Nat.zero_le _, rfl⟩
    have hone : e.states = 1 :=
      hstates.trans (min_eq_left (Finset.one_le_card.mpr ⟨_, hstart⟩))
    obtain ⟨l, rfl⟩ := List.length_eq_one_iff.mp (hlength.symm.trans hone)
    obtain rfl : l = ⟨Ring.initial ⟨2, .reversedLast⟩, [], 0⟩ := by
      cases htour with
      | stuck hnext | cut hnext | goes hnext =>
        cases hnext
        rfl
    obtain ⟨⟨m, hm, hdepth⟩, -⟩ := hdeepest
    obtain rfl := List.mem_singleton.mp hm
    exact ⟨e, hexplore, hone, hdepth.unique (hdistance _ hm), htransitions.trans (by decide)⟩
  · obtain ⟨near, visited, e, -, hexplore, htour, hdistance, hlength, -, -, hdeepest, hdepth, -,
      htransitions⟩ := explore_exact (n := 2) (by decide) .reversedLast ⟨3, 6⟩
    obtain ⟨rfl, -⟩ := htour.unique Search.tour_at_two
    refine ⟨_, e, hexplore, htour, rfl, ?_, by decide, hlength, ?_, htransitions.trans (by decide)⟩
    · intro l hl
      obtain ⟨w, -, rfl⟩ := List.mem_map.mp hl
      rw [Lead.schedule_along]
      exact hdistance _ hl
    · exact le_antisymm hdepth
        (hdeepest.2 ⟨.along ⟨2, .reversedLast⟩ [0, 0, 0], by simp, hdistance _ (by simp)⟩)

end DiningRing
