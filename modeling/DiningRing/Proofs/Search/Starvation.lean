/-
# The search for the stalemate

Under `uniform` every schedule that goes on as long as it can leads to the stalemate, so the
search finds that state or none.  As its distance is the greatest of all and only it has this
distance, it is the last state to be visited: whatever else the search could meet is known by
then (`Search.Visits.stalemate_last`).  A search that finds it is therefore a complete one,
and reports the first schedule to it, in which each seat in turn makes both its actions.  A
run that follows this schedule as a script ends in the deadlock.
-/
import DiningRing.Proofs.Scripts
import DiningRing.Proofs.Search.Verdict

namespace DiningRing

/-! ### Leads of the uniform plan -/

namespace Lead.Exact

variable {n : ℕ} {l : Lead}

lemma depth_le (hl : l.Exact ⟨n, .uniform⟩) : l.depth ≤ 2 * n :=
  hl.depth ▸ hl.first.leads.length_le

lemma enabled_eq_nil_iff (hn : 2 ≤ n) (hl : l.Exact ⟨n, .uniform⟩) :
    Ring.enabled ⟨n, .uniform⟩ l.state = [] ↔ l.depth = 2 * n := by
  rw [hl.depth]
  exact hl.first.leads.enabled_eq_nil_iff hn

/-- A lead as deep as can be is the one to the stalemate. -/
lemma state_eq (hn : 2 ≤ n) (hl : l.Exact ⟨n, .uniform⟩) (hdepth : l.depth = 2 * n) :
    l.state = RingState.stalemate n :=
  hl.first.leads.eq_stalemate hn (hl.depth ▸ hdepth)

lemma schedule_eq (hn : 2 ≤ n) (hl : l.Exact ⟨n, .uniform⟩) (hdepth : l.depth = 2 * n) :
    l.schedule = Ring.inTurn n fun _ => 2 := by
  have hfirst := hl.first
  rw [hl.state_eq hn hdepth] at hfirst
  exact hfirst.unique (Ring.first_stalemate hn)

end Lead.Exact

/-! ### Searches of the uniform plan -/

namespace Search

variable {n : ℕ} {limits : SearchLimits} {visited before : List Lead} {s : Search} {l : Lead}
  {t : RingState}

section

variable (hn : 2 ≤ n) (hv : s.Visits ⟨n, .uniform⟩ limits visited)
include hn hv

section

variable (hl : l ∈ visited) (hdepth : l.depth = 2 * n)
include hl hdepth

/-- By the time the stalemate is visited every reachable state is known. -/
lemma Visits.known_of_stalemate (ht : Ring.Reachable ⟨n, .uniform⟩ t) :
    s.known.contains t = true := by
  have hmet := hv.knows.met
  have hmem := List.mem_append_left s.pending hl
  have hexact := hmet.exact l hmem
  obtain ⟨w, hw⟩ := ht
  by_cases hfar : w.length = 2 * n
  · rw [hw.eq_stalemate hn hfar, ← hexact.state_eq hn hdepth]
    exact (hmet.contains_iff _).mpr ⟨l, hmem, rfl⟩
  · have hle := hw.length_le
    have hlength := hexact.depth
    exact hmet.earlier l hmem w t hw (nearer_of_length (by omega))

/-- By the time the stalemate is visited nothing is pending. -/
lemma Visits.pending_of_stalemate : s.pending = [] := by
  have hmet := hv.knows.met
  have hexact := hmet.exact l (List.mem_append_left _ hl)
  refine List.eq_nil_iff_forall_not_mem.mpr fun m hm => ?_
  -- a lead after the one to the stalemate would be as deep, and so be this one
  have hnearer : Nearer l.schedule m.schedule :=
    (List.pairwise_append.mp hmet.order).2.2 l hl m hm
  have hexact' := hmet.exact m (List.mem_append_right _ hm)
  have hdeep : m.depth = 2 * n := by
    have hle := hexact'.depth_le
    have hlength := hexact.depth
    have hlength' := hexact'.depth
    rcases nearer_iff.mp hnearer with hlt | ⟨heq, -⟩ <;> omega
  rw [hexact.schedule_eq hn hdepth, hexact'.schedule_eq hn hdeep] at hnearer
  exact not_nearer_self hnearer

/-- **A search that visits the stalemate is complete.** -/
theorem Visits.complete_of_stalemate : s.complete = true := by
  have hwithin := hv.knows.met.within l (List.mem_append_left _ hl)
  by_contra hcomplete
  rw [Bool.not_eq_true] at hcomplete
  rcases hv.knows.cause hcomplete with ⟨m, hm, hdeep, hlive⟩ | ⟨-, t, ht, hunknown⟩
  · have hexact := hv.knows.met.exact m hm
    have hle := hexact.depth_le
    exact hlive ((hexact.enabled_eq_nil_iff hn).mpr (by omega))
  · rw [hv.known_of_stalemate hn hl hdepth ht] at hunknown
    cases hunknown

/-- **What a search has counted that visits the stalemate**, and that the limits leave room
for it. -/
theorem Visits.stalemate_accounts :
    s.states = 3 ^ n ∧ s.transitions = 2 * n * 3 ^ (n - 1) ∧ s.depth = 2 * n ∧
      2 * n ≤ limits.maxDepth ∧ 3 ^ n ≤ limits.maxStates := by
  obtain ⟨reached, hreached⟩ := Ring.exists_reached (r := ⟨n, .uniform⟩) hn
  have hpending := hv.pending_of_stalemate hn hl hdepth
  have hall : ∀ t, Ring.Reachable ⟨n, .uniform⟩ t → ∃ m ∈ visited, m.state = t := fun t ht =>
    hv.visited_of_known hpending (hv.known_of_stalemate hn hl hdepth ht)
  obtain ⟨hstates, htransitions, -⟩ :=
    hv.accounts hn hreached (hv.complete_of_stalemate hn hl hdepth) hpending hall
  rw [Ring.card_reached_uniform hn hreached] at hstates
  rw [Ring.sum_enabled_uniform hn hreached] at htransitions
  refine ⟨hstates, htransitions, ?_, ?_, ?_⟩
  · obtain ⟨m, hm, hdeepest⟩ := hv.exists_deepest hl
    have hle := hv.deepest l hl
    have hmle := (hv.knows.met.exact m (List.mem_append_left _ hm)).depth_le
    omega
  · rw [← hdepth]
    exact hv.knows.met.within l (List.mem_append_left _ hl)
  · have hroom := hv.length_le
    have hpow : 1 < 3 ^ n := Nat.one_lt_pow (by omega) (by omega)
    rw [← hv.states, hstates] at hroom
    omega

end

/-- **A search that does not find the stalemate has come to one of its limits.** -/
theorem Visits.outside_of_live (hpending : s.pending = [])
    (hlive : ∀ l ∈ visited, Ring.enabled ⟨n, .uniform⟩ l.state ≠ []) :
    ¬ (2 * n ≤ limits.maxDepth ∧ 3 ^ n ≤ limits.maxStates) := by
  rintro ⟨hdepth, hstates⟩
  obtain ⟨reached, hreached⟩ := Ring.exists_reached (r := ⟨n, .uniform⟩) hn
  rcases hv.exceeded hreached (hv.complete_eq_false hn hpending hlive) with
    ⟨l, hl, hdeep, hne⟩ | hmany
  · have hexact := hv.knows.met.exact l hl
    have hle := hexact.depth_le
    exact hne ((hexact.enabled_eq_nil_iff hn).mpr (by omega))
  · rw [Ring.card_reached_uniform hn hreached] at hmany
    omega

end

end Search

/-! ### Deadlocking schedules -/

namespace Simulation

variable {n : ℕ} {w : List ℕ}

/-- **The shortest schedules to a deadlock** have two actions of each seat, and the first of
them has the seats in turn. -/
theorem inTurn_le_of_isDeadlocked (hn : 2 ≤ n) (sink : Sink)
    (hstill : ((Simulation.begin ⟨n, .uniform⟩ sink).play w).isDeadlocked = true) :
    2 * n ≤ w.length ∧ (w.length = 2 * n → Ring.inTurn n (fun _ => 2) ≤ w) := by
  have hleads := Ring.leadsTo_history (r := ⟨n, .uniform⟩) hn sink w
  have hsublist := sublist_history (Simulation.begin ⟨n, .uniform⟩ sink) w
  rw [isDeadlocked, enabled, ring_play hn, List.isEmpty_iff, hleads.enabled_eq_nil_iff hn]
    at hstill
  refine ⟨hstill ▸ hsublist.length_le, fun hlength => ?_⟩
  -- no entry has been refused
  have hall := hsublist.eq_of_length (hstill.trans hlength.symm)
  rw [hall] at hleads
  rw [hleads.eq_stalemate hn hlength] at hleads
  exact not_lt.mp (Ring.not_lt_of_perm (Ring.pairwise_inTurn n _) hleads.perm_inTurn)

/-- The schedule that has the seats in turn is accepted, and leads to a deadlock. -/
lemma play_inTurn (hn : 2 ≤ n) (sink : Sink) :
    let start := Simulation.begin ⟨n, .uniform⟩ sink
    let schedule := Ring.inTurn n fun _ => 2
    start.accepts schedule = true ∧ (start.play schedule).isDeadlocked = true ∧
      (start.play schedule).steps = 2 * n := by
  intro start schedule
  have hleads := Ring.leadsTo_stalemate hn
  obtain ⟨haccepts, hstate⟩ := hleads.play hn sink
  have hstill : (start.play schedule).isDeadlocked = true := by
    rw [isDeadlocked, enabled, ring_play hn, hstate, Ring.enabled_stalemate hn]
    rfl
  refine ⟨haccepts, hstill, ?_⟩
  have hsteps := (starved_play hn sink schedule).2.2
  rw [hstate, Ring.sum_ahead_stalemate, Nat.add_zero] at hsteps
  exact hsteps

/-- A run that follows this schedule as a script ends in the deadlock. -/
lemma run_inTurn (hn : 2 ≤ n) (sink : Sink) {budget : ℕ} (hbudget : 2 * n < budget) :
    let run := (Simulation.begin ⟨n, .uniform⟩ sink).run
      (.scripted (Ring.inTurn n fun _ => 2)) budget
    run.outcome = .ok (.deadlocked (2 * n)) ∧ run.scheduler = .scripted [] := by
  obtain ⟨haccepts, hstill, hsteps⟩ := play_inTurn hn sink
  have hlength := (Ring.leadsTo_stalemate hn).length_add_sum_ahead
  rw [Ring.sum_ahead_stalemate, Nat.add_zero] at hlength
  obtain ⟨rest, rfl⟩ : ∃ rest, budget = (Ring.inTurn n fun _ => 2).length + (rest + 1) :=
    ⟨budget - 2 * n - 1, by omega⟩
  have hsound : (Simulation.begin ⟨n, .uniform⟩ sink).state.Sound
      (Simulation.begin ⟨n, .uniform⟩ sink).ring.seats :=
    Ring.sound_initial (r := ⟨n, .uniform⟩) hn
  rw [isDeadlocked, List.isEmpty_iff] at hstill
  have hdrives := ((follows_iff_accepts hsound).mpr haccepts).drives
    (.rests rest (.scripted []) hstill)
  rw [List.append_nil, hsteps] at hdrives
  obtain ⟨houtcome, -, hscheduler⟩ := run_of_drives hdrives
  exact ⟨houtcome, hscheduler⟩

end Simulation

/-! ### The search and the replay -/

/-- **The search of the uniform plan.**  It finds a deadlock exactly when there is room for
`3 ^ n` states and for schedules of `2 * n` entries; otherwise it is incomplete.  What it
finds is the least of all shortest schedules to a deadlock, in which each seat in turn makes
both its actions; a run that follows it comes to this deadlock with nothing left of the
script. -/
theorem explore_uniform {n : ℕ} (hn : 2 ≤ n) (sink : Sink) :
    let schedule := (List.range n).flatMap fun i => [i, i]
    let start := Simulation.begin ⟨n, .uniform⟩ sink
    (∀ limits : SearchLimits, ∃ e, explore n .uniform limits = .ok e ∧
      (e.deadlock.isSome = true ↔ 2 * n ≤ limits.maxDepth ∧ 3 ^ n ≤ limits.maxStates) ∧
      (e.deadlock.isSome = true → e.deadlock = some schedule ∧ e.states = 3 ^ n ∧
        e.transitions = 2 * n * 3 ^ (n - 1) ∧ e.depth = 2 * n ∧ e.complete = true) ∧
      (¬ (2 * n ≤ limits.maxDepth ∧ 3 ^ n ≤ limits.maxStates) →
        e.deadlock = none ∧ e.complete = false)) ∧
    (start.accepts schedule = true ∧ (start.play schedule).isDeadlocked = true ∧
      schedule.length = 2 * n ∧
      ∀ w : List ℕ, (start.play w).isDeadlocked = true →
        2 * n ≤ w.length ∧ (w.length = 2 * n → schedule ≤ w)) ∧
    Simulation.create n .uniform sink = .ok start ∧
    ∀ budget, 2 * n < budget →
      let run := start.run (.scripted schedule) budget
      run.outcome = .ok (.deadlocked (2 * n)) ∧ run.scheduler = .scripted [] := by
  intro schedule start
  have hschedule : schedule = Ring.inTurn n fun _ => 2 := rfl
  have hlength := (Ring.leadsTo_stalemate hn).length_add_sum_ahead
  rw [Ring.sum_ahead_stalemate, Nat.add_zero] at hlength
  obtain ⟨haccepts, hstill, -⟩ := Simulation.play_inTurn hn sink
  refine ⟨fun limits => ?_, ⟨haccepts, hstill, hlength, fun w hw => ?_⟩,
    Simulation.create_eq_ok hn _ sink, fun budget hbudget => Simulation.run_inTurn hn sink hbudget⟩
  · obtain ⟨visited, s, deadlock, hexplore, hv, hends⟩ :=
      Ring.explore_ends (r := ⟨n, .uniform⟩) hn limits
    refine ⟨s.result ⟨n, .uniform⟩ deadlock, ?_, ?_⟩
    · rw [explore, Ring.lay_eq_ok hn]
      exact hexplore
    · cases hends with
      | exhausted hpending hlive =>
        have houtside := hv.outside_of_live hn hpending hlive
        have hcomplete := hv.complete_eq_false hn hpending hlive
        refine ⟨⟨fun h => ?_, fun h => absurd h houtside⟩, fun h => ?_,
          fun _ => ⟨rfl, hcomplete⟩⟩
        · cases h
        · cases h
      | @stuck before l hlast _ hdead =>
        have hl : l ∈ visited := by simp [hlast]
        have hexact := hv.knows.met.exact l (List.mem_append_left _ hl)
        have hdepth := (hexact.enabled_eq_nil_iff hn).mp hdead
        obtain ⟨hstates, htransitions, hdeepest, hinside⟩ := hv.stalemate_accounts hn hl hdepth
        refine ⟨⟨fun _ => hinside, fun _ => rfl⟩, fun _ => ?_, fun h => absurd hinside h⟩
        refine ⟨?_, hstates, htransitions, hdeepest, hv.complete_of_stalemate hn hl hdepth⟩
        rw [hschedule, ← hexact.schedule_eq hn hdepth]
        rfl
  · exact Simulation.inTurn_le_of_isDeadlocked hn sink hw

/-- At a table of two there is a deadlock after four steps, and nine states. -/
theorem explore_uniform_at_two :
    2 ≤ 2 ∧
    (∃ e, explore 2 .uniform ⟨4, 9⟩ = .ok e ∧ e.deadlock = some [0, 0, 1, 1] ∧ e.states = 9 ∧
      e.transitions = 12 ∧ e.depth = 4 ∧ e.complete = true) ∧
    (∃ e, explore 2 .uniform ⟨4, 8⟩ = .ok e ∧ e.deadlock = none ∧ e.complete = false) ∧
    let run := (Simulation.begin ⟨2, .uniform⟩ .null).run (.scripted [0, 0, 1, 1]) 5
    run.outcome = .ok (.deadlocked 4) ∧ run.scheduler = .scripted [] := by
  obtain ⟨hsearch, -, -, hrun⟩ := explore_uniform (n := 2) (by decide) .null
  refine ⟨by decide, ?_, ?_, hrun 5 (by decide)⟩
  · obtain ⟨e, hexplore, hiff, hfound, -⟩ := hsearch ⟨4, 9⟩
    exact ⟨e, hexplore, hfound (hiff.mpr (by decide))⟩
  · obtain ⟨e, hexplore, -, -, hmissed⟩ := hsearch ⟨4, 8⟩
    exact ⟨e, hexplore, hmissed (by decide)⟩

end DiningRing
