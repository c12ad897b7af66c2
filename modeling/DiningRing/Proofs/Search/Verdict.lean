/-
# The verdict of a search

A search that ends without a limit in effect has visited every reachable state, and its
numbers are those of the ring: its states, its steps and its greatest distance
(`Search.Visits.accounts`).  The two limits cut a search off at different places.  A lead as
deep as the one limit is visited, but no step is taken from it, so a search that is complete
has no lead of that depth; the other limit leaves out single states, so that there is room
for exactly as many as it says.  Hence a ring is found free of deadlocks exactly when it is
so and when its states and distances stay inside both limits (`explore_verdict`).
-/
import DiningRing.Proofs.Search.Reachable
import DiningRing.Proofs.Search.Visits

namespace DiningRing

namespace Search

variable {r : Ring} {limits : SearchLimits} {visited : List Lead} {s : Search} {l : Lead}
  {t : RingState} {w : List ℕ} {reached : Finset RingState} {farthest : ℕ}
  {deadlock : Option (List ℕ)}

/-! ### Leads -/

/-- The depth of a lead is the distance of its state. -/
lemma Visits.distance (hn : 2 ≤ r.seats) (hv : s.Visits r limits visited)
    (hl : l ∈ visited ++ s.pending) : r.Distance l.state l.depth := by
  have hexact := hv.knows.met.exact l hl
  rw [hexact.depth]
  exact hexact.first.distance hn

lemma Visits.reachable (hv : s.Visits r limits visited) (hl : l ∈ visited ++ s.pending) :
    r.Reachable l.state := (hv.knows.met.exact l hl).first.leads.reachable

/-- As long as a reachable state is not known, there are fewer leads than such states. -/
lemma Visits.length_lt_card (hv : s.Visits r limits visited)
    (hreached : ∀ t, t ∈ reached ↔ r.Reachable t) (ht : r.Reachable t)
    (hunknown : s.known.contains t = false) :
    (visited ++ s.pending).length < reached.card := by
  rw [← List.length_map (f := Lead.state),
    ← List.toFinset_card_of_nodup hv.knows.met.nodup_states]
  refine Finset.card_lt_card (Finset.ssubset_iff_subset_ne.mpr ⟨fun u hu => ?_, fun heq => ?_⟩)
  · obtain ⟨l, hl, rfl⟩ := List.mem_map.mp (List.mem_toFinset.mp hu)
    exact (hreached _).mpr (hv.reachable hl)
  · have hmem := (hreached t).mpr ht
    rw [← heq, List.mem_toFinset, List.mem_map, ← hv.knows.met.contains_iff t, hunknown] at hmem
    exact Bool.false_ne_true hmem

/-- **Why a search is incomplete**: a lead is too deep, or there are too many states. -/
theorem Visits.exceeded (hv : s.Visits r limits visited)
    (hreached : ∀ t, t ∈ reached ↔ r.Reachable t) (hcomplete : s.complete = false) :
    (∃ l ∈ visited ++ s.pending, limits.maxDepth ≤ l.depth ∧ r.enabled l.state ≠ [])
      ∨ limits.maxStates < reached.card := by
  rcases hv.knows.cause hcomplete with hdeep | ⟨hfull, t, ht, hunknown⟩
  · exact .inl hdeep
  · right
    rw [hv.knows.count] at hfull
    exact hfull.trans_lt (hv.length_lt_card hreached ht hunknown)

/-! ### Searches that have come to their end -/

/-- **A search that has come to its end knows where a schedule leads**, if there has been room for
what its steps lead to, and no lead along the way was too deep. -/
theorem Visits.known_of_leadsTo (hv : s.Visits r limits visited) (hpending : s.pending = [])
    (hroom : ∀ x ∈ r.tried limits visited, ∀ a, r.Ready x.lead.state x.seat a →
      s.known.contains (r.perform x.lead.state x.seat a) = true)
    (hw : r.LeadsTo w t) (hshallow : ∀ l ∈ visited, r.enabled l.state ≠ [] →
      l.depth < w.length → l.depth < limits.maxDepth) : s.known.contains t = true := by
  induction hw with
  | start => exact hv.knows.met.start
  | @move w u i a hbefore hi hready ih =>
    rw [List.length_append, List.length_singleton] at hshallow
    obtain ⟨l, hl, rfl⟩ := (hv.knows.met.contains_iff u).mp
      (ih fun l hl hlive hdepth => hshallow l hl hlive (Nat.lt_succ_of_lt hdepth))
    have hexact := hv.knows.met.exact l hl
    have hle : l.depth ≤ w.length := hexact.depth ▸ hexact.first.length_le hbefore
    rw [hpending, List.append_nil] at hl
    have hmem : i ∈ r.enabled l.state := Ring.mem_enabled_iff.mpr ⟨hi, a, hready⟩
    have hdepth := hshallow l hl (List.ne_nil_of_mem hmem) (Nat.lt_succ_of_le hle)
    exact hroom ⟨l, i⟩ (Ring.mem_tried_iff.mpr ⟨hl, hdepth, hmem⟩) a hready

/-- Whatever a search knows that has come to its end it has visited. -/
lemma Visits.visited_of_known (hv : s.Visits r limits visited) (hpending : s.pending = [])
    (hknown : s.known.contains t = true) : ∃ l ∈ visited, l.state = t := by
  obtain ⟨l, hl, hstate⟩ := (hv.knows.met.contains_iff t).mp hknown
  rw [hpending, List.append_nil] at hl
  exact ⟨l, hl, hstate⟩

lemma Visits.nodup_visited (hv : s.Visits r limits visited) (hpending : s.pending = []) :
    (visited.map Lead.state).Nodup := by
  have hnodup := hv.knows.met.nodup_states
  rwa [hpending, List.append_nil] at hnodup

lemma Visits.card_visited (hv : s.Visits r limits visited) (hpending : s.pending = []) :
    (visited.map Lead.state).toFinset.card = s.states := by
  rw [List.toFinset_card_of_nodup (hv.nodup_visited hpending), List.length_map, hv.states]

/-! ### Complete searches -/

/-- **A complete search that has come to its end has visited every reachable state.** -/
theorem Visits.exists_visited (hv : s.Visits r limits visited) (hcomplete : s.complete = true)
    (hpending : s.pending = []) (ht : r.Reachable t) : ∃ l ∈ visited, l.state = t := by
  obtain ⟨w, hw⟩ := ht
  refine hv.visited_of_known hpending (hv.known_of_leadsTo hpending (fun x hx a ha => ?_) hw
    fun l hl hlive _ => hv.shallow hcomplete l hl hlive)
  rcases hv.knows.closed x hx a ha with hknown | ⟨hincomplete, -⟩
  · exact hknown
  · rw [hcomplete] at hincomplete
    cases hincomplete

/-- The steps that a search has counted are those from the leads that are not too deep. -/
lemma Visits.transitions_eq_sum (hv : s.Visits r limits visited) : s.transitions =
    ((visited.filter fun l => l.depth < limits.maxDepth).map
      fun l => (r.enabled l.state).length).sum := by
  rw [hv.knows.transitions, Ring.tried, List.length_flatMap]
  simp only [Ring.length_steps]

/-- Where nothing is left out, every step of a visited lead has been taken. -/
lemma Visits.transitions_eq (hv : s.Visits r limits visited) (hcomplete : s.complete = true) :
    s.transitions = (visited.map fun l => (r.enabled l.state).length).sum := by
  have hshallow := hv.shallow hcomplete
  rw [hv.transitions_eq_sum]
  clear hv
  induction visited with
  | nil => rfl
  | cons l visited ih =>
    have hrest := ih fun m hm => hshallow m (List.mem_cons_of_mem _ hm)
    by_cases hl : l.depth < limits.maxDepth
    · simp [hl, hrest]
    · -- a lead as deep as the limit has no step
      have hstill : r.enabled l.state = [] := by
        by_contra hne
        exact hl (hshallow l List.mem_cons_self hne)
      simp [hl, hrest, hstill]

/-- Some lead has the depth that a search reports. -/
lemma Visits.exists_deepest (hv : s.Visits r limits visited) (hl : l ∈ visited) :
    ∃ m ∈ visited, m.depth = s.depth := by
  rcases hv.attained with hzero | hmax
  · have hle := hv.deepest l hl
    exact ⟨l, hl, by omega⟩
  · exact hmax

/-- **The depth that a search reports** is the greatest distance of a state that it has visited. -/
theorem Visits.isGreatest_depth (hn : 2 ≤ r.seats) (hv : s.Visits r limits visited)
    (hne : visited ≠ []) : IsGreatest {d | ∃ l ∈ visited, r.Distance l.state d} s.depth := by
  obtain ⟨l, hl⟩ := List.exists_mem_of_ne_nil visited hne
  obtain ⟨m, hm, hdepth⟩ := hv.exists_deepest hl
  refine ⟨⟨m, hm, hdepth ▸ hv.distance hn (List.mem_append_left _ hm)⟩, ?_⟩
  rintro d ⟨k, hk, hd⟩
  rw [hd.unique (hv.distance hn (List.mem_append_left _ hk))]
  exact hv.deepest k hk

/-- **What a search counts that has visited every reachable state.** -/
theorem Visits.accounts (hn : 2 ≤ r.seats) (hv : s.Visits r limits visited)
    (hreached : ∀ t, t ∈ reached ↔ r.Reachable t) (hcomplete : s.complete = true)
    (hpending : s.pending = []) (hall : ∀ t, r.Reachable t → ∃ l ∈ visited, l.state = t) :
    s.states = reached.card ∧
      s.transitions = ∑ t ∈ reached, (r.enabled t).length ∧
      IsGreatest {d | ∃ t, r.Distance t d} s.depth := by
  have hset : (visited.map Lead.state).toFinset = reached := by
    ext t
    rw [List.mem_toFinset, List.mem_map, hreached t]
    constructor
    · rintro ⟨l, hl, rfl⟩
      exact hv.reachable (List.mem_append_left _ hl)
    · exact hall t
  refine ⟨?_, ?_, ?_⟩
  · rw [← hset, hv.card_visited hpending]
  · rw [hv.transitions_eq hcomplete, ← hset,
      List.sum_toFinset _ (hv.nodup_visited hpending), List.map_map]
    rfl
  · obtain ⟨l, hl, -⟩ := hall _ (Ring.reachable_initial r)
    have hset : {d | ∃ t, r.Distance t d} = {d | ∃ l ∈ visited, r.Distance l.state d} := by
      ext d
      constructor
      · rintro ⟨t, ht⟩
        obtain ⟨l, hl, rfl⟩ := hall t (ht.reachable hn)
        exact ⟨l, hl, ht⟩
      · rintro ⟨l, -, ht⟩
        exact ⟨l.state, ht⟩
    rw [hset]
    exact hv.isGreatest_depth hn (List.ne_nil_of_mem hl)

/-! ### Inside the limits -/

/-- **A search that stays inside both limits is complete.** -/
theorem Visits.complete_of_inside (hn : 2 ≤ r.seats) (hv : s.Visits r limits visited)
    (hreached : ∀ t, t ∈ reached ↔ r.Reachable t)
    (hfarthest : IsGreatest {d | ∃ t, r.Distance t d} farthest)
    (hcard : reached.card ≤ limits.maxStates) (hdepth : farthest < limits.maxDepth) :
    s.complete = true := by
  by_contra hcomplete
  rw [Bool.not_eq_true] at hcomplete
  rcases hv.exceeded hreached hcomplete with ⟨l, hl, hdeep, -⟩ | hmany
  · have hle := hfarthest.2 ⟨_, hv.distance hn hl⟩
    omega
  · omega

/-- **A search that is complete and has found no deadlock stays inside both limits.** -/
theorem Visits.inside_of_complete (hn : 2 ≤ r.seats) (hv : s.Visits r limits visited)
    (hreached : ∀ t, t ∈ reached ↔ r.Reachable t)
    (hfarthest : IsGreatest {d | ∃ t, r.Distance t d} farthest) (hcomplete : s.complete = true)
    (hpending : s.pending = []) (hlive : ∀ l ∈ visited, r.enabled l.state ≠ []) :
    reached.card ≤ limits.maxStates ∧ farthest < limits.maxDepth := by
  have hall := fun t ht => hv.exists_visited (t := t) hcomplete hpending ht
  obtain ⟨hstates, -, hdepth⟩ := hv.accounts hn hreached hcomplete hpending hall
  constructor
  · -- the state at the start is known even without room for it, but it is not the only one
    obtain ⟨t, ht, hne⟩ := Ring.exists_reachable_ne hn
    have htwo : 1 < reached.card := Finset.one_lt_card.mpr
      ⟨t, (hreached t).mpr ht, _, (hreached _).mpr (Ring.reachable_initial r), hne⟩
    have hroom := hv.length_le
    rw [← hv.states, hstates] at hroom
    omega
  · obtain ⟨l, hl, -⟩ := hall _ (Ring.reachable_initial r)
    obtain ⟨m, hm, hdeepest⟩ := hv.exists_deepest hl
    rw [hfarthest.unique hdepth, ← hdeepest]
    exact hv.shallow hcomplete m hm (hlive m hm)

/-- A search of `uniform` that has found no deadlock is incomplete, as it would have visited
the stalemate. -/
lemma Visits.complete_eq_false {n : ℕ} (hn : 2 ≤ n)
    (hv : s.Visits ⟨n, .uniform⟩ limits visited) (hpending : s.pending = [])
    (hlive : ∀ l ∈ visited, Ring.enabled ⟨n, .uniform⟩ l.state ≠ []) : s.complete = false := by
  by_contra hcomplete
  rw [Bool.not_eq_false] at hcomplete
  obtain ⟨l, hl, hstate⟩ := hv.exists_visited hcomplete hpending
    (Ring.leadsTo_stalemate hn).reachable
  refine hlive l hl ?_
  rw [hstate]
  exact Ring.enabled_stalemate hn

lemma isDeadlockFree_result :
    (s.result r deadlock).isDeadlockFree = true ↔ s.complete = true ∧ deadlock = none := by
  simp [Exploration.isDeadlockFree, result]

end Search

/-! ### The verdict -/

/-- **The verdict of a search is exact.**  Every search of a ring of at least two gives a
result.  It says that the ring is free of deadlocks exactly when the plan is `reversedLast`,
there is room for all reachable states, and their distances are less than the limit of the
depth; then it has counted all states and steps, and each state is in order. -/
theorem explore_verdict {n : ℕ} (hn : 2 ≤ n) (plan : Plan) :
    ∃ (reached : Finset RingState) (farthest : ℕ),
      (∀ t, t ∈ reached ↔
        ∃ schedule : List ℕ, ((Simulation.begin ⟨n, plan⟩ .null).play schedule).state = t) ∧
      IsGreatest {d | ∃ t, Ring.Distance ⟨n, plan⟩ t d} farthest ∧
      ∀ limits : SearchLimits, ∃ e, explore n plan limits = .ok e ∧
        (e.isDeadlockFree = true ↔ plan = .reversedLast ∧
          reached.card ≤ limits.maxStates ∧ farthest < limits.maxDepth) ∧
        (e.isDeadlockFree = true →
          e.states = reached.card ∧ e.depth = farthest ∧
          e.transitions = ∑ t ∈ reached, (Ring.enabled ⟨n, plan⟩ t).length ∧
          ∀ t ∈ reached, Ring.check ⟨n, plan⟩ t = .ok () ∧ Ring.enabled ⟨n, plan⟩ t ≠ []) := by
  obtain ⟨reached, hreached⟩ := Ring.exists_reached (r := ⟨n, plan⟩) hn
  obtain ⟨farthest, hfarthest⟩ := Ring.exists_farthest (r := ⟨n, plan⟩) hn
  refine ⟨reached, farthest, fun t => (hreached t).trans (Ring.reachable_iff_play hn .null),
    hfarthest, fun limits => ?_⟩
  obtain ⟨visited, s, deadlock, hexplore, hv, hends⟩ :=
    Ring.explore_ends (r := ⟨n, plan⟩) hn limits
  refine ⟨s.result ⟨n, plan⟩ deadlock, ?_, ?_, ?_⟩
  · rw [explore, Ring.lay_eq_ok hn plan]
    exact hexplore
  · rw [Search.isDeadlockFree_result]
    constructor
    · rintro ⟨hcomplete, rfl⟩
      cases hends with
      | exhausted hpending hlive =>
        refine ⟨?_, hv.inside_of_complete hn hreached hfarthest hcomplete hpending hlive⟩
        cases plan with
        | reversedLast => rfl
        | uniform =>
          rw [hv.complete_eq_false hn hpending hlive] at hcomplete
          cases hcomplete
    · rintro ⟨rfl, hcard, hdepth⟩
      refine ⟨hv.complete_of_inside hn hreached hfarthest hcard hdepth, ?_⟩
      cases hends with
      | exhausted => rfl
      | @stuck before l hlast _ hstill =>
        have hl : l ∈ visited ++ s.pending := by simp [hlast]
        exact absurd hstill (Ring.enabled_ne_nil_of_reachable hn (hv.reachable hl))
  · rw [Search.isDeadlockFree_result]
    rintro ⟨hcomplete, rfl⟩
    cases hends with
    | exhausted hpending hlive =>
      have hall := fun t ht => hv.exists_visited (t := t) hcomplete hpending ht
      obtain ⟨hstates, htransitions, hdepth⟩ := hv.accounts hn hreached hcomplete hpending hall
      refine ⟨hstates, hdepth.unique hfarthest, htransitions, fun t ht => ?_⟩
      have hreachable := (hreached t).mp ht
      refine ⟨Ring.check_of_sound (hreachable.sound hn), ?_⟩
      obtain ⟨l, hl, rfl⟩ := hall t hreachable
      exact hlive l hl

/-- At a table of two: some limits suffice under `reversedLast`, and none do under
`uniform`. -/
theorem explore_verdict_at_two :
    2 ≤ 2 ∧
    (∃ limits e, explore 2 .reversedLast limits = .ok e ∧ e.isDeadlockFree = true) ∧
    ∀ limits, ∃ e, explore 2 .uniform limits = .ok e ∧ e.isDeadlockFree = false := by
  refine ⟨by decide, ?_, fun limits => ?_⟩
  · obtain ⟨reached, farthest, -, -, hverdict⟩ :=
      explore_verdict (n := 2) (by decide) .reversedLast
    obtain ⟨e, hexplore, hfree, -⟩ := hverdict ⟨farthest + 1, reached.card⟩
    exact ⟨_, e, hexplore, hfree.mpr ⟨rfl, le_rfl, Nat.lt_succ_self _⟩⟩
  · obtain ⟨reached, farthest, -, -, hverdict⟩ := explore_verdict (n := 2) (by decide) .uniform
    obtain ⟨e, hexplore, hfree, -⟩ := hverdict limits
    refine ⟨e, hexplore, Bool.eq_false_iff.mpr fun h => ?_⟩
    exact absurd (hfree.mp h).1 (by decide)

end DiningRing
