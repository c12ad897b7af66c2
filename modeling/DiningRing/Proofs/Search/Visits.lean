/-
# Visiting the states of a ring

A search takes the first pending lead, counts it as visited, and takes the steps of its seats
if the lead is not as deep as the limit.  `Search.Visits` is what holds between two leads; it
is kept in each of the three cases, a lead without a step, one too deep, and one whose steps
are taken (`Search.Visits.stop`, `Search.Visits.cut` and `Search.Visits.expand`).

A search is a tour of its leads, which says in which order it visits them and needs no fuel
(`Search.Tour`); there is only one (`Search.Tour.unique`).  The fuel of a search lasts for its tour
(`Search.Tour.run_eq`), as no more leads are visited than there is room for.  The tour ends in one of
two ways: it has visited all leads that have been met, and from all of them a seat can move, or the
last lead that it has visited is the first one from which none can (`Ring.explore_tour`).  The steps
of a search are never refused.
-/
import DiningRing.Proofs.Search.Knowledge

namespace DiningRing

namespace Search

variable {r : Ring} {limits : SearchLimits} {visited before : List Lead}
  {tried : List Lead.Step} {s s₁ s₂ : Search} {l : Lead} {i k fuel : ℕ} {t : RingState}

/-! ### The queue -/

lemma pending_of_next?_eq_some (h : s.next? = some (l, s₁)) : s.pending = l :: s₁.pending ∧
    ∃ front back, s₁ = { s with front := front, back := back } := by
  unfold next? at h
  cases hfront : s.front with
  | cons m front =>
    simp only [hfront, Option.some.injEq, Prod.mk.injEq] at h
    obtain ⟨rfl, rfl⟩ := h
    refine ⟨?_, front, s.back, rfl⟩
    rw [pending, hfront]
    rfl
  | nil =>
    cases hback : s.back.reverse with
    | nil => simp [hfront, hback] at h
    | cons m front =>
      simp only [hfront, hback, Option.some.injEq, Prod.mk.injEq] at h
      obtain ⟨rfl, rfl⟩ := h
      refine ⟨?_, front, [], rfl⟩
      rw [pending, hfront, hback, pending, List.reverse_nil, List.append_nil]
      rfl

lemma next?_eq_none_iff : s.next? = none ↔ s.pending = [] := by
  constructor
  · intro h
    unfold next? at h
    cases hfront : s.front with
    | cons m front => simp [hfront] at h
    | nil =>
      cases hback : s.back.reverse with
      | nil => rw [pending, hfront, hback, List.append_nil]
      | cons m front => simp [hfront, hback] at h
  · intro h
    cases hnext : s.next? with
    | none => rfl
    | some p =>
      obtain ⟨l, s₁⟩ := p
      rw [(pending_of_next?_eq_some hnext).1] at h
      cases h

@[simp] lemma states_meet : (s.meet k l i t).states = s.states := by
  unfold meet
  dsimp only
  split_ifs <;> rfl

@[simp] lemma depth_meet : (s.meet k l i t).depth = s.depth := by
  unfold meet
  dsimp only
  split_ifs <;> rfl

lemma complete_of_complete_meet (h : (s.meet k l i t).complete = true) : s.complete = true := by
  unfold meet at h
  dsimp only at h
  split_ifs at h
  · exact h
  · exact h

lemma expand_cons {a : Action} {rest : List ℕ} (hready : r.apply l.state i = .ok (some (a, t)))
    (hmeet : s.meet k l i t = s₁) (hrest : Search.expand r k l rest s₁ = .ok s₂) :
    Search.expand r k l (i :: rest) s = .ok s₂ := by
  rw [Search.expand, hready, ← hrest, ← hmeet]

/-! ### What a search knows, lead by lead -/

/-- Visiting a lead keeps what a search knows. -/
lemma Knows.visit (hk : s.Knows r limits visited tried) (hnext : s.next? = some (l, s₁)) :
    (s₁.visit l).Knows r limits (visited ++ [l]) tried := by
  obtain ⟨hpending, front, back, rfl⟩ := pending_of_next?_eq_some hnext
  have hleads : visited ++ [l] ++ (Search.visit { s with front := front, back := back } l).pending
      = visited ++ s.pending := by
    rw [hpending, List.append_assoc]
    rfl
  refine ⟨?_, ?_, ?_, hk.closed, hk.transitions, ?_⟩ <;> rw [hleads]
  · exact hk.met
  · exact hk.count
  · exact hk.origin
  · exact hk.cause

/-- A search that leaves out the steps of a lead is incomplete. -/
lemma Knows.cut (hk : s.Knows r limits visited tried) (hl : l ∈ visited ++ s.pending)
    (hdepth : limits.maxDepth ≤ l.depth) (hlive : r.enabled l.state ≠ []) :
    ({ s with complete := false } : Search).Knows r limits visited tried := by
  refine ⟨hk.met, hk.count, hk.origin, fun x hx a ha => ?_, hk.transitions, fun _ => ?_⟩
  · rcases hk.closed x hx a ha with hknown | ⟨-, hfull⟩
    · exact .inl hknown
    · exact .inr ⟨rfl, hfull⟩
  · exact .inl ⟨l, hl, hdepth, hlive⟩

/-- **The steps of a lead**, of those seats that are left: none is refused, and they keep what
the search knows. -/
theorem Knows.expand (hn : 2 ≤ r.seats) (hdepth : l.depth < limits.maxDepth) {done rest : List ℕ}
    (hseats : r.enabled l.state = done ++ rest)
    (hk : s.Knows r limits (before ++ [l])
      (r.tried limits before ++ done.map (Lead.Step.mk l))) :
    ∃ s₁, Search.expand r limits.maxStates l rest s = .ok s₁ ∧
      s₁.Knows r limits (before ++ [l]) (r.tried limits before ++ r.steps l) ∧
      s₁.states = s.states ∧ s₁.depth = s.depth ∧ (s₁.complete = true → s.complete = true) := by
  induction rest generalizing done s with
  | nil =>
    rw [List.append_nil] at hseats
    rw [← hseats] at hk
    exact ⟨s, rfl, hk, rfl, rfl, id⟩
  | cons i rest ih =>
    have hl : l ∈ before ++ [l] ++ s.pending := by simp
    have hmem : i ∈ r.enabled l.state := by simp [hseats]
    obtain ⟨hi, a, ha⟩ := Ring.mem_enabled_iff.mp hmem
    have hsound := (hk.met.exact l hl).first.leads.sound hn
    have hmet := hk.met
    rw [← List.append_cons] at hmet
    have hupto := hmet.upto hdepth hseats
    rw [List.append_cons] at hupto
    have hmeet := hk.meet hl hdepth hi ha hupto
    rw [List.append_assoc, ← List.map_singleton, ← List.map_append] at hmeet
    rw [List.append_cons] at hseats
    obtain ⟨s₁, hexpand, hk₁, hstates, hdeep, hcomplete⟩ := ih hseats hmeet
    refine ⟨s₁, ?_, hk₁, ?_, ?_, fun h => complete_of_complete_meet (hcomplete h)⟩
    · exact expand_cons (Ring.apply_of_ready hsound hi ha) rfl hexpand
    · rw [hstates, states_meet]
    · rw [hdeep, depth_meet]

/-! ### Between two leads -/

/-- A search that has visited some leads. -/
structure Visits (r : Ring) (limits : SearchLimits) (visited : List Lead) (s : Search) :
    Prop where
  knows : s.Knows r limits visited (r.tried limits visited)
  states : s.states = visited.length
  deepest : ∀ l ∈ visited, l.depth ≤ s.depth
  attained : s.depth = 0 ∨ ∃ l ∈ visited, l.depth = s.depth
  /-- Leads as deep as the limit are only passed over if no seat can move from there. -/
  shallow : s.complete = true →
    ∀ l ∈ visited, r.enabled l.state ≠ [] → l.depth < limits.maxDepth

lemma visits_start (r : Ring) (limits : SearchLimits) : (start r).Visits r limits [] where
  knows := knows_start r limits
  states := rfl
  deepest := by simp
  attained := .inl rfl
  shallow := by simp

/-- What is counted of a lead, whatever comes of its steps. -/
lemma Visits.concat (hv : s.Visits r limits visited) (hnext : s.next? = some (l, s₁))
    (hknows : s₂.Knows r limits (visited ++ [l]) (r.tried limits (visited ++ [l])))
    (hstates : s₂.states = (s₁.visit l).states) (hdepth : s₂.depth = (s₁.visit l).depth)
    (hcomplete : s₂.complete = true → s₁.complete = true ∧
      (r.enabled l.state ≠ [] → l.depth < limits.maxDepth)) :
    s₂.Visits r limits (visited ++ [l]) := by
  obtain ⟨-, front, back, rfl⟩ := pending_of_next?_eq_some hnext
  have hdepth : s₂.depth = max s.depth l.depth := hdepth
  refine ⟨hknows, ?_, fun m hm => ?_, ?_, fun h m hm => ?_⟩
  · rw [hstates, List.length_append, List.length_singleton, ← hv.states]
    rfl
  · rw [hdepth]
    rcases List.mem_append.mp hm with hm | hm
    · exact (hv.deepest m hm).trans (le_max_left _ _)
    · obtain rfl := List.mem_singleton.mp hm
      exact le_max_right _ _
  · rw [hdepth]
    rcases le_total s.depth l.depth with hle | hle
    · exact .inr ⟨l, by simp, (max_eq_right hle).symm⟩
    · rw [max_eq_left hle]
      rcases hv.attained with hzero | ⟨m, hm, hmax⟩
      · exact .inl hzero
      · exact .inr ⟨m, List.mem_append_left _ hm, hmax⟩
  · rcases List.mem_append.mp hm with hm | hm
    · exact hv.shallow (hcomplete h).1 m hm
    · obtain rfl := List.mem_singleton.mp hm
      exact (hcomplete h).2

/-- A lead from which no seat can move. -/
lemma Visits.stop (hv : s.Visits r limits visited) (hnext : s.next? = some (l, s₁))
    (hstuck : r.enabled l.state = []) : (s₁.visit l).Visits r limits (visited ++ [l]) := by
  refine hv.concat hnext ?_ rfl rfl fun h => ⟨h, fun hlive => absurd hstuck hlive⟩
  rw [Ring.tried_concat_of_enabled_eq_nil hstuck]
  exact hv.knows.visit hnext

/-- A lead as deep as the limit. -/
lemma Visits.cut (hv : s.Visits r limits visited) (hnext : s.next? = some (l, s₁))
    (hdepth : limits.maxDepth ≤ l.depth) (hlive : r.enabled l.state ≠ []) :
    ({ s₁.visit l with complete := false } : Search).Visits r limits (visited ++ [l]) := by
  refine hv.concat hnext ?_ rfl rfl fun h => absurd h Bool.false_ne_true
  rw [Ring.tried_concat_of_le hdepth]
  exact (hv.knows.visit hnext).cut (by simp) hdepth hlive

/-- A lead whose steps are taken. -/
lemma Visits.expand (hn : 2 ≤ r.seats) (hv : s.Visits r limits visited)
    (hnext : s.next? = some (l, s₁)) (hdepth : l.depth < limits.maxDepth) :
    ∃ s₂, Search.expand r limits.maxStates l (r.enabled l.state) (s₁.visit l) = .ok s₂ ∧
      s₂.Visits r limits (visited ++ [l]) := by
  have hk := hv.knows.visit hnext
  rw [← List.append_nil (r.tried limits visited), ← List.map_nil (f := Lead.Step.mk l)] at hk
  obtain ⟨s₂, hexpand, hk₂, hstates, hdeep, hcomplete⟩ :=
    hk.expand hn hdepth (List.nil_append _).symm
  refine ⟨s₂, hexpand, hv.concat hnext ?_ hstates hdeep fun h => ⟨hcomplete h, fun _ => hdepth⟩⟩
  rw [Ring.tried_concat_of_lt hdepth]
  exact hk₂

/-! ### Tours -/

/-- The leads that a search visits, in order, and its result in the end.  A lead is in order, and
either no seat can move from there, or it is too deep, or its steps are taken. -/
inductive Tour (r : Ring) (limits : SearchLimits) : Search → List Lead → Exploration → Prop where
  | ended {s : Search} (empty : s.next? = none) : Tour r limits s [] (s.result r none)
  | stuck {s s₁ : Search} {l : Lead} (next : s.next? = some (l, s₁))
      (verified : r.verify l.state l.depth = .ok ()) (still : r.enabled l.state = []) :
      Tour r limits s [l] ((s₁.visit l).result r (some l.schedule))
  | cut {s s₁ : Search} {l : Lead} {visited : List Lead} {e : Exploration}
      (next : s.next? = some (l, s₁)) (verified : r.verify l.state l.depth = .ok ())
      (live : r.enabled l.state ≠ []) (deep : limits.maxDepth ≤ l.depth)
      (rest : Tour r limits { s₁.visit l with complete := false } visited e) :
      Tour r limits s (l :: visited) e
  | goes {s s₁ s₂ : Search} {l : Lead} {visited : List Lead} {e : Exploration}
      (next : s.next? = some (l, s₁)) (verified : r.verify l.state l.depth = .ok ())
      (live : r.enabled l.state ≠ []) (shallow : l.depth < limits.maxDepth)
      (expanded : expand r limits.maxStates l (r.enabled l.state) (s₁.visit l) = .ok s₂)
      (rest : Tour r limits s₂ visited e) : Tour r limits s (l :: visited) e

/-- What a search does with a lead that is in order and from which a seat can move. -/
lemma run_succ (hnext : s.next? = some (l, s₁)) (hverified : r.verify l.state l.depth = .ok ())
    (hlive : r.enabled l.state ≠ []) (fuel : ℕ) :
    Search.run r limits (fuel + 1) s =
      if limits.maxDepth ≤ l.depth then
        Search.run r limits fuel { s₁.visit l with complete := false }
      else
        match expand r limits.maxStates l (r.enabled l.state) (s₁.visit l) with
        | .error e => .error e
        | .ok s₂ => Search.run r limits fuel s₂ := by
  simp only [Search.run, hnext, hverified]
  cases hseats : r.enabled l.state with
  | nil => exact absurd hseats hlive
  | cons seat seats => rfl

/-- **A search is a tour of its leads**, if there is fuel for all of them. -/
theorem Tour.run_eq {e : Exploration} (h : s.Tour r limits visited e)
    (hfuel : visited.length ≤ fuel) : Search.run r limits fuel s = .ok e := by
  induction h generalizing fuel with
  | ended hempty =>
    cases fuel with
    | zero => rfl
    | succ fuel => rw [Search.run, hempty]
  | stuck hnext hverified hstill =>
    obtain ⟨fuel, rfl⟩ := Nat.exists_eq_add_of_le' hfuel
    simp only [List.length_singleton, Search.run, hnext, hverified, hstill]
    rfl
  | cut hnext hverified hlive hdeep _ ih =>
    obtain ⟨fuel, rfl⟩ := Nat.exists_eq_add_of_le' (Nat.one_le_of_lt hfuel)
    rw [run_succ hnext hverified hlive, if_pos hdeep]
    exact ih (Nat.le_of_succ_le_succ hfuel)
  | goes hnext hverified hlive hshallow hexpanded _ ih =>
    obtain ⟨fuel, rfl⟩ := Nat.exists_eq_add_of_le' (Nat.one_le_of_lt hfuel)
    rw [run_succ hnext hverified hlive, if_neg (Nat.not_le.mpr hshallow), hexpanded]
    exact ih (Nat.le_of_succ_le_succ hfuel)

/-- **A search makes one tour.** -/
theorem Tour.unique {visited' : List Lead} {e e' : Exploration} (h : s.Tour r limits visited e)
    (h' : s.Tour r limits visited' e') : visited = visited' ∧ e = e' := by
  induction h generalizing visited' with
  | ended hempty =>
    cases h' with
    | ended => exact ⟨rfl, rfl⟩
    | stuck hnext | cut hnext | goes hnext => cases hempty.symm.trans hnext
  | stuck hnext _ hstill =>
    cases h' with
    | ended hempty => cases hempty.symm.trans hnext
    | stuck hnext' =>
      cases hnext.symm.trans hnext'
      exact ⟨rfl, rfl⟩
    | cut hnext' _ hlive | goes hnext' _ hlive =>
      cases hnext.symm.trans hnext'
      exact absurd hstill hlive
  | cut hnext _ hlive hdeep _ ih =>
    cases h' with
    | ended hempty => cases hempty.symm.trans hnext
    | stuck hnext' _ hstill =>
      cases hnext.symm.trans hnext'
      exact absurd hstill hlive
    | cut hnext' _ _ _ hrest =>
      cases hnext.symm.trans hnext'
      obtain ⟨rfl, rfl⟩ := ih hrest
      exact ⟨rfl, rfl⟩
    | goes hnext' _ _ hshallow =>
      cases hnext.symm.trans hnext'
      exact absurd hdeep (Nat.not_le.mpr hshallow)
  | goes hnext _ hlive hshallow hexpanded _ ih =>
    cases h' with
    | ended hempty => cases hempty.symm.trans hnext
    | stuck hnext' _ hstill =>
      cases hnext.symm.trans hnext'
      exact absurd hstill hlive
    | cut hnext' _ _ hdeep =>
      cases hnext.symm.trans hnext'
      exact absurd hdeep (Nat.not_le.mpr hshallow)
    | goes hnext' _ _ _ hexpanded' hrest =>
      cases hnext.symm.trans hnext'
      cases hexpanded.symm.trans hexpanded'
      obtain ⟨rfl, rfl⟩ := ih hrest
      exact ⟨rfl, rfl⟩

/-! ### The whole search -/

/-- How a search ends that has visited some leads, and the schedule that it reports. -/
inductive Ends (r : Ring) (visited : List Lead) (s : Search) : Option (List ℕ) → Prop where
  /-- All leads have been visited, and a seat can move from each. -/
  | exhausted (pending : s.pending = []) (live : ∀ l ∈ visited, r.enabled l.state ≠ []) :
      Ends r visited s none
  /-- From the last lead, and from none before it, no seat can move. -/
  | stuck {before : List Lead} {l : Lead} (last : visited = before ++ [l])
      (live : ∀ m ∈ before, r.enabled m.state ≠ []) (still : r.enabled l.state = []) :
      Ends r visited s (some l.schedule)

/-- No more leads are visited than there are states known. -/
lemma Visits.length_le (hv : s.Visits r limits visited) :
    visited.length + s.pending.length ≤ max 1 limits.maxStates := by
  have hcap := hv.knows.met.cap
  rwa [List.length_append] at hcap

/-- **A search makes a tour**, after which it has visited the leads of the tour and those from
before. -/
theorem Visits.tour (hn : 2 ≤ r.seats) (hv : s.Visits r limits visited)
    (hlive : ∀ l ∈ visited, r.enabled l.state ≠ []) :
    ∃ (later : List Lead) (s' : Search) (deadlock : Option (List ℕ)),
      s.Tour r limits later (s'.result r deadlock) ∧
      s'.Visits r limits (visited ++ later) ∧ s'.Ends r (visited ++ later) deadlock := by
  obtain ⟨room, hroom⟩ : ∃ room, max 1 limits.maxStates ≤ room + visited.length :=
    ⟨_, Nat.le_add_right _ _⟩
  -- each lead that is visited takes up room, of which there is only so much
  induction room generalizing s visited with
  | zero =>
    have hpending : s.pending = [] := by
      have hlength := hv.length_le
      exact List.eq_nil_of_length_eq_zero (by omega)
    exact ⟨[], s, none, .ended (next?_eq_none_iff.mpr hpending), by rwa [List.append_nil],
      .exhausted hpending (by rwa [List.append_nil])⟩
  | succ room ih =>
    cases hnext : s.next? with
    | none =>
      exact ⟨[], s, none, .ended hnext, by rwa [List.append_nil],
        .exhausted (next?_eq_none_iff.mp hnext) (by rwa [List.append_nil])⟩
    | some p =>
      obtain ⟨l, s₁⟩ := p
      have hl := (hv.knows.visit hnext).met.exact l (by simp)
      have hverified := Ring.verify_of_sound (hl.first.leads.sound hn) l.depth
      have hlength : (visited ++ [l]).length = visited.length + 1 := by simp
      by_cases hstill : r.enabled l.state = []
      · exact ⟨[l], s₁.visit l, some l.schedule, .stuck hnext hverified hstill,
          hv.stop hnext hstill, .stuck rfl hlive hstill⟩
      have hlive' : ∀ m ∈ visited ++ [l], r.enabled m.state ≠ [] := by
        intro m hm
        rcases List.mem_append.mp hm with hm | hm
        · exact hlive m hm
        · obtain rfl := List.mem_singleton.mp hm
          exact hstill
      by_cases hdeep : limits.maxDepth ≤ l.depth
      · obtain ⟨later, s', deadlock, hrest, hends⟩ :=
          ih (hv.cut hnext hdeep hstill) hlive' (by omega)
        rw [List.append_assoc] at hends
        exact ⟨l :: later, s', deadlock, .cut hnext hverified hstill hdeep hrest, hends⟩
      · have hshallow := Nat.lt_of_not_le hdeep
        obtain ⟨s₂, hexpanded, hv₂⟩ := hv.expand hn hnext hshallow
        obtain ⟨later, s', deadlock, hrest, hends⟩ := ih hv₂ hlive' (by omega)
        rw [List.append_assoc] at hends
        exact ⟨l :: later, s', deadlock, .goes hnext hverified hstill hshallow hexpanded hrest,
          hends⟩

end Search

/-- **The search of a ring.**  It visits leads one after another and comes to an end.  No step of it
is refused. -/
theorem Ring.explore_tour {r : Ring} (hn : 2 ≤ r.seats) (limits : SearchLimits) :
    ∃ (visited : List Lead) (s : Search) (deadlock : Option (List ℕ)),
      r.explore limits = .ok (s.result r deadlock) ∧
      (Search.start r).Tour r limits visited (s.result r deadlock) ∧
      s.Visits r limits visited ∧ s.Ends r visited deadlock := by
  obtain ⟨visited, s, deadlock, htour, hv, hends⟩ :=
    (Search.visits_start r limits).tour hn (by simp)
  rw [List.nil_append] at hv hends
  have hroom := hv.length_le
  exact ⟨visited, s, deadlock, htour.run_eq (by omega), htour, hv, hends⟩

/-- **How a search of a ring ends.** -/
theorem Ring.explore_ends {r : Ring} (hn : 2 ≤ r.seats) (limits : SearchLimits) :
    ∃ (visited : List Lead) (s : Search) (deadlock : Option (List ℕ)),
      r.explore limits = .ok (s.result r deadlock) ∧
      s.Visits r limits visited ∧ s.Ends r visited deadlock := by
  obtain ⟨visited, s, deadlock, hexplore, -, hends⟩ := r.explore_tour hn limits
  exact ⟨visited, s, deadlock, hexplore, hends⟩

end DiningRing
