/-
# What a search has found out

A search meets states along their first schedules, and in the order of these.  That is an
invariant of its queue (`Ring.Met`): at any moment the leads met so far, visited or pending,
are in this order, and every schedule that is nearer than one of theirs leads to a state
already met.  So whenever a step leads to a state that has not been met, the schedule of the
lead and the step is the first one to that state (`Ring.Met.known_of_nearer`).

The steps are taken in the order of their schedules, too (`Upto`), and each of them leads to a
state that is known afterwards, unless there is no room for it (`Search.Knows`).  The limit on
the depth only shows in the steps that are not taken (`Ring.tried`).
-/
import DiningRing.Explore
import DiningRing.Proofs.Search.Schedules

namespace DiningRing

/-! ### Leads and steps -/

/-- The schedule of a lead, the first seat first. -/
def Lead.schedule (l : Lead) : List ℕ := l.path.reverse

/-- The lead to the state that a step of a seat leads to. -/
def Lead.next (l : Lead) (seat : ℕ) (state : RingState) : Lead :=
  ⟨state, seat :: l.path, l.depth + 1⟩

lemma Lead.schedule_next (l : Lead) (i : ℕ) (t : RingState) :
    (l.next i t).schedule = l.schedule ++ [i] := List.reverse_cons

/-- A lead with the first schedule to its state. -/
structure Lead.Exact (r : Ring) (l : Lead) : Prop where
  first : r.First l.schedule l.state
  depth : l.depth = l.schedule.length

/-- A step of a seat out of the state of a lead. -/
structure Lead.Step where
  lead : Lead
  seat : ℕ

/-- The schedule of a lead and a step from there. -/
def Lead.Step.schedule (x : Lead.Step) : List ℕ := x.lead.schedule ++ [x.seat]

namespace Ring

/-- The steps out of the state of a lead, in the order of the seats. -/
def steps (r : Ring) (l : Lead) : List Lead.Step := (r.enabled l.state).map (Lead.Step.mk l)

/-- The steps that a search takes from the leads that it has visited. -/
def tried (r : Ring) (limits : SearchLimits) (visited : List Lead) : List Lead.Step :=
  (visited.filter fun l => l.depth < limits.maxDepth).flatMap r.steps

variable {r : Ring} {limits : SearchLimits} {visited : List Lead} {l : Lead} {x : Lead.Step}

lemma length_steps (r : Ring) (l : Lead) : (r.steps l).length = (r.enabled l.state).length :=
  List.length_map _

lemma mem_steps_iff : x ∈ r.steps l ↔ x.lead = l ∧ x.seat ∈ r.enabled l.state := by
  obtain ⟨m, i⟩ := x
  simp only [steps, List.mem_map, Lead.Step.mk.injEq]
  constructor
  · rintro ⟨j, hj, rfl, rfl⟩
    exact ⟨rfl, hj⟩
  · rintro ⟨rfl, hi⟩
    exact ⟨i, hi, rfl, rfl⟩

lemma mem_tried_iff : x ∈ r.tried limits visited ↔
    x.lead ∈ visited ∧ x.lead.depth < limits.maxDepth ∧ x.seat ∈ r.enabled x.lead.state := by
  simp only [tried, List.mem_flatMap, List.mem_filter, decide_eq_true_eq, mem_steps_iff]
  constructor
  · rintro ⟨l, ⟨hl, hdepth⟩, rfl, hseat⟩
    exact ⟨hl, hdepth, hseat⟩
  · rintro ⟨hl, hdepth, hseat⟩
    exact ⟨x.lead, ⟨hl, hdepth⟩, rfl, hseat⟩

lemma tried_concat_of_lt (hl : l.depth < limits.maxDepth) :
    r.tried limits (visited ++ [l]) = r.tried limits visited ++ r.steps l := by
  simp [tried, hl]

lemma tried_concat_of_le (hl : limits.maxDepth ≤ l.depth) :
    r.tried limits (visited ++ [l]) = r.tried limits visited := by
  simp [tried, Nat.not_lt.mpr hl]

lemma steps_of_enabled_eq_nil (h : r.enabled l.state = []) : r.steps l = [] := by
  simp [steps, h]

lemma tried_concat_of_enabled_eq_nil (h : r.enabled l.state = []) :
    r.tried limits (visited ++ [l]) = r.tried limits visited := by
  by_cases hl : l.depth < limits.maxDepth
  · rw [tried_concat_of_lt hl, steps_of_enabled_eq_nil h, List.append_nil]
  · exact tried_concat_of_le (Nat.not_lt.mp hl)

/-- The seats that can move are in ascending order. -/
lemma pairwise_enabled (r : Ring) (s : RingState) : (r.enabled s).Pairwise (· < ·) :=
  List.pairwise_lt_range.filter _

/-! ### The states met so far -/

/-- The leads that a search has met, in the order in which it met them, and the states that it
knows of. -/
structure Met (r : Ring) (limits : SearchLimits) (leads : List Lead)
    (known : Std.HashSet RingState) : Prop where
  exact : ∀ l ∈ leads, l.Exact r
  within : ∀ l ∈ leads, l.depth ≤ limits.maxDepth
  order : leads.Pairwise fun l m => Nearer l.schedule m.schedule
  contains_iff : ∀ t, known.contains t = true ↔ ∃ l ∈ leads, l.state = t
  cap : leads.length ≤ max 1 limits.maxStates
  start : known.contains r.initial = true
  /-- Nearer schedules than that of a lead lead to states already known. -/
  earlier : ∀ l ∈ leads, ∀ w t, r.LeadsTo w t → Nearer w l.schedule → known.contains t = true

section

variable {leads before after : List Lead} {known : Std.HashSet RingState} {m : Lead}
  {w : List ℕ} {t : RingState}

/-- Before any state has been visited. -/
lemma met_initial (r : Ring) (limits : SearchLimits) :
    r.Met limits [⟨r.initial, [], 0⟩] ((∅ : Std.HashSet RingState).insert r.initial) where
  exact := by
    intro l hl
    obtain rfl := List.mem_singleton.mp hl
    exact ⟨first_initial r, rfl⟩
  within := by
    intro l hl
    obtain rfl := List.mem_singleton.mp hl
    exact Nat.zero_le _
  order := List.pairwise_singleton _ _
  contains_iff := by
    intro t
    rw [Std.HashSet.contains_insert, Std.HashSet.contains_empty, Bool.or_false, beq_iff_eq]
    simp
  cap := le_max_left _ _
  start := by simp
  earlier := by
    intro l hl w t _ hnearer
    obtain rfl := List.mem_singleton.mp hl
    exact absurd hnearer not_nearer_nil

/-- Leads with one schedule are one lead. -/
lemma Met.eq_of_schedule_eq (hm : r.Met limits leads known) (hl : l ∈ leads) (hm' : m ∈ leads)
    (h : l.schedule = m.schedule) : l = m := by
  have hstate : l.state = m.state := by
    have hleads := (hm.exact l hl).first.leads
    rw [h] at hleads
    exact hleads.unique (hm.exact m hm').first.leads
  have hpath : l.path = m.path := List.reverse_injective h
  have hdepth : l.depth = m.depth := by rw [(hm.exact l hl).depth, (hm.exact m hm').depth, h]
  cases l
  cases m
  simp_all

lemma Met.depth_le (hm : r.Met limits (before ++ l :: after) known) (hb : m ∈ before) :
    m.depth ≤ l.depth := by
  have hl := hm.exact l (by simp)
  have hm' := hm.exact m (List.mem_append_left _ hb)
  have hnearer : Nearer m.schedule l.schedule :=
    (List.pairwise_append.mp hm.order).2.2 m hb l List.mem_cons_self
  rw [hl.depth, hm'.depth]
  rcases nearer_iff.mp hnearer with hlt | ⟨heq, -⟩
  · exact hlt.le
  · exact heq.le

/-- Whatever is not after a lead and not the lead itself is before it. -/
lemma Met.mem_before (hm : r.Met limits (before ++ l :: after) known)
    (hmem : m ∈ before ++ l :: after) (hnearer : Nearer m.schedule l.schedule) : m ∈ before := by
  rcases List.mem_append.mp hmem with hb | hmem
  · exact hb
  · rcases List.mem_cons.mp hmem with rfl | ha
    · exact absurd hnearer not_nearer_self
    · have hafter := (List.pairwise_cons.mp (List.pairwise_append.mp hm.order).2.1).1 m ha
      exact absurd (hafter.trans hnearer) not_nearer_self

/-- **Nearer schedules lead to known states**, if all steps with nearer schedules do. -/
theorem Met.known_of_nearer (hm : r.Met limits leads known)
    (hsteps : ∀ l ∈ leads, ∀ i a, i < r.seats → r.Ready l.state i a →
      Nearer (l.schedule ++ [i]) w → known.contains (r.perform l.state i a) = true)
    {v : List ℕ} (hv : r.LeadsTo v t) (hnearer : Nearer v w) : known.contains t = true := by
  induction hv with
  | start => exact hm.start
  | @move v s i a hbefore hi hready ih =>
    have hknown := ih ((nearer_concat v i).trans hnearer)
    obtain ⟨l, hl, rfl⟩ := (hm.contains_iff s).mp hknown
    -- the lead to the state has a schedule at least as near
    refine hsteps l hl i a hi hready ?_
    rcases (hm.exact l hl).first.eq_or_nearer hbefore with heq | hlt
    · rwa [heq]
    · exact (nearer_concat_iff.mpr (.inl hlt)).trans hnearer

/-- **A state that is new is met along its first schedule.** -/
theorem Met.add (hm : r.Met limits leads known) (hleads : r.LeadsTo l.schedule l.state)
    (hdepth : l.depth = l.schedule.length) (hwithin : l.depth ≤ limits.maxDepth)
    (hnew : known.contains l.state = false) (hroom : leads.length < limits.maxStates)
    (hlast : ∀ m ∈ leads, Nearer m.schedule l.schedule)
    (hsteps : ∀ m ∈ leads, ∀ i a, i < r.seats → r.Ready m.state i a →
      Nearer (m.schedule ++ [i]) l.schedule → known.contains (r.perform m.state i a) = true) :
    r.Met limits (leads ++ [l]) (known.insert l.state) where
  exact := by
    intro m hmem
    rcases List.mem_append.mp hmem with hmem | hmem
    · exact hm.exact m hmem
    · obtain rfl := List.mem_singleton.mp hmem
      refine ⟨⟨hleads, fun v hv hnearer => ?_⟩, hdepth⟩
      have hknown := hm.known_of_nearer hsteps hv hnearer
      rw [hnew] at hknown
      exact Bool.false_ne_true hknown
  within := by
    intro m hmem
    rcases List.mem_append.mp hmem with hmem | hmem
    · exact hm.within m hmem
    · obtain rfl := List.mem_singleton.mp hmem
      exact hwithin
  order := by
    refine List.pairwise_append.mpr ⟨hm.order, List.pairwise_singleton _ _, fun m hmem k hk => ?_⟩
    obtain rfl := List.mem_singleton.mp hk
    exact hlast m hmem
  contains_iff := by
    intro t
    rw [Std.HashSet.contains_insert, Bool.or_eq_true, hm.contains_iff t, beq_iff_eq]
    constructor
    · rintro (rfl | ⟨m, hmem, rfl⟩)
      · exact ⟨l, by simp, rfl⟩
      · exact ⟨m, List.mem_append_left _ hmem, rfl⟩
    · rintro ⟨m, hmem, rfl⟩
      rcases List.mem_append.mp hmem with hmem | hmem
      · exact .inr ⟨m, hmem, rfl⟩
      · obtain rfl := List.mem_singleton.mp hmem
        exact .inl rfl
  cap := by
    rw [List.length_append, List.length_singleton]
    exact (Nat.succ_le_of_lt hroom).trans (le_max_right _ _)
  start := by
    rw [Std.HashSet.contains_insert, hm.start, Bool.or_true]
  earlier := by
    intro m hmem v t hv hnearer
    rw [Std.HashSet.contains_insert, Bool.or_eq_true]
    right
    rcases List.mem_append.mp hmem with hmem | hmem
    · exact hm.earlier m hmem v t hv hnearer
    · obtain rfl := List.mem_singleton.mp hmem
      exact hm.known_of_nearer hsteps hv hnearer

/-- The states met are different ones. -/
lemma Met.nodup_states (hm : r.Met limits leads known) : (leads.map Lead.state).Nodup := by
  rw [List.nodup_iff_pairwise_ne, List.pairwise_map]
  refine hm.order.imp_of_mem fun hl hm' hnearer heq => ?_
  have hfirst := (hm.exact _ hl).first
  rw [heq] at hfirst
  rw [hfirst.unique (hm.exact _ hm').first] at hnearer
  exact not_nearer_self hnearer

end

end Ring

/-! ### The steps taken so far -/

/-- The steps taken are those with nearer schedules than a given one. -/
structure Upto (r : Ring) (leads : List Lead) (tried : List Lead.Step) (w : List ℕ) : Prop where
  nearer : ∀ x ∈ tried, Nearer x.schedule w
  all : ∀ l ∈ leads, ∀ i ∈ r.enabled l.state, Nearer (l.schedule ++ [i]) w → ⟨l, i⟩ ∈ tried

/-- The steps of a lead are taken after those of all leads before it, and seat by seat. -/
lemma Ring.Met.upto {r : Ring} {limits : SearchLimits} {before after : List Lead} {l : Lead}
    {known : Std.HashSet RingState} {done rest : List ℕ} {i : ℕ}
    (hm : r.Met limits (before ++ l :: after) known) (hl : l.depth < limits.maxDepth)
    (hseats : r.enabled l.state = done ++ i :: rest) :
    Upto r (before ++ l :: after) (r.tried limits before ++ done.map (Lead.Step.mk l))
      (l.schedule ++ [i]) where
  nearer := by
    intro x hx
    rcases List.mem_append.mp hx with hx | hx
    · have hb := (mem_tried_iff.mp hx).1
      have hnearer := (List.pairwise_append.mp hm.order).2.2 x.lead hb l List.mem_cons_self
      exact nearer_concat_iff.mpr (.inl hnearer)
    · obtain ⟨j, hj, rfl⟩ := List.mem_map.mp hx
      have hpair := r.pairwise_enabled l.state
      rw [hseats] at hpair
      have hji := (List.pairwise_append.mp hpair).2.2 j hj i List.mem_cons_self
      exact nearer_concat_iff.mpr (.inr ⟨rfl, hji⟩)
  all := by
    intro m hmem j hj hnearer
    rcases nearer_concat_iff.mp hnearer with hlt | ⟨heq, hji⟩
    · have hb := hm.mem_before hmem hlt
      refine List.mem_append_left _ (mem_tried_iff.mpr ⟨hb, ?_, hj⟩)
      exact (hm.depth_le hb).trans_lt hl
    · obtain rfl := hm.eq_of_schedule_eq hmem (by simp) heq
      refine List.mem_append_right _ (List.mem_map.mpr ⟨j, ?_, rfl⟩)
      -- of the seats that can move, those below `i` are done
      rw [hseats] at hj
      have hpair := r.pairwise_enabled m.state
      rw [hseats] at hpair
      rcases List.mem_append.mp hj with hj | hj
      · exact hj
      · rcases List.mem_cons.mp hj with rfl | hj
        · exact absurd hji (Nat.lt_irrefl _)
        · have hij := (List.pairwise_cons.mp (List.pairwise_append.mp hpair).2.1).1 j hj
          omega

namespace Search

/-! ### Steps of a search -/

section

variable {s : Search} {l : Lead} {i k : ℕ} {t : RingState}

lemma meet_of_known (hknown : s.known.contains t = true) :
    s.meet k l i t = { s with transitions := s.transitions + 1 } := if_pos hknown

lemma meet_of_full (hnew : s.known.contains t = false) (hfull : k ≤ s.knownCount) :
    s.meet k l i t = { s with transitions := s.transitions + 1, complete := false } := by
  rw [meet, if_neg (ne_true_of_eq_false hnew), if_pos hfull]

lemma meet_of_new (hnew : s.known.contains t = false) (hroom : s.knownCount < k) :
    s.meet k l i t = { s with
      transitions := s.transitions + 1
      back := l.next i t :: s.back
      known := s.known.insert t
      knownCount := s.knownCount + 1 } := by
  rw [meet, if_neg (ne_true_of_eq_false hnew), if_neg (Nat.not_le.mpr hroom)]
  rfl

end

/-! ### What a search knows -/

/-- What a search knows that has visited some leads and taken some steps from them. -/
structure Knows (r : Ring) (limits : SearchLimits) (visited : List Lead)
    (tried : List Lead.Step) (s : Search) : Prop where
  met : r.Met limits (visited ++ s.pending) s.known
  count : s.knownCount = (visited ++ s.pending).length
  /-- A lead other than the first one was met by a step. -/
  origin : ∀ l ∈ visited ++ s.pending, l.schedule = [] ∨ ∃ x ∈ tried, l.schedule = x.schedule
  /-- A step leads to a known state, unless there was no room for it. -/
  closed : ∀ x ∈ tried, ∀ a, r.Ready x.lead.state x.seat a →
    s.known.contains (r.perform x.lead.state x.seat a) = true
      ∨ s.complete = false ∧ limits.maxStates ≤ s.knownCount
  transitions : s.transitions = tried.length
  /-- A search is incomplete only if a limit has come into effect. -/
  cause : s.complete = false →
    (∃ l ∈ visited ++ s.pending, limits.maxDepth ≤ l.depth ∧ r.enabled l.state ≠ [])
      ∨ limits.maxStates ≤ s.knownCount ∧ ∃ t, r.Reachable t ∧ s.known.contains t = false

section

variable {r : Ring} {limits : SearchLimits} {visited : List Lead} {tried : List Lead.Step}
  {s s₁ : Search} {l : Lead} {i : ℕ} {a : Action}

lemma knows_start (r : Ring) (limits : SearchLimits) : (start r).Knows r limits [] [] where
  met := Ring.met_initial r limits
  count := rfl
  origin := by
    intro l hl
    obtain rfl := List.mem_singleton.mp hl
    exact .inl rfl
  closed := by simp
  transitions := rfl
  cause := by simp [start]

lemma Knows.origin_concat (hk : s.Knows r limits visited tried) (x : Lead.Step) :
    ∀ m ∈ visited ++ s.pending, m.schedule = [] ∨ ∃ y ∈ tried ++ [x], m.schedule = y.schedule := by
  intro m hm
  rcases hk.origin m hm with hnil | ⟨y, hy, heq⟩
  · exact .inl hnil
  · exact .inr ⟨y, List.mem_append_left _ hy, heq⟩

lemma Knows.transitions_concat (hk : s.Knows r limits visited tried) (x : Lead.Step) :
    s.transitions + 1 = (tried ++ [x]).length := by
  rw [hk.transitions, List.length_append, List.length_singleton]

/-- A step keeps what a search knows, if it leads to a state that is new and has room. -/
lemma Knows.meet_new (hk : s.Knows r limits visited tried) (hl : l ∈ visited ++ s.pending)
    (hdepth : l.depth < limits.maxDepth) (hi : i < r.seats) (ha : r.Ready l.state i a)
    (hupto : Upto r (visited ++ s.pending) tried (l.schedule ++ [i]))
    (hnew : s.known.contains (r.perform l.state i a) = false)
    (hroom : s.knownCount < limits.maxStates) :
    ({ s with
      transitions := s.transitions + 1
      back := l.next i (r.perform l.state i a) :: s.back
      known := s.known.insert (r.perform l.state i a)
      knownCount := s.knownCount + 1 } : Search).Knows r limits visited (tried ++ [⟨l, i⟩]) := by
  have hexact := hk.met.exact l hl
  -- there has been room up to now, so that every step led to a known state
  have hclosed : ∀ x ∈ tried, ∀ b, r.Ready x.lead.state x.seat b →
      s.known.contains (r.perform x.lead.state x.seat b) = true := by
    intro x hx b hb
    rcases hk.closed x hx b hb with h | ⟨-, h⟩
    · exact h
    · omega
  have hsteps : ∀ m ∈ visited ++ s.pending, ∀ j b, j < r.seats → r.Ready m.state j b →
      Nearer (m.schedule ++ [j]) (l.schedule ++ [i]) →
      s.known.contains (r.perform m.state j b) = true := by
    intro m hm j b hj hb hnearer
    exact hclosed _ (hupto.all m hm j (Ring.mem_enabled_iff.mpr ⟨hj, b, hb⟩) hnearer) b hb
  have hlast : ∀ m ∈ visited ++ s.pending, Nearer m.schedule (l.schedule ++ [i]) := by
    intro m hm
    rcases hk.origin m hm with hnil | ⟨x, hx, heq⟩
    · rw [hnil]
      exact nearer_of_length (by simp)
    · rw [heq]
      exact hupto.nearer x hx
  rw [← l.schedule_next i (r.perform l.state i a)] at hsteps hlast
  have hmet := hk.met.add (l := l.next i (r.perform l.state i a))
    (by rw [Lead.schedule_next]; exact hexact.first.leads.move hi ha)
    (by rw [Lead.schedule_next, List.length_append, ← hexact.depth]; rfl)
    hdepth hnew (by rw [← hk.count]; exact hroom) hlast hsteps
  have hpending : visited ++ (s.front ++ (l.next i (r.perform l.state i a) :: s.back).reverse)
      = visited ++ s.pending ++ [l.next i (r.perform l.state i a)] := by
    simp [pending]
  constructor
  case met =>
    rw [← hpending] at hmet
    exact hmet
  case count =>
    show s.knownCount + 1 = (visited ++ (s.front ++ _)).length
    rw [hpending, List.length_append, ← hk.count]
    rfl
  case origin =>
    show ∀ m ∈ visited ++ (s.front ++ _), _
    rw [hpending]
    intro m hm
    rcases List.mem_append.mp hm with hm | hm
    · exact hk.origin_concat ⟨l, i⟩ m hm
    · obtain rfl := List.mem_singleton.mp hm
      exact .inr ⟨⟨l, i⟩, by simp, Lead.schedule_next l i _⟩
  case closed =>
    intro x hx b hb
    left
    rw [Std.HashSet.contains_insert, Bool.or_eq_true, beq_iff_eq]
    rcases List.mem_append.mp hx with hx | hx
    · exact .inr (hclosed x hx b hb)
    · obtain rfl := List.mem_singleton.mp hx
      obtain rfl := hb.unique ha
      exact .inl rfl
  case transitions => exact hk.transitions_concat ⟨l, i⟩
  case cause =>
    intro hcomplete
    rcases hk.cause hcomplete with ⟨m, hm, hcut⟩ | ⟨hfull, -⟩
    · left
      refine ⟨m, ?_, hcut⟩
      show m ∈ visited ++ (s.front ++ _)
      rw [hpending]
      exact List.mem_append_left _ hm
    · omega

/-- **A step keeps what a search knows**, if it is the turn of the step. -/
theorem Knows.meet (hk : s.Knows r limits visited tried) (hl : l ∈ visited ++ s.pending)
    (hdepth : l.depth < limits.maxDepth) (hi : i < r.seats) (ha : r.Ready l.state i a)
    (hupto : Upto r (visited ++ s.pending) tried (l.schedule ++ [i])) :
    (s.meet limits.maxStates l i (r.perform l.state i a)).Knows r limits visited
      (tried ++ [⟨l, i⟩]) := by
  have horigin := hk.origin_concat ⟨l, i⟩
  have htransitions := hk.transitions_concat ⟨l, i⟩
  cases hknown : s.known.contains (r.perform l.state i a) with
  | true =>
    rw [meet_of_known hknown]
    refine ⟨hk.met, hk.count, horigin, fun x hx b hb => ?_, htransitions, hk.cause⟩
    rcases List.mem_append.mp hx with hx | hx
    · exact hk.closed x hx b hb
    · obtain rfl := List.mem_singleton.mp hx
      obtain rfl := hb.unique ha
      exact .inl hknown
  | false =>
    rcases Nat.lt_or_ge s.knownCount limits.maxStates with hroom | hfull
    · rw [meet_of_new hknown hroom]
      exact hk.meet_new hl hdepth hi ha hupto hknown hroom
    · rw [meet_of_full hknown hfull]
      have hreachable := ((hk.met.exact l hl).first.leads.move hi ha).reachable
      exact ⟨hk.met, hk.count, horigin, fun x hx b hb => .inr ⟨rfl, hfull⟩, htransitions,
        fun _ => .inr ⟨hfull, _, hreachable, hknown⟩⟩

end

end Search

end DiningRing
