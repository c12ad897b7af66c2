/-
# Laying a live table

Wiring a ring never fails: each edge is wired once, and neither of its lanes has a fork in it
before.  Afterwards a lane is full exactly when the plan starts with a fork there, and the
seats have got their own ends of the links, those on the left by a rotation of all links'
further ends.

So a live table at which everybody has been set to work and nobody has had a turn shows the
initial state of the ring (`Ring.exists_seat`).
-/
import DiningRing.Proofs.Live.AtWork

namespace DiningRing

/-! ### Lanes while they are filled -/

/-- The edge of a slot. -/
def Slot.edge : Slot → ℕ
  | towardRight e | towardLeft e => e

namespace Lanes

variable {n : ℕ} {l : Lanes} {slot other : Slot} {full : Bool}

/-- Lanes for each of `n` edges, none of which anybody has left. -/
structure Ready (n : ℕ) (l : Lanes) : Prop where
  towardRight : l.towardRight.size = n
  towardLeft : l.towardLeft.size = n
  isOpen : l.Open

lemma ready_ofEdges (n : ℕ) : (ofEdges n).Ready n := by
  refine ⟨Array.size_replicate, Array.size_replicate, fun slot => ?_⟩
  cases slot with
  | towardRight e | towardLeft e =>
    simp only [ofEdges, get, Array.getD_eq_getD_getElem?, Array.getElem?_replicate]
    split_ifs <;> exact ⟨rfl, rfl⟩

lemma full_ofEdges (n : ℕ) (slot : Slot) : (ofEdges n).full slot = false := by
  cases slot with
  | towardRight e | towardLeft e =>
    simp only [ofEdges, full, get, Array.getD_eq_getD_getElem?, Array.getElem?_replicate]
    split_ifs <;> rfl

lemma Ready.set (hl : l.Ready n) : (l.set slot ⟨full, false, false⟩).Ready n := by
  refine ⟨?_, ?_, hl.isOpen.set⟩
  · cases slot <;> simp [Lanes.set, hl.towardRight]
  · cases slot <;> simp [Lanes.set, hl.towardLeft]

lemma Ready.full_set (hl : l.Ready n) (hslot : slot.edge < n) :
    (l.set slot ⟨full, false, false⟩).full other = if other = slot then full else l.full other := by
  split_ifs with hother
  · subst hother
    cases other with
    | towardRight e =>
      have he : e < l.towardRight.size := hl.towardRight ▸ hslot
      simp [Lanes.set, Lanes.full, get, Array.getD_eq_getD_getElem?, he]
    | towardLeft e =>
      have he : e < l.towardLeft.size := hl.towardLeft ▸ hslot
      simp [Lanes.set, Lanes.full, get, Array.getD_eq_getD_getElem?, he]
  · rw [Lanes.full, get_set_ne hother, Lanes.full]

end Lanes

namespace Ring

variable {r : Ring} {l : Lanes} {e k : ℕ}

/-- A lane that is empty gets a fork or stays empty, as its placement tells. -/
lemma exists_preload {n : ℕ} (hl : l.Ready n) (e : ℕ) (x : Endpoint) (p : Placement)
    (hedge : x.outbound.edge < n) (hempty : l.full x.outbound = false) :
    ∃ l', (if p = .incoming then preload e x l else .ok l) = .ok l' ∧ l'.Ready n ∧
      ∀ slot, l'.full slot = if slot = x.outbound then p == .incoming else l.full slot := by
  by_cases hp : p = .incoming
  · refine ⟨l.set x.outbound ⟨true, false, false⟩, ?_, hl.set, fun slot => ?_⟩
    · rw [if_pos hp, preload, Endpoint.give_of_open hl.isOpen, hempty]
      rfl
    · rw [hl.full_set hedge, hp]
      rfl
  · refine ⟨l, if_neg hp, hl, fun slot => ?_⟩
    split_ifs with hslot
    · rw [hslot, hempty, beq_false_of_ne hp]
    · rfl

/-- The lanes of a ring when its first `k` edges are wired. -/
structure Preloaded (r : Ring) (k : ℕ) (l : Lanes) : Prop where
  ready : l.Ready r.seats
  full : ∀ slot : Slot, l.full slot = (decide (slot.edge < k) && r.startsFull slot)

/-- Wiring an edge puts a fork into each of its lanes that starts with one. -/
lemma Preloaded.edge (hl : r.Preloaded e l) (he : e < r.seats) :
    ∃ l', r.preloadEdge l e = .ok l' ∧ r.Preloaded (e + 1) l' := by
  have hempty : ∀ slot : Slot, slot.edge = e → l.full slot = false := by
    intro slot hslot
    rw [hl.full, hslot, decide_eq_false (lt_irrefl e), Bool.false_and]
  -- the two lanes of an edge are different ones, so the second is still empty
  obtain ⟨l₁, hfirst, hready₁, hfull₁⟩ := exists_preload hl.ready e (Endpoint.link e).2
    (r.assignment e).right he (hempty _ rfl)
  have hempty₁ : l₁.full (.towardRight e) = false := by
    rw [hfull₁, if_neg (by simp [Endpoint.link]), hempty _ rfl]
  obtain ⟨l₂, hsecond, hready₂, hfull₂⟩ := exists_preload hready₁ e (Endpoint.link e).1
    (r.assignment (Seat.next r.seats e)).left he hempty₁
  refine ⟨l₂, ?_, hready₂, fun slot => ?_⟩
  · simp only [preloadEdge, hfirst, hsecond]
  · by_cases hslot : slot.edge = e
    · have hdone : decide (slot.edge < e + 1) = true := decide_eq_true (by omega)
      rw [hdone, Bool.true_and, hfull₂]
      cases slot with
      | towardRight f =>
        obtain rfl : f = e := hslot
        exact if_pos rfl
      | towardLeft f =>
        obtain rfl : f = e := hslot
        rw [if_neg (by simp [Endpoint.link]), hfull₁]
        exact if_pos rfl
    · have hright : slot ≠ (Endpoint.link e).1.outbound := by
        rintro rfl
        exact hslot rfl
      have hleft : slot ≠ (Endpoint.link e).2.outbound := by
        rintro rfl
        exact hslot rfl
      have hlt : decide (slot.edge < e + 1) = decide (slot.edge < e) :=
        decide_eq_decide.mpr (by omega)
      rw [hfull₂, if_neg hright, hfull₁, if_neg hleft, hl.full, hlt]

/-- **Wiring a ring fails nowhere.** -/
lemma exists_preloaded (r : Ring) (hk : k ≤ r.seats) :
    ∃ l, (List.range k).foldlM r.preloadEdge (.ofEdges r.seats) = .ok l ∧ r.Preloaded k l := by
  induction k with
  | zero =>
    refine ⟨_, rfl, Lanes.ready_ofEdges _, fun slot => ?_⟩
    rw [Lanes.full_ofEdges, decide_eq_false (Nat.not_lt_zero _), Bool.false_and]
  | succ k ih =>
    obtain ⟨l, hfold, hl⟩ := ih (by omega)
    obtain ⟨l', hedge, hl'⟩ := hl.edge (by omega)
    refine ⟨l', ?_, hl'⟩
    rw [List.range_succ, List.foldlM_append, hfold]
    show (r.preloadEdge l k >>= pure) = .ok l'
    rw [hedge]
    rfl

end Ring

/-! ### Ends of links -/

lemma getElem?_rotateRight {α : Type} (l : List α) {i : ℕ} (hi : i < l.length) :
    (rotateRight l)[i]? = l[Seat.previous l.length i]? := by
  have hone : l.length - (l.length - 1) = 1 := by omega
  rw [rotateRight, List.getElem?_append, List.length_drop, hone, Seat.previous_eq_ite hi]
  split_ifs with hlt hzero hzero
  · rw [List.getElem?_drop, hzero, Nat.add_zero]
  · omega
  · omega
  · rw [List.getElem?_take, if_pos (by omega)]

lemma length_rotateRight {α : Type} (l : List α) : (rotateRight l).length = l.length := by
  rw [rotateRight, List.length_append, List.length_drop, List.length_take]
  omega

/-- Moving on by one seat: each seat gets what belonged to the seat before it. -/
lemma rotateRight_map_range {α : Type} (n : ℕ) (f : ℕ → α) :
    rotateRight ((List.range n).map f) = (List.range n).map fun i => f (Seat.previous n i) := by
  refine List.ext_getElem? fun i => ?_
  by_cases hi : i < n
  · rw [getElem?_rotateRight _ (by simpa using hi)]
    simp [hi, Seat.previous_lt hi]
  · rw [List.getElem?_eq_none (by simpa [length_rotateRight] using hi)]
    simp [hi]

/-- **Every seat gets its own ends.** -/
theorem Ring.wirings_eq (r : Ring) :
    r.wirings = (List.range r.seats).map (Wiring.ofSeat r.seats) := by
  have hself : List.range r.seats = (List.range r.seats).map id := (List.map_id _).symm
  rw [wirings, List.map_map, List.map_map, rotateRight_map_range, List.zip_map']
  conv_lhs => enter [2, 1]; rw [hself]
  rw [List.zip_map', List.map_map]
  rfl

/-! ### Setting everybody to work -/

namespace Table

variable {t : Table} {i j k : ℕ} {p : Philosopher}

lemma philosopher?_call (t : Table) (i : ℕ) (q : Request) (j : ℕ) :
    (t.call i q).philosopher? j = (t.philosopher? j).map fun p =>
      if j = i then { p with call := some (q.call p) } else p := by
  cases hp : t.philosopher? i with
  | none =>
    by_cases hji : j = i
    · simp [call, hp, hji]
    · simp [call, hp, hji]
  | some p =>
    by_cases hji : j = i
    · subst hji
      simp [call, hp, philosopher?_put_self (lt_size hp)]
    · simp [call, hp, hji, philosopher?_put_ne hji]

lemma lanes_call (t : Table) (i : ℕ) (q : Request) : (t.call i q).lanes = t.lanes := by
  cases hp : t.philosopher? i <;> simp [call, hp, put]

lemma clock_call (t : Table) (i : ℕ) (q : Request) : (t.call i q).clock = t.clock := by
  cases hp : t.philosopher? i <;> simp [call, hp, put]

lemma size_call (t : Table) (i : ℕ) (q : Request) :
    (t.call i q).philosophers.size = t.philosophers.size := by
  cases hp : t.philosopher? i <;> simp [call, hp, put]

/-- The table when the seats below `k` have been asked to run. -/
def runBelow (t : Table) (k : ℕ) : Table :=
  (List.range k).foldl (fun t seat => t.call seat .run) t

lemma runBelow_succ (t : Table) (k : ℕ) : t.runBelow (k + 1) = (t.runBelow k).call k .run := by
  simp [runBelow, List.range_succ]

lemma clock_runBelow (t : Table) (k : ℕ) : (t.runBelow k).clock = t.clock := by
  induction k with
  | zero => rfl
  | succ k ih => rw [runBelow_succ, clock_call, ih]

lemma runBelow_spec (t : Table) (k : ℕ) : (t.runBelow k).lanes = t.lanes ∧
    (t.runBelow k).philosophers.size = t.philosophers.size ∧
    ∀ j, (t.runBelow k).philosopher? j = (t.philosopher? j).map fun p =>
      if j < k then { p with call := some (Request.run.call p) } else p := by
  induction k with
  | zero => exact ⟨rfl, rfl, fun j => by simp [runBelow]⟩
  | succ k ih =>
    obtain ⟨hlanes, hsize, hphilosopher⟩ := ih
    rw [runBelow_succ]
    refine ⟨by rw [lanes_call, hlanes], by rw [size_call, hsize], fun j => ?_⟩
    rw [philosopher?_call, hphilosopher, Option.map_map]
    congr 1
    funext p
    rcases Nat.lt_trichotomy j k with hj | hj | hj
    · have hne : j ≠ k := by omega
      have hlt : j < k + 1 := by omega
      simp [hj, hne, hlt]
    · subst hj
      simp
    · have hne : j ≠ k := by omega
      have hlt : ¬ j < k := by omega
      have hlt' : ¬ j < k + 1 := by omega
      simp [hne, hlt, hlt']

end Table

/-! ### The live table at the start -/

namespace Ring

variable {r : Ring} {pacing : Pacing} {l : Lanes} {i : ℕ}

/-- The live table of a ring with some lanes, before anybody has been asked for anything. -/
def laid (r : Ring) (pacing : Pacing) (l : Lanes) : Table where
  lanes := l
  philosophers := ((List.range r.seats).map fun i =>
    some (Philosopher.sit (Wiring.ofSeat r.seats i) (r.assignment i) pacing)).toArray
  clock := 0

lemma philosopher?_laid (hi : i < r.seats) : (r.laid pacing l).philosopher? i
    = some (Philosopher.sit (Wiring.ofSeat r.seats i) (r.assignment i) pacing) := by
  simp [laid, Table.philosopher?, hi]

/-- **Wiring never fails**: every seat gets its own ends, and a lane is full exactly when the
plan starts with a fork there. -/
theorem exists_wired (r : Ring) : ∃ l,
    r.wire = .ok (l, (List.range r.seats).map (Wiring.ofSeat r.seats)) ∧
      r.Preloaded r.seats l := by
  obtain ⟨l, hfold, hl⟩ := r.exists_preloaded (le_refl r.seats)
  refine ⟨l, ?_, hl⟩
  simp only [wire, hfold, wirings_eq]

/-- There are as many assignments as wired seats, so that no end is dropped. -/
lemma seat_of_wire (pacing : Pacing)
    (hwire : r.wire = .ok (l, (List.range r.seats).map (Wiring.ofSeat r.seats))) :
    r.seat pacing = .ok (r.laid pacing l) := by
  have hnobody : ((List.range r.seats).map (Wiring.ofSeat r.seats)).drop
      ((List.range r.seats).map fun seat => r.plan.assign seat r.seats).length = [] := by
    simp
  simp only [seat, hwire, Table.seatAll, Plan.table, hnobody, List.foldl_nil, List.zip_map',
    List.map_map]
  rfl

/-- **Seating never fails.** -/
theorem exists_laid (r : Ring) (pacing : Pacing) :
    ∃ l, r.seat pacing = .ok (r.laid pacing l) ∧ r.Preloaded r.seats l := by
  obtain ⟨l, hwire, hl⟩ := r.exists_wired
  exact ⟨l, seat_of_wire pacing hwire, hl⟩

/-- Who sits at a table just laid when all have been asked to run. -/
lemma philosopher?_runBelow (hi : i < r.seats) :
    ((r.laid pacing l).runBelow r.seats).philosopher? i
      = some { Philosopher.sit (Wiring.ofSeat r.seats i) (r.assignment i) pacing with
          call := some (Request.run.call
            (Philosopher.sit (Wiring.ofSeat r.seats i) (r.assignment i) pacing)) } := by
  obtain ⟨-, -, hphilosopher⟩ := (r.laid pacing l).runBelow_spec r.seats
  rw [hphilosopher, philosopher?_laid hi, Option.map_some, if_pos hi]

/-- Everybody who has been asked to run at a table just laid is at work. -/
lemma atWork_runBelow (hl : r.Preloaded r.seats l) :
    ((r.laid pacing l).runBelow r.seats).AtWork r := by
  obtain ⟨hlanes, hsize, -⟩ := (r.laid pacing l).runBelow_spec r.seats
  refine ⟨⟨?_, ?_, ?_⟩, ?_, fun i hi => ?_⟩
  · rw [Table.view, Array.size_map, hsize]
    simp [laid]
  · rw [Table.view, Array.size_map, hlanes]
    exact hl.ready.towardRight
  · rw [Table.view, Array.size_map, hlanes]
    exact hl.ready.towardLeft
  · rw [hlanes]
    exact hl.ready.isOpen
  · exact ⟨_, _, philosopher?_runBelow hi, rfl, rfl, rfl, rfl, rfl, .inr ⟨rfl, rfl, rfl⟩⟩

/-- **It shows the initial state.** -/
lemma view_runBelow (hl : r.Preloaded r.seats l) :
    ((r.laid pacing l).runBelow r.seats).view = r.initial := by
  obtain ⟨hlanes, -, -⟩ := (r.laid pacing l).runBelow_spec r.seats
  have hfull : ∀ slot : Slot, slot.edge < r.seats →
      ((r.laid pacing l).runBelow r.seats).view.slot slot = r.startsFull slot := by
    intro slot hslot
    rw [Table.slot_view, hlanes]
    show l.full slot = _
    rw [hl.full, decide_eq_true hslot, Bool.true_and]
  refine (atWork_runBelow hl).fits.ext r.fits_initial (fun i hi => ?_) (fun e he => ?_)
    fun e he => ?_
  · rw [Table.diner_view (philosopher?_runBelow hi), diner_initial hi]
    exact congrArg (Diner.mk .idle) (Hands.join_empty _)
  · rw [hfull (.towardRight e) he, towardRight_initial he]
    rfl
  · rw [hfull (.towardLeft e) he, towardLeft_initial he]
    rfl

/-- **Every ring can be seated**: when everybody has been set to work, and before the first turn,
the live table shows the initial state of the ring. -/
theorem exists_seat (r : Ring) (pacing : Pacing) : ∃ table, r.seat pacing = .ok table ∧
    (table.runBelow r.seats).AtWork r ∧ (table.runBelow r.seats).view = r.initial := by
  obtain ⟨l, hseat, hl⟩ := r.exists_laid pacing
  exact ⟨_, hseat, atWork_runBelow hl, view_runBelow hl⟩

end Ring

end DiningRing
