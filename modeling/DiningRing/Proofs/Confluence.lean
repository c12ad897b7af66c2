/-
# Schedules are confluent

An action of a seat reads and writes the diner of that seat and at most one slot
(`Action.slot?`).  Two seats that are ready at once never touch the same slot: they read
different slots, they write different slots, and a slot that one reads is full while one that
the other writes is empty.  So neither blocks the other, and it does not matter which of them
moves first (`Ring.Ready.perform_of_ne`, `Ring.perform_comm`).

From there the first move of a seat on one path can be moved to the front of any other path
(`Ring.Path.defer`).  Two paths on which every seat moves equally often therefore end in the
same state, and each seat performs the same actions on both (`Ring.Path.confluent`).
-/
import DiningRing.Proofs.Path
import DiningRing.Proofs.Tally

namespace DiningRing

/-- The slot that an action of a seat at a table of `n` reads or writes. -/
def Action.slot? (n seat : ℕ) : Action → Option Slot
  | .take side => some (Slot.inbound n seat side)
  | .give side => some (Slot.outbound n seat side)
  | .startWaiting | .eat | .finish => none

/-- Whether an action leaves its slot full. -/
def Action.fills : Action → Bool
  | .give _ => true
  | .startWaiting | .take _ | .eat | .finish => false

namespace Ring

variable {r : Ring} {s t u : RingState} {i j : ℕ} {a b : Action} {h k : List Move}

/-! ### Two ready seats -/

/-- Of all slots an action changes only its own. -/
lemma slot_perform (hs : s.Fits r.seats) (hi : i < r.seats) (slot : Slot) :
    (r.perform s i a).slot slot
      = if a.slot? r.seats i = some slot then a.fills else s.slot slot := by
  cases a with
  | take side =>
    rw [slot_perform_take hs hi]
    simp [Action.slot?, Action.fills, eq_comm]
  | give side =>
    rw [slot_perform_give hs hi]
    simp [Action.slot?, Action.fills, eq_comm]
  | startWaiting | eat | finish => exact slot_perform_of_not_transfers rfl slot

/-- An action empties a full slot or fills an empty one. -/
lemma Ready.slot_eq (ha : r.Ready s i a) {slot : Slot} (hslot : a.slot? r.seats i = some slot) :
    s.slot slot = !a.fills := by
  cases ha with
  | take side _ _ harrived =>
    obtain rfl : Slot.inbound r.seats i side = slot := by simpa [Action.slot?] using hslot
    exact harrived
  | give side _ _ hroom =>
    obtain rfl : Slot.outbound r.seats i side = slot := by simpa [Action.slot?] using hslot
    exact hroom
  | startWaiting | eat | finish => simp [Action.slot?] at hslot

/-- Two seats that are ready at once do not touch the same slot. -/
lemma Ready.slot_ne (ha : r.Ready s i a) (hb : r.Ready s j b) (hi : i < r.seats)
    (hj : j < r.seats) (hij : i ≠ j) {slot : Slot} (hslot : a.slot? r.seats i = some slot) :
    b.slot? r.seats j ≠ some slot := by
  intro hslot'
  have hfull := ha.slot_eq hslot
  rw [hb.slot_eq hslot'] at hfull
  -- both take or both give, and then the slot belongs to one seat
  cases a with
  | take side =>
    cases b with
    | take other =>
      rw [← hslot'] at hslot
      have heq := Option.some.inj hslot
      exact hij ((Slot.inbound_inj hi hj).mp heq).1
    | give other => simp [Action.fills] at hfull
    | startWaiting | eat | finish => simp [Action.slot?] at hslot'
  | give side =>
    cases b with
    | give other =>
      rw [← hslot'] at hslot
      have heq := Option.some.inj hslot
      exact hij ((Slot.outbound_inj hi hj).mp heq).1
    | take other => simp [Action.fills] at hfull
    | startWaiting | eat | finish => simp [Action.slot?] at hslot'
  | startWaiting | eat | finish => simp [Action.slot?] at hslot

/-- Whether a seat is ready for an action depends on its diner and on the slot of the
action. -/
lemma Ready.congr (ha : r.Ready s i a) (hdiner : t.diner i = s.diner i)
    (hslot : ∀ slot, a.slot? r.seats i = some slot → t.slot slot = s.slot slot) :
    r.Ready t i a := by
  cases ha with
  | startWaiting hp => exact .startWaiting (by rw [hdiner]; exact hp)
  | take side hp hm harrived =>
    refine .take side (by rw [hdiner]; exact hp) (by rw [hdiner]; exact hm) ?_
    rw [hslot _ rfl]
    exact harrived
  | eat hp hb => exact .eat (by rw [hdiner]; exact hp) (by rw [hdiner]; exact hb)
  | finish hp => exact .finish (by rw [hdiner]; exact hp)
  | give side hp hr hroom =>
    refine .give side (by rw [hdiner]; exact hp) (by rw [hdiner]; exact hr) ?_
    rw [hslot _ rfl]
    exact hroom

section

variable (hs : s.Fits r.seats) (hi : i < r.seats) (hj : j < r.seats) (hij : i ≠ j)
  (ha : r.Ready s i a) (hb : r.Ready s j b)
include hs hi hj hij ha hb

/-- **A move blocks no other seat**, and leaves it ready for the same action. -/
theorem Ready.perform_of_ne : r.Ready (r.perform s i a) j b := by
  refine hb.congr (diner_perform_ne hij.symm) fun slot hslot => ?_
  rw [slot_perform hs hi, if_neg]
  exact fun hslot' => ha.slot_ne hb hi hj hij hslot' hslot

/-- **Two seats that are ready at once may move in either order.** -/
theorem perform_comm :
    r.perform (r.perform s i a) j b = r.perform (r.perform s j b) i a := by
  have hsi : (r.perform s i a).Fits r.seats := fits_perform hs
  have hsj : (r.perform s j b).Fits r.seats := fits_perform hs
  have hslot : ∀ slot, (r.perform (r.perform s i a) j b).slot slot
      = (r.perform (r.perform s j b) i a).slot slot := by
    intro slot
    rw [slot_perform hsi hj, slot_perform hs hi, slot_perform hsj hi, slot_perform hs hj]
    by_cases hslot : a.slot? r.seats i = some slot
    · rw [if_pos hslot, if_neg (ha.slot_ne hb hi hj hij hslot), if_pos hslot]
    · rw [if_neg hslot, if_neg hslot]
  refine RingState.Fits.ext (fits_perform hsi) (fits_perform hsj) (fun l _ => ?_)
    (fun e _ => hslot _) fun e _ => hslot _
  by_cases hli : l = i
  · subst hli
    rw [diner_perform_ne hij, diner_perform_self hs hi, diner_perform_self hsj hi,
      diner_perform_ne hij]
  · by_cases hlj : l = j
    · subst hlj
      rw [diner_perform_self hsi hj, diner_perform_ne hij.symm, diner_perform_ne hij.symm,
        diner_perform_self hs hj]
    · rw [diner_perform_ne hlj, diner_perform_ne hli, diner_perform_ne hli, diner_perform_ne hlj]

end

/-- Both ready seats can be called in either order, if the calls are not refused. -/
lemma apply_comm (hs : s.Fits r.seats) (hi : i < r.seats) (hj : j < r.seats) (hij : i ≠ j)
    (ha : r.apply s i = .ok (some (a, t))) (hb : r.apply s j = .ok (some (b, u))) :
    ∃ v, r.apply t j = .ok (some (b, v)) ∧ r.apply u i = .ok (some (a, v)) := by
  obtain ⟨hready, hfin, rfl⟩ := apply_eq_some_iff.mp ha
  obtain ⟨hready', hfin', rfl⟩ := apply_eq_some_iff.mp hb
  refine ⟨r.perform (r.perform s i a) j b, ?_, ?_⟩
  · refine apply_eq_some_iff.mpr ⟨hready.perform_of_ne hs hi hj hij hready', fun heq => ?_, rfl⟩
    rw [diner_perform_ne hij.symm]
    exact hfin' heq
  · refine apply_eq_some_iff.mpr ⟨hready'.perform_of_ne hs hj hi hij.symm hready, fun heq => ?_,
      perform_comm hs hi hj hij hready hready'⟩
    rw [diner_perform_ne hij]
    exact hfin heq

/-! ### Paths -/

/-- A seat that is ready and does not move on a path is still ready at its end, and its move
may as well be made first. -/
lemma Path.defer (hp : r.Path s h t) (hs : s.Fits r.seats) (hi : i < r.seats)
    (ha : r.Ready s i a) (hnot : i ∉ h.map Move.seat) :
    r.Ready t i a ∧ r.Path (r.perform s i a) h (r.perform t i a) := by
  induction hp with
  | nil s => exact ⟨ha, .nil _⟩
  | @cons s t j b h hj hb _ ih =>
    rw [List.map_cons, List.mem_cons, not_or] at hnot
    obtain ⟨hij, hnot⟩ := hnot
    have ha' := hb.perform_of_ne hs hj hi (Ne.symm hij) ha
    have hb' := ha.perform_of_ne hs hi hj hij hb
    obtain ⟨hready, hpath⟩ := ih (fits_perform hs) ha' hnot
    rw [← perform_comm hs hi hj hij ha hb] at hpath
    exact ⟨hready, .cons hj hb' hpath⟩

/-- The actions of a seat among some moves. -/
def actionsOf (i : ℕ) (moves : List Move) : List Action :=
  (moves.filter fun m => m.seat = i).map Move.action

lemma actionsOf_append (i : ℕ) (h k : List Move) :
    actionsOf i (h ++ k) = actionsOf i h ++ actionsOf i k := by
  simp [actionsOf]

lemma actionsOf_cons (i : ℕ) (m : Move) (h : List Move) :
    actionsOf i (m :: h) = (if m.seat = i then [m.action] else []) ++ actionsOf i h := by
  by_cases hm : m.seat = i <;> simp [actionsOf, hm]

lemma actionsOf_eq_nil (hnot : i ∉ h.map Move.seat) : actionsOf i h = [] := by
  simp only [actionsOf, List.map_eq_nil_iff, List.filter_eq_nil_iff, decide_eq_true_eq]
  exact fun m hm heq => hnot (List.mem_map.mpr ⟨m, hm, heq⟩)

/-- A move that is the first one of its seat can be moved to the front: the seats still
perform the same actions. -/
lemma actionsOf_middle (m : Move) (hnot : m.seat ∉ h.map Move.seat) (l : ℕ) :
    actionsOf l (h ++ m :: k) = actionsOf l (m :: (h ++ k)) := by
  rw [actionsOf_append, actionsOf_cons, actionsOf_cons, actionsOf_append]
  by_cases hl : m.seat = l
  · rw [actionsOf_eq_nil (hl ▸ hnot)]
    simp
  · simp [hl]

/-- A list of moves cut at the first move of a seat. -/
lemma exists_first_move (hmem : i ∈ k.map Move.seat) :
    ∃ front m back, k = front ++ m :: back ∧ m.seat = i ∧ i ∉ front.map Move.seat := by
  obtain ⟨before, after, heq, hnot⟩ := List.eq_append_cons_of_mem hmem
  obtain ⟨front, rest, rfl, rfl, hrest⟩ := List.map_eq_append_iff.mp heq
  obtain ⟨m, back, rfl, hm, -⟩ := List.map_eq_cons_iff.mp hrest
  exact ⟨front, m, back, rfl, hm, hnot⟩

/-- **Paths are confluent.**  If every seat moves equally often on two paths from the same
state, they end in the same state, and each seat performs the same actions on both. -/
theorem Path.confluent (hp : r.Path s h t) (hq : r.Path s k u) (hs : s.Fits r.seats)
    (hperm : (h.map Move.seat).Perm (k.map Move.seat)) :
    t = u ∧ ∀ l, actionsOf l h = actionsOf l k := by
  induction hp generalizing k with
  | nil s =>
    obtain rfl : k = [] := List.map_eq_nil_iff.mp (List.nil_perm.mp hperm)
    cases hq with
    | nil => exact ⟨rfl, fun _ => rfl⟩
  | @cons s t i a h hi ha _ ih =>
    obtain ⟨front, m, back, rfl, rfl, hfront⟩ :=
      exists_first_move (hperm.subset List.mem_cons_self)
    obtain ⟨v, hq₁, hq₂⟩ := hq.cut
    -- up to its first move there the seat stays ready, so that the move is the same one
    obtain ⟨hready, hdeferred⟩ := hq₁.defer hs hi ha hfront
    cases hq₂ with
    | @cons _ _ _ b _ _ hb hback =>
      obtain rfl := hready.unique hb
      have hrest : (h.map Move.seat).Perm ((front ++ back).map Move.seat) := by
        rw [List.map_append, List.map_cons] at hperm
        rw [List.map_append]
        exact List.Perm.cons_inv (hperm.trans List.perm_middle)
      obtain ⟨rfl, hactions⟩ := ih (hdeferred.append hback) (fits_perform hs) hrest
      refine ⟨rfl, fun l => ?_⟩
      rw [actionsOf_middle _ hfront, actionsOf_cons, actionsOf_cons, hactions l]

end Ring

/-! ### Schedules of a simulation -/

namespace Simulation

variable {n i : ℕ} {sim t : Simulation} {h : List Move} {a : Action} {s : RingState}

/-- **The actions of a seat** are its moves. -/
lemma Course.actions_eq (hc : Course sim h t) (hsim : sim.Tallied) (j : ℕ) :
    t.actions j = sim.actions j + (Ring.actionsOf j h).length := by
  induction hc with
  | start => rfl
  | @move h t i a before hi _ ih =>
    rw [actions_advance (before.tallied hsim) hi, ih, Ring.actionsOf_append, List.length_append,
      Ring.actionsOf_cons, Nat.add_assoc]
    by_cases hij : i = j <;> simp [hij, Ring.actionsOf]

end Simulation

/-- The meals of a seat are among its actions. -/
lemma count_eaters (i : ℕ) (h : List Move) :
    (eaters h).count i = (Ring.actionsOf i h).count .eat := by
  induction h with
  | nil => rfl
  | cons m h ih =>
    rw [← List.singleton_append, eaters_append, List.count_append, ih, List.singleton_append,
      Ring.actionsOf_cons, List.count_append]
    congr 1
    by_cases ha : m.action = .eat
    · by_cases hm : m.seat = i <;> simp [eaters, ha, hm]
    · by_cases hm : m.seat = i <;> simp [eaters, ha, hm]

/-- **Schedules are confluent.**  In every state of a table, reachable or not, if two seats
can move and a call moves the one, then the other can still move and has the same next
action; and if a call would move the other as well, the two calls give the same state in
either order.  So schedules from the beginning, all of whose steps are accepted and which
pick every seat equally often, end in the same state, with the same actions and meals of
every seat and the same seats that can move; and the actions of each seat are the same, one
by one. -/
theorem schedules_confluent {n : ℕ} (hn : 2 ≤ n) (p : Plan) (sink : Sink) :
    (∀ s : RingState, s.Fits n →
      let r : Ring := ⟨n, p⟩
      ∀ i ∈ r.enabled s, ∀ j ∈ r.enabled s, i ≠ j →
      ∀ a t, r.apply s i = .ok (some (a, t)) →
        j ∈ r.enabled t ∧ r.nextAction t j = r.nextAction s j ∧
        ∀ b u, r.apply s j = .ok (some (b, u)) →
          ∃ v, r.apply t j = .ok (some (b, v)) ∧ r.apply u i = .ok (some (a, v))) ∧
    Simulation.create n p sink = .ok (Simulation.begin ⟨n, p⟩ sink) ∧
    ∀ xs ys : List ℕ,
      let start := Simulation.begin ⟨n, p⟩ sink
      start.accepts xs = true → start.accepts ys = true →
      (∀ i < n, xs.count i = ys.count i) →
      (start.play xs).state = (start.play ys).state ∧
      (∀ i < n, (start.play xs).actions i = (start.play ys).actions i) ∧
      (∀ i < n, (start.play xs).meals i = (start.play ys).meals i) ∧
      (start.play xs).enabled = (start.play ys).enabled ∧
      ∀ i < n, Ring.actionsOf i (start.history xs) = Ring.actionsOf i (start.history ys) := by
  refine ⟨fun s hs => ?_, Simulation.create_eq_ok hn p sink, fun xs ys => ?_⟩
  · intro r i hi j hj hij a t hat
    obtain ⟨hi, -⟩ := Ring.mem_enabled_iff.mp hi
    obtain ⟨hj, b, hb⟩ := Ring.mem_enabled_iff.mp hj
    obtain ⟨ha, -, rfl⟩ := Ring.apply_eq_some_iff.mp hat
    have hb' := ha.perform_of_ne hs hi hj hij hb
    refine ⟨Ring.mem_enabled_iff.mpr ⟨hj, b, hb'⟩, ?_, fun b u hbu => ?_⟩
    · rw [hb'.nextAction, hb.nextAction]
    · exact Ring.apply_comm hs hi hj hij hat hbu
  · intro start hxs hys hcount
    have hsound : start.state.Sound start.ring.seats := Ring.sound_initial (r := ⟨n, p⟩) hn
    obtain ⟨hpx, hseatsx⟩ := Simulation.path_of_accepts hsound hxs
    obtain ⟨hpy, hseatsy⟩ := Simulation.path_of_accepts hsound hys
    have hperm : ((start.history xs).map Move.seat).Perm ((start.history ys).map Move.seat) := by
      rw [List.perm_iff_count]
      intro i
      by_cases hi : i < n
      · rw [hseatsx, hseatsy]
        exact hcount i hi
      · rw [List.count_eq_zero_of_not_mem fun hm => hi (hpx.seat_lt hm),
          List.count_eq_zero_of_not_mem fun hm => hi (hpy.seat_lt hm)]
    obtain ⟨hstate, hactions⟩ := hpx.confluent hpy hsound.fits hperm
    have hcx := Simulation.course_begin hn p sink xs
    have hcy := Simulation.course_begin hn p sink ys
    have htallied := Simulation.tallied_begin ⟨n, p⟩ sink
    refine ⟨hstate, fun i _ => ?_, fun i _ => ?_, ?_, fun i _ => hactions i⟩
    · rw [hcx.actions_eq htallied, hcy.actions_eq htallied, hactions i]
    · rw [hcx.meals_eq htallied, hcy.meals_eq htallied, count_eaters, count_eaters, hactions i]
    · rw [Simulation.enabled, Simulation.enabled, hstate, hcx.ring_eq, hcy.ring_eq]

/-- At a table of two with a fork in every slot, which no schedule reaches, both seats can
take one; and at a table of three, two schedules that pick each seat equally often. -/
theorem schedules_confluent_at_two_and_three :
    2 ≤ 2 ∧ 2 ≤ 3 ∧
    (let r : Ring := ⟨2, .reversedLast⟩
      let s : RingState := ⟨#[⟨.waiting, .empty⟩, ⟨.waiting, .empty⟩], #[true, true],
        #[true, true]⟩
      let t := r.perform s 0 (.take .left)
      let u := r.perform s 1 (.take .right)
      r.apply s 0 = .ok (some (.take .left, t)) ∧ r.apply s 1 = .ok (some (.take .right, u)) ∧
        1 ∈ r.enabled t ∧
        ∃ v, r.apply t 1 = .ok (some (.take .right, v)) ∧ r.apply u 0 = .ok (some (.take .left, v))) ∧
    let start := Simulation.begin ⟨3, .reversedLast⟩ .null
    start.accepts [0, 0, 0, 2, 0, 2, 1] = true ∧ start.accepts [2, 1, 0, 0, 0, 0, 2] = true ∧
      (start.play [0, 0, 0, 2, 0, 2, 1]).state = (start.play [2, 1, 0, 0, 0, 0, 2]).state := by
  obtain ⟨hpair, -, -⟩ := schedules_confluent (n := 2) (by decide) .reversedLast .null
  obtain ⟨-, -, hschedules⟩ := schedules_confluent (n := 3) (by decide) .reversedLast .null
  obtain ⟨henabled, -, hcomm⟩ := hpair
    ⟨#[⟨.waiting, .empty⟩, ⟨.waiting, .empty⟩], #[true, true], #[true, true]⟩ ⟨rfl, rfl, rfl⟩
    0 (by decide) 1 (by decide) (by decide) (.take .left) _ rfl
  have hxs : (Simulation.begin ⟨3, .reversedLast⟩ .null).accepts [0, 0, 0, 2, 0, 2, 1] = true := by
    decide +kernel
  have hys : (Simulation.begin ⟨3, .reversedLast⟩ .null).accepts [2, 1, 0, 0, 0, 0, 2] = true := by
    decide +kernel
  exact ⟨by decide, by decide, ⟨rfl, rfl, henabled, hcomm _ _ rfl⟩, hxs, hys,
    (hschedules _ _ hxs hys (by decide)).1⟩

end DiningRing
