/-
# The layout of a live table

Two things lay a table: the live ring links the seats by lanes and puts forks into hands and
lanes, and the step model numbers slots and fills them.  They agree, whatever the size of the
table.  What a seat gives on one side arrives at its neighbour on the opposite side and nowhere
else (`Ring.exists_delivery`), also at a table of two, where both edges join the same two seats;
and before anybody has been asked for anything the live table shows the initial state of the ring
(`Ring.view_laid`).
-/
import DiningRing.Proofs.Live.Seating
import DiningRing.Proofs.Words

namespace DiningRing

/-! ### Slots between neighbours -/

namespace Slot

variable {n i j : ℕ} {side other : Side}

/-- What goes out on a side of a seat arrives at the neighbour there, on the opposite side. -/
lemma outbound_eq_inbound (hi : i < n) (side : Side) :
    outbound n i side = inbound n (Seat.neighbor n i side) side.opposite := by
  cases side with
  | left => rfl
  | right => exact outbound_right hi

lemma neighbor_lt (hi : i < n) (side : Side) : Seat.neighbor n i side < n := by
  cases side with
  | left => exact Seat.previous_lt hi
  | right => exact Seat.next_lt hi

/-- It arrives nowhere else. -/
lemma inbound_eq_outbound_iff (hi : i < n) (hj : j < n) : inbound n j other = outbound n i side ↔
    j = Seat.neighbor n i side ∧ other = side.opposite := by
  rw [outbound_eq_inbound hi, inbound_inj hj (neighbor_lt hi side)]

lemma edge_inbound (n i : ℕ) (side : Side) : (inbound n i side).edge = Seat.edge n i side := by
  cases side <;> rfl

lemma edge_outbound (n i : ℕ) (side : Side) : (outbound n i side).edge = Seat.edge n i side := by
  cases side <;> rfl

end Slot

/-! ### Giving and taking -/

namespace Lanes

variable {l : Lanes} {slot : Slot} {lane : Lane}

lemma set_set (l : Lanes) (slot : Slot) (a b : Lane) :
    (l.set slot a).set slot b = l.set slot b := by
  cases slot <;> simp [set]

lemma set_get (l : Lanes) (slot : Slot) : l.set slot (l.get slot) = l := by
  have hwrite : ∀ (lanes : Array Lane) (e : ℕ),
      lanes.setIfInBounds e (lanes.getD e .empty) = lanes := by
    intro lanes e
    refine Array.ext_getElem? fun f => ?_
    rw [Array.getElem?_setIfInBounds]
    split_ifs with hef hlt
    · subst hef
      simp [hlt]
    · subst hef
      simp [hlt]
    · rfl
  cases slot <;> simp only [set, get, hwrite]

end Lanes

namespace Endpoint

variable {n : ℕ} {l : Lanes} {x y : Endpoint}

/-- A fork for which there is room is given, and can then be taken at the other end; no other lane
has changed, nor has any once the fork has been taken. -/
lemma exists_give (hl : l.Ready n) (hedge : x.outbound.edge < n) (hroom : l.full x.outbound = false)
    (hxy : y.inbound = x.outbound) : ∃ l', x.give l = .done l' ∧ l'.Ready n ∧
      y.take l' = .done l ∧ ∀ slot, slot ≠ x.outbound → l'.get slot = l.get slot := by
  have hempty : l.get x.outbound = ⟨false, false, false⟩ := by rw [hl.isOpen.get_eq, hroom]
  have hready : (l.set x.outbound ⟨true, false, false⟩).Ready n := hl.set
  refine ⟨_, ?_, hready, ?_, fun slot hne => Lanes.get_set_ne hne⟩
  · rw [give_of_open hl.isOpen, hroom]
    rfl
  · rw [take_of_open hready.isOpen, hxy, hl.full_set hedge, if_pos rfl, if_pos rfl, Lanes.set_set,
      ← hempty, Lanes.set_get]

end Endpoint

namespace Ring

variable {n i : ℕ} {r : Ring} {l : Lanes} {pacing : Pacing}

/-- **A fork given on a side of a seat is received by the neighbour there**, on the opposite side,
and at no other end. -/
theorem exists_delivery (hl : l.Ready n) (hi : i < n) (side : Side)
    (hroom : l.full (Slot.outbound n i side) = false) :
    ∃ l', ((Wiring.ofSeat n i).endpoint side).give l = .done l' ∧
      ((Wiring.ofSeat n (Seat.neighbor n i side)).endpoint side.opposite).take l' = .done l ∧
      ∀ j < n, ∀ other, ¬ (j = Seat.neighbor n i side ∧ other = side.opposite) →
        l'.get ((Wiring.ofSeat n j).endpoint other).inbound
          = l.get ((Wiring.ofSeat n j).endpoint other).inbound := by
  have hedge : (Slot.outbound n i side).edge < n := by
    rw [Slot.edge_outbound]
    exact Seat.edge_lt hi side
  obtain ⟨l', hgive, -, htake, hother⟩ := Endpoint.exists_give hl (x := ⟨Slot.inbound n i side,
    Slot.outbound n i side⟩) (y := (Wiring.ofSeat n (Seat.neighbor n i side)).endpoint side.opposite)
    hedge hroom (by rw [Wiring.endpoint_ofSeat, Slot.outbound_eq_inbound hi])
  refine ⟨l', ?_, htake, fun j hj other hne => hother _ ?_⟩
  · rw [Wiring.endpoint_ofSeat]
    exact hgive
  · rw [Wiring.endpoint_ofSeat]
    exact fun heq => hne ((Slot.inbound_eq_outbound_iff hi hj).mp heq)

/-! ### The table before the first request -/

lemma full_eq_initial (hl : r.Preloaded r.seats l) (slot : Slot) :
    l.full slot = r.initial.slot slot := by
  rw [hl.full]
  cases slot with
  | towardRight e | towardLeft e =>
    by_cases he : e < r.seats
    · simp [Slot.edge, he, initial, RingState.slot, Array.getD_eq_getD_getElem?]
    · simp [Slot.edge, he, initial, RingState.slot, Array.getD_eq_getD_getElem?]

/-- **A table just laid shows the initial state.** -/
theorem view_laid (hl : r.Preloaded r.seats l) : (r.laid pacing l).view = r.initial := by
  refine RingState.Fits.ext (n := r.seats) ⟨?_, ?_, ?_⟩ r.fits_initial (fun i hi => ?_)
    (fun e _ => ?_) fun e _ => ?_
  · simp [Table.view, laid]
  · simpa [Table.view, laid] using hl.ready.towardRight
  · simpa [Table.view, laid] using hl.ready.towardLeft
  · rw [Table.diner_view (philosopher?_laid hi), diner_initial hi]
    exact congrArg (Diner.mk .idle) (Hands.join_empty _)
  · rw [Table.slot_view]
    exact full_eq_initial hl _
  · rw [Table.slot_view]
    exact full_eq_initial hl _

end Ring

/-- **Laying the live table and the initial state of the step model agree.**  For every size of a
table whose seats can be counted twice over by signed words, and for either plan, the neighbours
and edges found on words are those of the cyclic steps, and laying, wiring and seating fail
nowhere.  Every edge starts with one fork.  A seat's ends lead to its inbound and outbound slots,
and where there is room for a fork, one given on a side is received by the neighbour on that side,
at its opposite end, and at no other end.  Before anybody has been asked for anything, each
philosopher has the phase and the hands of the model's diner, and the same slots are full. -/
theorem live_layout_agrees_with_initial {n : ℕ} (hn : 2 ≤ n) (hword : n < 2 ^ 62) (plan : Plan)
    (pacing : Pacing) :
    let r : Ring := ⟨n, plan⟩
    (∀ i < n, leftEdge? i n = some (Seat.previous n i) ∧ rightEdge? i n = some i ∧
      rightNeighbor? i n = some (Seat.next n i)) ∧
    Ring.lay n plan = .ok r ∧
    ∃ lanes wirings table, r.wire = .ok (lanes, wirings) ∧ r.seat pacing = .ok table ∧
      table.lanes = lanes ∧ wirings.length = n ∧ table.seats = n ∧
      (∀ e < n, table.view.forksOn n e = 1) ∧
      (∀ i < n, ∃ w p, wirings[i]? = some w ∧ table.philosopher? i = some p ∧ p.wiring = w ∧
        p.call = none ∧ p.order = r.order i ∧
        p.diner.phase = (r.initial.diner i).phase ∧
        ∀ side, p.hands.holds side = (r.initial.diner i).hands.holds side ∧
          (w.endpoint side).inbound = Slot.inbound n i side ∧
          (w.endpoint side).outbound = Slot.outbound n i side) ∧
      (∀ slot, lanes.full slot = r.initial.slot slot) ∧
      ∀ l : Lanes, l.Ready n → ∀ i < n, ∀ w, wirings[i]? = some w → ∀ side,
        l.full (w.endpoint side).outbound = false →
        ∃ l', (w.endpoint side).give l = .done l' ∧
          ∀ j < n, ∀ v, wirings[j]? = some v → ∀ other,
            if j = Seat.neighbor n i side ∧ other = side.opposite
            then (v.endpoint other).take l' = .done l
            else l'.get (v.endpoint other).inbound = l.get (v.endpoint other).inbound := by
  intro r
  have hhalf : 2 * n ≤ Word.half := by
    simp only [Word.half]
    omega
  obtain ⟨lanes, hwire, hlanes⟩ := r.exists_wired
  have hwiring : ∀ i < n, ((List.range n).map (Wiring.ofSeat n))[i]? = some (Wiring.ofSeat n i) := by
    intro i hi
    simp [hi]
  refine ⟨fun i hi => ⟨leftEdge?_eq_some hi hhalf, rightEdge?_eq_some hi hhalf,
    rightNeighbor?_eq_some hi hhalf⟩, Ring.lay_eq_ok hn plan, lanes, _, _, hwire,
    Ring.seat_of_wire pacing hwire, rfl, by simp [r], by simp [r, Ring.laid, Table.seats],
    fun e he => ?_, fun i hi => ?_, Ring.full_eq_initial hlanes, ?_⟩
  · rw [Ring.view_laid hlanes]
    exact (Ring.sound_initial (r := r) hn).oneFork e he
  · refine ⟨_, _, hwiring i hi, Ring.philosopher?_laid (r := r) hi, rfl, rfl, rfl, ?_,
      fun side => ⟨?_, ?_, ?_⟩⟩
    · rw [Ring.diner_initial (r := r) hi]
      rfl
    · rw [Ring.diner_initial (r := r) hi]
      rfl
    · rw [Wiring.endpoint_ofSeat]
    · rw [Wiring.endpoint_ofSeat]
  · intro l hl i hi w hw side hroom
    obtain rfl : Wiring.ofSeat n i = w := Option.some.inj ((hwiring i hi).symm.trans hw)
    rw [Wiring.endpoint_ofSeat] at hroom
    obtain ⟨l', hgive, htake, hother⟩ := Ring.exists_delivery hl hi side hroom
    refine ⟨l', hgive, fun j hj v hv other => ?_⟩
    obtain rfl : Wiring.ofSeat n j = v := Option.some.inj ((hwiring j hj).symm.trans hv)
    split_ifs with heq
    · obtain ⟨rfl, rfl⟩ := heq
      exact htake
    · exact hother j hj other heq

/-- At a table of two both edges join the same seats.  A fork that the first seat gives on its
right is taken by the second on its left, and nothing can be seen of it on the second's right. -/
theorem live_layout_agrees_at_two :
    2 ≤ 2 ∧ 2 < 2 ^ 62 ∧
    ∃ lanes wirings w v, Ring.wire ⟨2, .uniform⟩ = .ok (lanes, wirings) ∧ wirings[0]? = some w ∧
      wirings[1]? = some v ∧ lanes.full (.towardRight 1) = true ∧
      ∃ l', w.right.give (.ofEdges 2) = .done l' ∧ v.left.take l' = .done (.ofEdges 2) ∧
        l'.get v.right.inbound = (Lanes.ofEdges 2).get v.right.inbound := by
  obtain ⟨-, -, lanes, wirings, _, hwire, -, -, -, -, -, hseats, hfull, hdelivery⟩ :=
    live_layout_agrees_with_initial (n := 2) (by decide) (by decide) .uniform ⟨0, 0⟩
  obtain ⟨w, -, hw, -⟩ := hseats 0 (by decide)
  obtain ⟨v, -, hv, -⟩ := hseats 1 (by decide)
  obtain ⟨l', hgive, hends⟩ := hdelivery (.ofEdges 2) (Lanes.ready_ofEdges 2) 0 (by decide) w hw
    .right (Lanes.full_ofEdges 2 _)
  have hleft := hends 1 (by decide) v hv .left
  have hright := hends 1 (by decide) v hv .right
  rw [if_pos (by decide)] at hleft
  rw [if_neg (by decide)] at hright
  exact ⟨by decide, by decide, lanes, wirings, w, v, hwire, hw, hv, hfull _, l', hgive, hleft,
    hright⟩

end DiningRing
