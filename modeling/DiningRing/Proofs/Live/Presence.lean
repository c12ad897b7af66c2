/-
# Tables that diners leave

A diner who leaves drops the ends of both links: the forks in its hands are lost, and so is what
was on its way to it.  Each lane remembers who has left it, so that `Table.Linked` can say of a
table with empty seats what `Table.AtWork` says of a full one: everybody sits at the ends of their
own seat, and a lane has been left at an end exactly when the seat there is empty.  A fork that
has arrived can then be taken (`Table.Linked.take_eq`), one for which there is room can be handed
back (`Table.Linked.give_eq`), and a transfer is refused only where the neighbour is gone.

Whoever leaves takes no fork from an edge between two others (`Table.Linked.forksOn_drop`).
-/
import DiningRing.Proofs.Live.Custody
import DiningRing.Proofs.Live.Layout

namespace DiningRing

/-! ### Lanes of which some have been left -/

namespace Lanes

variable {n : ℕ} {l : Lanes} {slot other : Slot} {lane : Lane} {full : Bool}

/-- A lane in either direction for each of `n` edges. -/
structure Sized (n : ℕ) (l : Lanes) : Prop where
  towardRight : l.towardRight.size = n
  towardLeft : l.towardLeft.size = n

lemma Sized.set (hl : l.Sized n) : (l.set slot lane).Sized n := by
  cases slot with
  | towardRight e => exact ⟨by simp [Lanes.set, hl.towardRight], hl.towardLeft⟩
  | towardLeft e => exact ⟨hl.towardRight, by simp [Lanes.set, hl.towardLeft]⟩

lemma Sized.get_set (hl : l.Sized n) (hslot : slot.edge < n) (lane : Lane) (other : Slot) :
    (l.set slot lane).get other = if other = slot then lane else l.get other := by
  split_ifs with hother
  · subst hother
    cases other with
    | towardRight e =>
      have he : e < l.towardRight.size := hl.towardRight ▸ hslot
      simp [Lanes.set, get, Array.getD_eq_getD_getElem?, he]
    | towardLeft e =>
      have he : e < l.towardLeft.size := hl.towardLeft ▸ hslot
      simp [Lanes.set, get, Array.getD_eq_getD_getElem?, he]
  · exact get_set_ne hother

/-- The lanes after a fork has been put into a lane or taken out of it. -/
def fill (l : Lanes) (slot : Slot) (full : Bool) : Lanes :=
  l.set slot { l.get slot with full := full }

/-- Whoever has left a lane has left it whether there is a fork in it or not. -/
lemma get_fill_gone (l : Lanes) (slot : Slot) (full : Bool) (other : Slot) :
    ((l.fill slot full).get other).senderGone = (l.get other).senderGone ∧
      ((l.fill slot full).get other).receiverGone = (l.get other).receiverGone := by
  by_cases hne : other = slot
  · subst hne
    rcases l.get_set_self_or other { l.get other with full := full } with h | h
    · rw [fill, h]
      exact ⟨rfl, rfl⟩
    · rw [fill, h]
      exact ⟨rfl, rfl⟩
  · rw [fill, get_set_ne hne]
    exact ⟨rfl, rfl⟩

end Lanes

namespace Endpoint

variable {n i : ℕ} {l : Lanes}

lemma take_eq (e : Endpoint) (l : Lanes) : e.take l
    = if l.full e.inbound then .done (l.fill e.inbound false)
      else if (l.get e.inbound).senderGone then .closed else .pending := by
  rw [take, Lane.receive, Lanes.full]
  split_ifs <;> rfl

lemma give_eq (e : Endpoint) (l : Lanes) : e.give l
    = if (l.get e.outbound).receiverGone then .closed
      else if l.full e.outbound then .pending else .done (l.fill e.outbound true) := by
  rw [give, Lane.send, Lanes.full]
  split_ifs <;> rfl

lemma sized_leave (hl : l.Sized n) (e : Endpoint) : (e.leave l).Sized n := by
  rw [leave]
  exact hl.set.set

section Leave

variable (hl : l.Sized n) (hi : i < n) (side : Side)
include hl hi

/-- Of the end on a side of a seat, the one lane loses its receiver and the other its sender. -/
lemma get_leave (slot : Slot) : (((Wiring.ofSeat n i).endpoint side).leave l).get slot
    = if slot = Slot.outbound n i side then (l.get slot).leaveSender
      else if slot = Slot.inbound n i side then (l.get slot).leaveReceiver else l.get slot := by
  have hin : (Slot.inbound n i side).edge < n := by
    rw [Slot.edge_inbound]
    exact Seat.edge_lt hi side
  have hout : (Slot.outbound n i side).edge < n := by
    rw [Slot.edge_outbound]
    exact Seat.edge_lt hi side
  rw [Wiring.endpoint_ofSeat, leave, hl.set.get_set hout, hl.get_set hin, hl.get_set hin,
    if_neg (Slot.inbound_ne_outbound n i side).symm]
  split_ifs with hs hs'
  · rw [hs]
  · rw [hs']
  · rfl

lemma senderGone_leave (slot : Slot) :
    ((((Wiring.ofSeat n i).endpoint side).leave l).get slot).senderGone = true ↔
      slot = Slot.outbound n i side ∨ (l.get slot).senderGone = true := by
  rw [get_leave hl hi]
  split_ifs with hs hs'
  · exact ⟨fun _ => .inl hs, fun _ => rfl⟩
  · exact ⟨.inr, fun h => h.resolve_left hs⟩
  · exact ⟨.inr, fun h => h.resolve_left hs⟩

lemma receiverGone_leave (slot : Slot) :
    ((((Wiring.ofSeat n i).endpoint side).leave l).get slot).receiverGone = true ↔
      slot = Slot.inbound n i side ∨ (l.get slot).receiverGone = true := by
  rw [get_leave hl hi]
  split_ifs with hs hs'
  · exact ⟨.inr, fun h => h.resolve_left (hs ▸ (Slot.inbound_ne_outbound n i side).symm)⟩
  · exact ⟨fun _ => .inl hs', fun _ => rfl⟩
  · exact ⟨.inr, fun h => h.resolve_left hs'⟩

lemma full_leave {slot : Slot} (hslot : slot ≠ Slot.inbound n i side) :
    (((Wiring.ofSeat n i).endpoint side).leave l).full slot = l.full slot := by
  rw [Lanes.full, get_leave hl hi, Lanes.full]
  split_ifs
  · rfl
  · rfl

end Leave

end Endpoint

/-! ### Tables with empty seats -/

namespace Table

variable {n i j e : ℕ} {t : Table} {p q : Philosopher} {call : Call} {side : Side}

/-- Everybody at a table for `n` sits at the ends of their seat and is in order; a lane has been
left at an end exactly when the seat there is empty. -/
structure Linked (n : ℕ) (t : Table) : Prop where
  fits : t.view.Fits n
  wiring : ∀ i p, t.philosopher? i = some p → p.wiring = Wiring.ofSeat n i
  orderly : ∀ i p call, t.philosopher? i = some p → p.call = some call → p.Orderly call
  senderGone : ∀ i < n, ∀ side,
    (t.lanes.get (Slot.outbound n i side)).senderGone = true ↔ t.philosopher? i = none
  receiverGone : ∀ i < n, ∀ side,
    (t.lanes.get (Slot.inbound n i side)).receiverGone = true ↔ t.philosopher? i = none

/-- Both philosophers who share the fork of an edge are at the table. -/
def Joined (n : ℕ) (t : Table) (e : ℕ) : Prop :=
  t.philosopher? e ≠ none ∧ t.philosopher? (Seat.next n e) ≠ none

lemma Linked.size (ht : t.Linked n) : t.philosophers.size = n := by
  have h := ht.fits.diners
  rwa [view, Array.size_map] at h

lemma Linked.lt (ht : t.Linked n) (hp : t.philosopher? i = some p) : i < n :=
  ht.size ▸ lt_size hp

lemma Linked.sized (ht : t.Linked n) : t.lanes.Sized n := by
  have hright := ht.fits.towardRight
  have hleft := ht.fits.towardLeft
  rw [view, Array.size_map] at hright hleft
  exact ⟨hright, hleft⟩

/-- The edge on a side of a seat is joined if both the seat and the neighbour there are taken. -/
lemma joined_edge (hi : i < n) (side : Side) : t.Joined n (Seat.edge n i side) ↔
    t.philosopher? i ≠ none ∧ t.philosopher? (Seat.neighbor n i side) ≠ none := by
  cases side with
  | left =>
    simp only [Joined, Seat.edge, Seat.neighbor, Seat.next_previous hi]
    exact and_comm
  | right => exact Iff.rfl

/-! ### Taking and giving -/

section Transfer

variable (ht : t.Linked n) (hi : i < n) (side : Side)
include ht hi

/-- A fork that has arrived is taken.  None arrives any more if the neighbour is gone. -/
lemma Linked.take_eq : ((Wiring.ofSeat n i).endpoint side).take t.lanes
    = if t.lanes.full (Slot.inbound n i side)
        then .done (t.lanes.fill (Slot.inbound n i side) false)
      else if t.philosopher? (Seat.neighbor n i side) = none then .closed else .pending := by
  have hgone := ht.senderGone _ (Slot.neighbor_lt hi side) side.opposite
  rw [Slot.outbound_eq_inbound (Slot.neighbor_lt hi side), Seat.neighbor_neighbor hi,
    Side.opposite_opposite] at hgone
  rw [Wiring.endpoint_ofSeat, Endpoint.take_eq]
  simp only [hgone]

/-- A fork for which there is room is handed back, unless the neighbour is gone. -/
lemma Linked.give_eq : ((Wiring.ofSeat n i).endpoint side).give t.lanes
    = if t.philosopher? (Seat.neighbor n i side) = none then .closed
      else if t.lanes.full (Slot.outbound n i side) then .pending
      else .done (t.lanes.fill (Slot.outbound n i side) true) := by
  have hgone := ht.receiverGone _ (Slot.neighbor_lt hi side) side.opposite
  rw [← Slot.outbound_eq_inbound hi] at hgone
  rw [Wiring.endpoint_ofSeat, Endpoint.give_eq]
  simp only [hgone]

end Transfer

/-! ### What keeps a table in order -/

lemma Linked.withClock (ht : t.Linked n) (clock : ℕ) : (t.withClock clock).Linked n :=
  ⟨ht.fits, ht.wiring, ht.orderly, ht.senderGone, ht.receiverGone⟩

lemma view_fill (t : Table) (slot : Slot) (full : Bool) :
    ({ t with lanes := t.lanes.fill slot full } : Table).view = t.view.setSlot slot full :=
  view_setLane t slot _

/-- The table stays in order when a fork is put into a lane or taken out of it. -/
lemma Linked.fill (ht : t.Linked n) (slot : Slot) (full : Bool) :
    ({ t with lanes := t.lanes.fill slot full } : Table).Linked n where
  fits := by
    rw [view_fill]
    exact ht.fits.setSlot
  wiring := ht.wiring
  orderly := ht.orderly
  senderGone i hi side := by
    rw [(t.lanes.get_fill_gone slot full _).1]
    exact ht.senderGone i hi side
  receiverGone i hi side := by
    rw [(t.lanes.get_fill_gone slot full _).2]
    exact ht.receiverGone i hi side

/-- Who is at the table does not change when somebody there is in another state. -/
lemma philosopher?_put_eq_none (hp : t.philosopher? i = some p) :
    (t.put i (some q)).philosopher? j = none ↔ t.philosopher? j = none := by
  by_cases hji : j = i
  · subst hji
    rw [philosopher?_put_self (lt_size hp), hp]
    simp
  · rw [philosopher?_put_ne hji]

/-- The table stays in order when somebody there goes to another state that is in order. -/
lemma Linked.put (ht : t.Linked n) (hp : t.philosopher? i = some p)
    (hwiring : q.wiring = Wiring.ofSeat n i)
    (horderly : ∀ call, q.call = some call → q.Orderly call) : (t.put i (some q)).Linked n where
  fits := by
    rw [view_put]
    exact ht.fits.setDiner
  wiring j p' hp' := by
    by_cases hji : j = i
    · subst hji
      rw [philosopher?_put_self (lt_size hp)] at hp'
      obtain rfl := Option.some.inj hp'
      exact hwiring
    · rw [philosopher?_put_ne hji] at hp'
      exact ht.wiring j p' hp'
  orderly j p' call hp' hcall := by
    by_cases hji : j = i
    · subst hji
      rw [philosopher?_put_self (lt_size hp)] at hp'
      obtain rfl := Option.some.inj hp'
      exact horderly call hcall
    · rw [philosopher?_put_ne hji] at hp'
      exact ht.orderly j p' call hp' hcall
  senderGone j hj side := (ht.senderGone j hj side).trans (philosopher?_put_eq_none hp).symm
  receiverGone j hj side := (ht.receiverGone j hj side).trans (philosopher?_put_eq_none hp).symm

/-! ### Leaving -/

lemma philosopher?_drop (t : Table) (i j : ℕ) :
    (t.drop i).philosopher? j = if j = i then none else t.philosopher? j := by
  cases hp : t.philosopher? i with
  | none =>
    simp only [drop, hp]
    split_ifs with hji
    · rw [hji, hp]
    · rfl
  | some p =>
    simp only [drop, hp]
    by_cases hji : j = i
    · subst hji
      rw [if_pos rfl]
      exact philosopher?_put_self (lt_size hp)
    · rw [if_neg hji]
      exact philosopher?_put_ne hji

/-- What has become of the lanes when a philosopher has left both ends. -/
structure Left (n i : ℕ) (l l' : Lanes) : Prop where
  sized : l'.Sized n
  senderGone : ∀ slot, (l'.get slot).senderGone = true ↔
    (∃ side, slot = Slot.outbound n i side) ∨ (l.get slot).senderGone = true
  receiverGone : ∀ slot, (l'.get slot).receiverGone = true ↔
    (∃ side, slot = Slot.inbound n i side) ∨ (l.get slot).receiverGone = true
  full : ∀ slot, (∀ side, slot ≠ Slot.inbound n i side) → l'.full slot = l.full slot

lemma left_leave {l : Lanes} (hl : l.Sized n) (hi : i < n) : Left n i l
    ((Wiring.ofSeat n i).right.leave ((Wiring.ofSeat n i).left.leave l)) := by
  have hfirst := Endpoint.sized_leave hl ((Wiring.ofSeat n i).endpoint .left)
  refine ⟨Endpoint.sized_leave hfirst _, fun slot => ?_, fun slot => ?_, fun slot hslot => ?_⟩
  · rw [Side.exists_iff, or_assoc, or_left_comm, ← Endpoint.senderGone_leave hl hi,
      ← Endpoint.senderGone_leave hfirst hi]
    rfl
  · rw [Side.exists_iff, or_assoc, or_left_comm, ← Endpoint.receiverGone_leave hl hi,
      ← Endpoint.receiverGone_leave hfirst hi]
    rfl
  · rw [← Endpoint.full_leave hl hi .left (hslot .left),
      ← Endpoint.full_leave hfirst hi .right (hslot .right)]
    rfl

/-- The table stays in order when somebody leaves. -/
lemma Linked.drop (ht : t.Linked n) (i : ℕ) : (t.drop i).Linked n := by
  cases hp : t.philosopher? i with
  | none =>
    have hsame : t.drop i = t := by simp only [Table.drop, hp]
    rw [hsame]
    exact ht
  | some p =>
    have hi := ht.lt hp
    have hleft := left_leave ht.sized hi
    have hdrop : t.drop i = { t.put i none with
        lanes := (Wiring.ofSeat n i).right.leave ((Wiring.ofSeat n i).left.leave t.lanes) } := by
      simp only [Table.drop, hp, ht.wiring i p hp]
    have hlanes : (t.drop i).lanes
        = (Wiring.ofSeat n i).right.leave ((Wiring.ofSeat n i).left.leave t.lanes) := by
      rw [hdrop]
    refine ⟨⟨?_, ?_, ?_⟩, fun j q hq => ?_, fun j q call hq => ?_, fun j hj side => ?_,
      fun j hj side => ?_⟩
    · rw [hdrop]
      simpa [view, Table.put] using ht.size
    · rw [view, Array.size_map, hlanes]
      exact hleft.sized.towardRight
    · rw [view, Array.size_map, hlanes]
      exact hleft.sized.towardLeft
    · rw [philosopher?_drop] at hq
      split_ifs at hq
      exact ht.wiring j q hq
    · rw [philosopher?_drop] at hq
      split_ifs at hq
      exact ht.orderly j q call hq
    · rw [hlanes, hleft.senderGone, ht.senderGone j hj, philosopher?_drop]
      simp only [Slot.outbound_inj hj hi]
      split_ifs with hji
      · exact ⟨fun _ => rfl, fun _ => .inl ⟨side, hji, rfl⟩⟩
      · refine ⟨fun h => h.resolve_left ?_, .inr⟩
        rintro ⟨_, h, -⟩
        exact hji h
    · rw [hlanes, hleft.receiverGone, ht.receiverGone j hj, philosopher?_drop]
      simp only [Slot.inbound_inj hj hi]
      split_ifs with hji
      · exact ⟨fun _ => rfl, fun _ => .inl ⟨side, hji, rfl⟩⟩
      · refine ⟨fun h => h.resolve_left ?_, .inr⟩
        rintro ⟨_, h, -⟩
        exact hji h

/-- **Nobody takes a fork along from an edge between two others.** -/
theorem Linked.forksOn_drop (ht : t.Linked n) (he : e < n) (hleft : e ≠ i)
    (hright : Seat.next n e ≠ i) : (t.drop i).view.forksOn n e = t.view.forksOn n e := by
  cases hp : t.philosopher? i with
  | none => simp only [Table.drop, hp]
  | some p =>
    have hi := ht.lt hp
    have hlanes : ∀ slot, (∀ side, slot ≠ Slot.inbound n i side) →
        (t.drop i).view.slot slot = t.view.slot slot := by
      intro slot hslot
      rw [slot_view, slot_view, ← (left_leave ht.sized hi).full slot hslot]
      simp only [Table.drop, hp, ht.wiring i p hp]
    have hdiner : ∀ j, j ≠ i → (t.drop i).view.diner j = t.view.diner j := by
      intro j hji
      have hview : (t.drop i).view.diners = (t.put i none).view.diners := by
        simp only [Table.drop, hp]
        rfl
      rw [RingState.diner, hview, view_put]
      exact RingState.diner_setDiner_ne hji
    have hprevious : e ≠ Seat.previous n i := fun h => hright ((Seat.next_eq_iff he hi).mpr h)
    rw [RingState.forksOn, RingState.hand, RingState.hand, hdiner e hleft, hdiner _ hright,
      hlanes, hlanes]
    · rfl
    · intro side
      cases side with
      | left => simp [Slot.inbound]
      | right => simpa [Slot.inbound] using hleft
    · intro side
      cases side with
      | left => simpa [Slot.inbound] using hprevious
      | right => simp [Slot.inbound]

/-! ### Calls -/

lemma call_eq (hp : t.philosopher? i = some p) (q : Request) :
    t.call i q = t.put i (some { p with call := some (q.call p) }) := by
  simp only [Table.call, hp]

/-- The table stays in order when somebody is asked for something. -/
lemma Linked.ask (ht : t.Linked n) (i : ℕ) (q : Request) : (t.call i q).Linked n := by
  cases hp : t.philosopher? i with
  | none =>
    have hsame : t.call i q = t := by simp only [Table.call, hp]
    rw [hsame]
    exact ht
  | some p =>
    rw [call_eq hp]
    refine ht.put hp (ht.wiring i p hp) ?_
    rintro call hcalled
    obtain rfl := Option.some.inj hcalled
    exact Philosopher.orderly_call _ p q

/-- Nothing is seen of it as long as the philosopher has not had a turn. -/
lemma view_call (hresting : ∀ p, t.philosopher? i = some p → p.call = none) (q : Request) :
    (t.call i q).view = t.view := by
  cases hp : t.philosopher? i with
  | none => simp only [Table.call, hp]
  | some p =>
    have hshown : Philosopher.shownAt (some { p with call := some (q.call p) })
        = t.view.diner i := by
      rw [diner_view hp, Philosopher.shown, Philosopher.lifted, hresting p hp]
      rfl
    rw [call_eq hp, view_put, hshown, RingState.setDiner_diner]

lemma Linked.runBelow (ht : t.Linked n) (k : ℕ) : (t.runBelow k).Linked n := by
  induction k with
  | zero => exact ht
  | succ k ih =>
    rw [runBelow_succ]
    exact ih.ask k .run

end Table

/-- Whoever is at a table just laid has just sat down. -/
lemma Ring.eq_sit_of_laid {r : Ring} {pacing : Pacing} {l : Lanes} {i : ℕ} {p : Philosopher}
    (hp : (r.laid pacing l).philosopher? i = some p) :
    p = Philosopher.sit (Wiring.ofSeat r.seats i) (r.assignment i) pacing := by
  have hi : i < r.seats := by
    have hlt := Table.lt_size hp
    simpa [laid] using hlt
  rw [philosopher?_laid hi] at hp
  exact (Option.some.inj hp).symm

/-- A table just laid is in order. -/
lemma Ring.linked_laid {r : Ring} {pacing : Pacing} {l : Lanes} (hl : r.Preloaded r.seats l) :
    (r.laid pacing l).Linked r.seats := by
  have hfits : (r.laid pacing l).view.Fits r.seats := by
    rw [view_laid hl]
    exact r.fits_initial
  refine ⟨hfits, fun i p hp => ?_, fun i p call hp hcall => ?_, fun i hi side => ?_,
    fun i hi side => ?_⟩
  · obtain rfl := eq_sit_of_laid hp
    rfl
  · obtain rfl := eq_sit_of_laid hp
    cases hcall
  · rw [philosopher?_laid hi]
    simp [laid, (hl.ready.isOpen _).1]
  · rw [philosopher?_laid hi]
    simp [laid, (hl.ready.isOpen _).2]

end DiningRing
