/-
# Live tables seen as ring states

`Table.view` is what a live table shows: the phase and the forks of every philosopher, lifted
forks counted as held, and which lanes have a fork in flight.  It is a state of the step
model, and writing a philosopher or a lane shows as writing a diner or a slot.

As long as nobody has left, a lane is just a slot: a fork can be received when the slot is
full and sent when it is empty (`Endpoint.take_of_open`, `Endpoint.give_of_open`).
-/
import DiningRing.Live.Table
import DiningRing.Proofs.Live.Agenda

namespace DiningRing

/-! ### Lanes that nobody has left -/

namespace Lanes

variable {l : Lanes} {lane : Lane} {slot other : Slot}

/-- Both ends of every lane are there. -/
def Open (l : Lanes) : Prop :=
  ∀ slot, (l.get slot).senderGone = false ∧ (l.get slot).receiverGone = false

lemma get_set_ne (hne : other ≠ slot) : (l.set slot lane).get other = l.get other := by
  cases slot <;> cases other <;> try rfl
  · have hne : _ ≠ _ := fun h => hne (congrArg Slot.towardRight h)
    simp [set, get, Array.getD_eq_getD_getElem?, Array.getElem?_setIfInBounds_ne hne.symm]
  · have hne : _ ≠ _ := fun h => hne (congrArg Slot.towardLeft h)
    simp [set, get, Array.getD_eq_getD_getElem?, Array.getElem?_setIfInBounds_ne hne.symm]

/-- A lane that is there has been written, one that is not stays as it was. -/
lemma get_set_self_or (l : Lanes) (slot : Slot) (lane : Lane) :
    (l.set slot lane).get slot = lane ∨ (l.set slot lane).get slot = l.get slot := by
  cases slot with
  | towardRight e =>
    by_cases he : e < l.towardRight.size
    · exact .inl (by simp [set, get, Array.getD_eq_getD_getElem?, he])
    · exact .inr (by simp [set, get, Array.setIfInBounds, he])
  | towardLeft e =>
    by_cases he : e < l.towardLeft.size
    · exact .inl (by simp [set, get, Array.getD_eq_getD_getElem?, he])
    · exact .inr (by simp [set, get, Array.setIfInBounds, he])

lemma Open.set (hl : l.Open) {full : Bool} : (l.set slot ⟨full, false, false⟩).Open := by
  intro other
  by_cases hne : other = slot
  · subst hne
    rcases l.get_set_self_or other ⟨full, false, false⟩ with h | h
    · rw [h]
      exact ⟨rfl, rfl⟩
    · rw [h]
      exact hl other
  · rw [get_set_ne hne]
    exact hl other

/-- A lane that nobody has left is told by whether a fork is in flight. -/
lemma Open.get_eq (hl : l.Open) (slot : Slot) : l.get slot = ⟨l.full slot, false, false⟩ := by
  obtain ⟨hs, hr⟩ := hl slot
  show (⟨(l.get slot).full, (l.get slot).senderGone, (l.get slot).receiverGone⟩ : Lane) = _
  rw [hs, hr]
  rfl

end Lanes

namespace Endpoint

variable {l : Lanes}

lemma take_of_open (hl : l.Open) (e : Endpoint) : e.take l
    = if l.full e.inbound then .done (l.set e.inbound ⟨false, false, false⟩) else .pending := by
  rw [take, hl.get_eq, Lane.receive]
  cases l.full e.inbound <;> rfl

lemma give_of_open (hl : l.Open) (e : Endpoint) : e.give l
    = if l.full e.outbound then .pending else .done (l.set e.outbound ⟨true, false, false⟩) := by
  rw [give, hl.get_eq, Lane.send]
  cases l.full e.outbound <;> rfl

end Endpoint

/-- The ends that belong to a seat at a table of `n`. -/
def Wiring.ofSeat (n seat : ℕ) : Wiring where
  seat := seat
  left := ⟨Slot.inbound n seat .left, Slot.outbound n seat .left⟩
  right := ⟨Slot.inbound n seat .right, Slot.outbound n seat .right⟩

lemma Wiring.endpoint_ofSeat (n seat : ℕ) (side : Side) : (Wiring.ofSeat n seat).endpoint side
    = ⟨Slot.inbound n seat side, Slot.outbound n seat side⟩ := by
  cases side <;> rfl

/-! ### Views -/

/-- The forks that a philosopher has lifted. -/
def Philosopher.lifted (p : Philosopher) : Hands :=
  match p.call with
  | some call => call.lifted
  | none => .empty

/-- What a philosopher shows to others. -/
def Philosopher.shown (p : Philosopher) : Diner := p.seen p.lifted

/-- What an empty or occupied seat shows to others. -/
def Philosopher.shownAt : Option Philosopher → Diner
  | some p => p.shown
  | none => .fresh

namespace Table

variable {t : Table} {i j n : ℕ} {p : Philosopher} {p? : Option Philosopher}

/-- What a live table shows. -/
def view (t : Table) : RingState where
  diners := t.philosophers.map Philosopher.shownAt
  towardRight := t.lanes.towardRight.map Lane.full
  towardLeft := t.lanes.towardLeft.map Lane.full

lemma slot_view (t : Table) (slot : Slot) : t.view.slot slot = t.lanes.full slot := by
  cases slot with
  | towardRight e =>
    simp only [view, RingState.slot, Lanes.full, Lanes.get, Array.getD_eq_getD_getElem?,
      Array.getElem?_map]
    cases t.lanes.towardRight[e]? <;> rfl
  | towardLeft e =>
    simp only [view, RingState.slot, Lanes.full, Lanes.get, Array.getD_eq_getD_getElem?,
      Array.getElem?_map]
    cases t.lanes.towardLeft[e]? <;> rfl

lemma getElem?_philosophers (hp : t.philosopher? i = some p) :
    t.philosophers[i]? = some (some p) := by
  rw [philosopher?] at hp
  cases h : t.philosophers[i]? with
  | none => simp [h] at hp
  | some p? =>
    obtain rfl : p? = some p := by simpa [h] using hp
    rfl

lemma diner_view (hp : t.philosopher? i = some p) : t.view.diner i = p.shown := by
  simp [view, RingState.diner, Array.getD_eq_getD_getElem?, getElem?_philosophers hp,
    Philosopher.shownAt]

lemma lt_size (hp : t.philosopher? i = some p) : i < t.philosophers.size :=
  (Array.getElem?_eq_some_iff.mp (getElem?_philosophers hp)).1

/-! ### Writing a philosopher or a lane -/

lemma philosopher?_put_self (hi : i < t.philosophers.size) :
    (t.put i p?).philosopher? i = p? := by
  simp [put, philosopher?, hi]

lemma philosopher?_put_ne (hji : j ≠ i) : (t.put i p?).philosopher? j = t.philosopher? j := by
  simp [put, philosopher?, Array.getElem?_setIfInBounds_ne hji.symm]

lemma view_put (t : Table) (i : ℕ) (p? : Option Philosopher) :
    (t.put i p?).view = t.view.setDiner i (Philosopher.shownAt p?) := by
  simp [view, put, RingState.setDiner, Array.map_setIfInBounds]

lemma view_setLane (t : Table) (slot : Slot) (lane : Lane) :
    ({ t with lanes := t.lanes.set slot lane } : Table).view = t.view.setSlot slot lane.full := by
  cases slot <;> simp [view, Lanes.set, RingState.setSlot, Array.map_setIfInBounds]

end Table

end DiningRing
