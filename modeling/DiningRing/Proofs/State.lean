/-
# Reading and writing ring states

What a ring state holds after one of its diners or slots has been written, and what an
action of a seat does to it: `Diner.after` is its effect on the diner of the seat, all other
diners stay as they are, and of the slots only the one changes from which a fork is taken or
into which one is given.
-/
import DiningRing.Model
import DiningRing.Proofs.Neighbours

namespace DiningRing

namespace RingState

variable {n i j : ℕ} {s t : RingState} {d e : Diner} {a b : Slot} {full : Bool}

/-- A state with a diner for each of `n` seats and two slots for each of `n` edges. -/
structure Fits (n : ℕ) (s : RingState) : Prop where
  diners : s.diners.size = n
  towardRight : s.towardRight.size = n
  towardLeft : s.towardLeft.size = n

/-- Whether the hand on a side of a seat has its fork. -/
def hand (s : RingState) (seat : ℕ) (side : Side) : Bool := (s.diner seat).hands.holds side

/-- States of one table are told apart by their diners and their slots. -/
lemma Fits.ext (hs : s.Fits n) (ht : t.Fits n) (hdiner : ∀ i < n, s.diner i = t.diner i)
    (hright : ∀ e < n, s.slot (.towardRight e) = t.slot (.towardRight e))
    (hleft : ∀ e < n, s.slot (.towardLeft e) = t.slot (.towardLeft e)) : s = t := by
  have hdiners : s.diners = t.diners := by
    refine Array.ext (hs.diners.trans ht.diners.symm) fun i hi hi' => ?_
    simpa [diner, Array.getD_eq_getD_getElem?, hi, hi'] using hdiner i (hs.diners ▸ hi)
  have hright : s.towardRight = t.towardRight := by
    refine Array.ext (hs.towardRight.trans ht.towardRight.symm) fun e he he' => ?_
    simpa [slot, Array.getD_eq_getD_getElem?, he, he'] using hright e (hs.towardRight ▸ he)
  have hleft : s.towardLeft = t.towardLeft := by
    refine Array.ext (hs.towardLeft.trans ht.towardLeft.symm) fun e he he' => ?_
    simpa [slot, Array.getD_eq_getD_getElem?, he, he'] using hleft e (hs.towardLeft ▸ he)
  cases s
  cases t
  simp_all

/-! ### Writing a diner -/

lemma diner_setDiner_self (hi : i < s.diners.size) : (s.setDiner i d).diner i = d := by
  simp [setDiner, diner, Array.getD_eq_getD_getElem?, hi]

lemma diner_setDiner_ne (hij : j ≠ i) : (s.setDiner i d).diner j = s.diner j := by
  simp [setDiner, diner, Array.getD_eq_getD_getElem?, Array.getElem?_setIfInBounds_ne hij.symm]

@[simp] lemma slot_setDiner : (s.setDiner i d).slot a = s.slot a := by
  cases a <;> rfl

@[simp] lemma setDiner_setDiner : (s.setDiner i d).setDiner i e = s.setDiner i e := by
  simp [setDiner]

@[simp] lemma setDiner_diner : s.setDiner i (s.diner i) = s := by
  have hdiners : s.diners.setIfInBounds i (s.diner i) = s.diners := by
    refine Array.ext_getElem? fun j => ?_
    rw [Array.getElem?_setIfInBounds]
    split_ifs with hji hi
    · subst hji
      simp [diner, Array.getD_eq_getD_getElem?, hi]
    · subst hji
      simp [hi]
    · rfl
  rw [setDiner, hdiners]

lemma hand_setDiner (hs : s.Fits n) (hi : i < n) (j : ℕ) (side : Side) :
    (s.setDiner i d).hand j side = if j = i then d.hands.holds side else s.hand j side := by
  by_cases hji : j = i
  · subst hji
    rw [hand, diner_setDiner_self (hs.diners ▸ hi), if_pos rfl]
  · rw [hand, diner_setDiner_ne hji, if_neg hji, hand]

lemma Fits.setDiner (h : s.Fits n) : (s.setDiner i d).Fits n :=
  ⟨by simp [RingState.setDiner, h.diners], h.towardRight, h.towardLeft⟩

/-! ### Writing a slot -/

@[simp] lemma diner_setSlot : (s.setSlot a full).diner i = s.diner i := by
  cases a <;> rfl

lemma slot_setSlot_self (ha : s.hasSlot a = true) : (s.setSlot a full).slot a = full := by
  cases a <;> simp_all [setSlot, slot, hasSlot, Array.getD_eq_getD_getElem?]

lemma slot_setSlot_ne (hab : b ≠ a) : (s.setSlot a full).slot b = s.slot b := by
  cases a <;> cases b <;> try rfl
  · have hne : _ ≠ _ := fun h => hab (congrArg Slot.towardRight h)
    simp [setSlot, slot, Array.getD_eq_getD_getElem?, Array.getElem?_setIfInBounds_ne hne.symm]
  · have hne : _ ≠ _ := fun h => hab (congrArg Slot.towardLeft h)
    simp [setSlot, slot, Array.getD_eq_getD_getElem?, Array.getElem?_setIfInBounds_ne hne.symm]

lemma Fits.setSlot (h : s.Fits n) : (s.setSlot a full).Fits n := by
  cases a
  · exact ⟨h.diners, by simp [RingState.setSlot, h.towardRight], h.towardLeft⟩
  · exact ⟨h.diners, h.towardRight, by simp [RingState.setSlot, h.towardLeft]⟩

lemma Fits.hasInbound (h : s.Fits n) (hi : i < n) (side : Side) :
    s.hasSlot (Slot.inbound n i side) = true := by
  cases side <;> simp [Slot.inbound, hasSlot, h.towardRight, h.towardLeft, hi,
    Seat.previous_lt hi]

lemma Fits.hasOutbound (h : s.Fits n) (hi : i < n) (side : Side) :
    s.hasSlot (Slot.outbound n i side) = true := by
  cases side <;> simp [Slot.outbound, hasSlot, h.towardRight, h.towardLeft, hi,
    Seat.previous_lt hi]

end RingState

/-! ### The effect of an action -/

/-- A diner after an action of its own. -/
def Diner.after (d : Diner) : Action → Diner
  | .startWaiting => { d with phase := .waiting }
  | .take side => { d with hands := d.hands.set side true }
  | .eat => { d with phase := .eating }
  | .finish => { d with phase := .releasing }
  | .give side =>
    ⟨if (d.hands.set side false).neither then .idle else d.phase, d.hands.set side false⟩

/-- Whether an action moves a fork between a hand and a slot. -/
def Action.transfers : Action → Bool
  | .take _ | .give _ => true
  | .startWaiting | .eat | .finish => false

namespace Ring

variable {r : Ring} {s : RingState} {i j n : ℕ} {a : Action} {side : Side}

/-- An action that transfers no fork only changes the diner. -/
lemma perform_of_not_transfers (ha : a.transfers = false) :
    r.perform s i a = s.setDiner i ((s.diner i).after a) := by
  cases a with
  | take side | give side => simp [Action.transfers] at ha
  | startWaiting | eat | finish => rfl

lemma diner_perform_self (hs : s.Fits r.seats) (hi : i < r.seats) :
    (r.perform s i a).diner i = (s.diner i).after a := by
  rw [← hs.diners] at hi
  cases a with
  | take side => exact RingState.diner_setDiner_self (by cases side <;> exact hi)
  | give side => exact RingState.diner_setDiner_self (by cases side <;> exact hi)
  | startWaiting | eat | finish => exact RingState.diner_setDiner_self hi

lemma diner_perform_ne (hji : j ≠ i) : (r.perform s i a).diner j = s.diner j := by
  cases a <;> simp [perform, RingState.diner_setDiner_ne hji]

/-- What holds of the diner who has acted, and held of all others, holds of every diner. -/
lemma forall_diner_perform {P : ℕ → Diner → Prop} (hs : s.Fits r.seats) (hi : i < r.seats)
    (hself : P i ((s.diner i).after a)) (hother : ∀ j < r.seats, j ≠ i → P j (s.diner j)) :
    ∀ j < r.seats, P j ((r.perform s i a).diner j) := by
  intro j hj
  by_cases hji : j = i
  · rw [hji, diner_perform_self hs hi]
    exact hself
  · rw [diner_perform_ne hji]
    exact hother j hj hji

lemma fits_perform (h : s.Fits n) : (r.perform s i a).Fits n := by
  cases a with
  | take side => exact h.setSlot.setDiner
  | give side => exact h.setSlot.setDiner
  | startWaiting | eat | finish => exact h.setDiner

/-! ### The effect on hands and slots -/

section

variable (hs : s.Fits r.seats) (hi : i < r.seats)
include hs hi

/-- An action that sets one hand of a seat leaves all other hands as they are. -/
lemma hand_perform_of_set {full : Bool}
    (ha : ((s.diner i).after a).hands = (s.diner i).hands.set side full) (j : ℕ) (other : Side) :
    (r.perform s i a).hand j other
      = if j = i ∧ other = side then full else s.hand j other := by
  by_cases hji : j = i
  · subst hji
    rw [RingState.hand, diner_perform_self hs hi, ha]
    by_cases h : other = side
    · simp [h]
    · simp [h, Ne.symm h, RingState.hand]
  · rw [RingState.hand, diner_perform_ne hji, if_neg (fun h => hji h.1), RingState.hand]

/-- A seat that takes a fork has it in its hand then. -/
lemma hand_perform_take (j : ℕ) (other : Side) :
    (r.perform s i (.take side)).hand j other
      = if j = i ∧ other = side then true else s.hand j other :=
  hand_perform_of_set hs hi rfl j other

/-- A seat that gives a fork no longer has it in its hand. -/
lemma hand_perform_give (j : ℕ) (other : Side) :
    (r.perform s i (.give side)).hand j other
      = if j = i ∧ other = side then false else s.hand j other :=
  hand_perform_of_set hs hi rfl j other

lemma slot_perform_take (slot : Slot) :
    (r.perform s i (.take side)).slot slot
      = if slot = Slot.inbound r.seats i side then false else s.slot slot := by
  rw [perform, RingState.slot_setDiner]
  split_ifs with h
  · rw [h, RingState.slot_setSlot_self (hs.hasInbound hi side)]
  · exact RingState.slot_setSlot_ne h

lemma slot_perform_give (slot : Slot) :
    (r.perform s i (.give side)).slot slot
      = if slot = Slot.outbound r.seats i side then true else s.slot slot := by
  rw [perform, RingState.slot_setDiner]
  split_ifs with h
  · rw [h, RingState.slot_setSlot_self (hs.hasOutbound hi side)]
  · exact RingState.slot_setSlot_ne h

/-- An action that transfers no fork leaves all hands as they are. -/
lemma hand_perform_of_not_transfers (ha : a.transfers = false) (j : ℕ) (other : Side) :
    (r.perform s i a).hand j other = s.hand j other := by
  by_cases hji : j = i
  · subst hji
    rw [RingState.hand, diner_perform_self hs hi, RingState.hand]
    cases a with
    | take side | give side => simp [Action.transfers] at ha
    | startWaiting | eat | finish => rfl
  · rw [RingState.hand, diner_perform_ne hji, RingState.hand]

omit hs hi in
/-- An action that transfers no fork leaves all slots as they are. -/
lemma slot_perform_of_not_transfers (ha : a.transfers = false) (slot : Slot) :
    (r.perform s i a).slot slot = s.slot slot := by
  cases a with
  | take side | give side => simp [Action.transfers] at ha
  | startWaiting | eat | finish => exact RingState.slot_setDiner

end

end Ring

end DiningRing
