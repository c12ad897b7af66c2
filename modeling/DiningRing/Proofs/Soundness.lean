/-
# Sound states

A state is sound if every edge carries one fork, everyone who eats holds both forks, and
everyone who hands back still holds the right one.  This is what the check of a state leaves
out and every step needs: every ring starts in a sound state, and every step from one leads
to one, whatever the plan that tells the seats in which order to reach for their forks.

In a sound state no call is refused, and nobody who hands back a fork is ever blocked.
-/
import DiningRing.Proofs.Conservation

namespace DiningRing

namespace RingState

variable {n i : ℕ} {s : RingState} {side : Side}

/-- A sound state of a table of `n`. -/
structure Sound (n : ℕ) (s : RingState) : Prop where
  fits : s.Fits n
  oneFork : ∀ e < n, s.forksOn n e = 1
  eating : ∀ i < n, (s.diner i).phase = .eating → (s.diner i).hands.both = true
  releasing : ∀ i < n, (s.diner i).phase = .releasing → s.hand i .right = true

/-- **Each fork is in one place**: in the hand of a seat, in the hand across the edge, on
its way in or on its way out. -/
lemma Sound.one_place (hs : s.Sound n) (hi : i < n) (side : Side) :
    (s.hand i side).toNat + (s.hand (Seat.neighbor n i side) side.opposite).toNat
      + (s.slot (Slot.inbound n i side)).toNat + (s.slot (Slot.outbound n i side)).toNat = 1 := by
  rw [← forksOn_edge s hi side]
  exact hs.oneFork _ (Seat.edge_lt hi side)

lemma Sound.inbound_of_hand (hs : s.Sound n) (hi : i < n) (h : s.hand i side = true) :
    s.slot (Slot.inbound n i side) = false := by
  have hone := hs.one_place hi side
  rw [h, Bool.toNat_true] at hone
  exact Bool.toNat_eq_zero.mp (by omega)

lemma Sound.outbound_of_hand (hs : s.Sound n) (hi : i < n) (h : s.hand i side = true) :
    s.slot (Slot.outbound n i side) = false := by
  have hone := hs.one_place hi side
  rw [h, Bool.toNat_true] at hone
  exact Bool.toNat_eq_zero.mp (by omega)

lemma Sound.both_of_eating (hs : s.Sound n) (hi : i < n) (hp : (s.diner i).phase = .eating)
    (side : Side) : s.hand i side = true := by
  have h := hs.eating i hi hp
  simp only [Hands.both, Bool.and_eq_true] at h
  cases side
  · exact h.1
  · exact h.2

/-- There are as many forks as seats. -/
lemma Sound.inHand_add_inFlight (hs : s.Sound n) : s.inHand + s.inFlight = n :=
  inHand_add_inFlight_of_one hs.fits hs.oneFork

/-- Neighbours do not eat together. -/
lemma Sound.not_eating_next (hs : s.Sound n) (hi : i < n) (hp : (s.diner i).phase = .eating) :
    (s.diner (Seat.next n i)).phase ≠ .eating := fun hnext =>
  not_eating_together hi (hs.oneFork i hi) hs.eating ⟨hp, hnext⟩

end RingState

/-! ### Steps between sound states -/

namespace Ring

open RingState (Sound)

variable {r : Ring} {s : RingState} {i : ℕ} {a : Action}

lemma both_after (h : r.Ready s i a)
    (hp : ((s.diner i).after a).phase = .eating) : ((s.diner i).after a).hands.both = true := by
  cases h with
  | startWaiting | finish => simp [Diner.after] at hp
  | take side hw => simp [Diner.after, hw] at hp
  | eat _ hb => exact hb
  | give side hr =>
    simp only [Diner.after, hr] at hp
    split_ifs at hp

lemma right_after (hs : s.Sound r.seats) (hi : i < r.seats) (h : r.Ready s i a)
    (hp : ((s.diner i).after a).phase = .releasing) :
    ((s.diner i).after a).hands.right = true := by
  cases h with
  | startWaiting | eat => simp [Diner.after] at hp
  | take side hw => simp [Diner.after, hw] at hp
  | finish he => exact hs.both_of_eating hi he .right
  | give side hr hret =>
    cases side with
    | left => exact hs.releasing i hi hr
    | right =>
      -- the right fork goes last, so that the diner is idle after it
      have hleft := left_of_returning?_eq_some hret
      simp [Diner.after, Hands.set, Hands.neither, hleft] at hp

/-- **Every step from a sound state leads to a sound state.** -/
theorem sound_perform (hs : s.Sound r.seats) (hi : i < r.seats) (h : r.Ready s i a) :
    (r.perform s i a).Sound r.seats where
  fits := fits_perform hs.fits
  oneFork := fun e he => by rw [forksOn_perform hs.fits hi he h, hs.oneFork e he]
  eating := forall_diner_perform (P := fun _ d => d.phase = .eating → d.hands.both = true)
    hs.fits hi (both_after h) fun j hj _ => hs.eating j hj
  releasing := forall_diner_perform (P := fun _ d => d.phase = .releasing → d.hands.right = true)
    hs.fits hi (right_after hs hi h) fun j hj _ => hs.releasing j hj

/-- A sound state passes the check. -/
lemma check_of_sound (hs : s.Sound r.seats) : r.check s = .ok () :=
  (check_eq_ok_iff hs.fits).mpr ⟨hs.oneFork, hs.eating⟩

lemma verify_of_sound (hs : s.Sound r.seats) (step : ℕ) : r.verify s step = .ok () := by
  rw [verify, check_of_sound hs]

/-- In a sound state every call is answered, and what it does leads to a sound state. -/
lemma apply_of_sound (hs : s.Sound r.seats) (hi : i < r.seats) :
    r.apply s i = .ok none ∨
      ∃ a, r.Ready s i a ∧ r.apply s i = .ok (some (a, r.perform s i a)) := by
  cases happ : r.apply s i with
  | error f => exact absurd happ (apply_ne_error (hs.eating i hi))
  | ok o =>
    cases o with
    | none => exact .inl rfl
    | some p =>
      obtain ⟨a, t⟩ := p
      obtain ⟨hready, -, rfl⟩ := apply_eq_some_iff.mp happ
      exact .inr ⟨a, hready, rfl⟩

/-- In a sound state a call of a ready seat performs its action. -/
lemma apply_of_ready (hs : s.Sound r.seats) (hi : i < r.seats) (h : r.Ready s i a) :
    r.apply s i = .ok (some (a, r.perform s i a)) := by
  refine apply_eq_some_iff.mpr ⟨h, ?_, rfl⟩
  rintro rfl
  cases h with
  | finish hp => exact hs.eating i hi hp

/-- Whoever hands back is ready to give its next fork. -/
lemma exists_ready_give (hs : s.Sound r.seats) (hi : i < r.seats)
    (hp : (s.diner i).phase = .releasing) : ∃ side, r.Ready s i (.give side) := by
  obtain ⟨side, hret⟩ := exists_returning?_eq_some (hs.releasing i hi hp)
  have hhand : s.hand i side = true := holds_of_returning?_eq_some hret
  exact ⟨side, .give side hp hret (hs.outbound_of_hand hi hhand)⟩

end Ring

end DiningRing
