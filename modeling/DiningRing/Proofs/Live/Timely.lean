/-
# States in which nobody is late

`RingState.Timely` says of a state of `reversedLast` at a time of the clock that nobody is
late: whoever waits has asked for forks when it was time to, and the meal whose turn it is has
begun at its time, or may still do so.

A move keeps this if its own time has come (`Pacing.Due`).  Only two moves have a time, the
start of a wait and the end of a meal, since these are the moves before which a diner pauses.
A meal itself begins as soon as it can.  That this is at its time and neither before nor after
is the recurrence of the timetable.
-/
import DiningRing.Proofs.Live.AtWork
import DiningRing.Proofs.Pace
import DiningRing.Proofs.Timetable

namespace DiningRing

/-! ### Times of moves -/

namespace Pacing

variable {pc : Pacing} {n k c : ℕ} {phase : Phase}

/-- The seat whose turn it is has not missed its meal, has begun it at its time, or has ended
it at its time. -/
def Meets (pc : Pacing) (n k c : ℕ) : Phase → Prop
  | .idle | .waiting => c ≤ pc.mealTime n k
  | .eating => pc.mealTime n k ≤ c ∧ c ≤ pc.mealTime n k + pc.eat
  | .releasing => c = pc.mealTime n k + pc.eat

lemma meets_of_not_busy (hfree : phase.busy = false) (hc : c ≤ pc.mealTime n k) :
    pc.Meets n k c phase := by
  cases phase with
  | idle | waiting => exact hc
  | eating | releasing => cases hfree

/-- The time has come for seat `i` to make a move. -/
def Due (pc : Pacing) (n k c i : ℕ) : Action → Prop
  | .startWaiting => pc.askTime n i (turnsOf n k i) ≤ c
  | .finish => pc.mealTime n k + pc.eat ≤ c
  | .take _ | .eat | .give _ => True

lemma due_of_transfers {a : Action} (i : ℕ) (ha : a.transfers = true) : pc.Due n k c i a := by
  cases a with
  | take | give => exact trivial
  | startWaiting | eat | finish => cases ha

/-- The times and seats of the first meals. -/
def calendar (pc : Pacing) (n meals : ℕ) : List (ℕ × ℕ) :=
  (List.range meals).map fun k => (pc.mealTime n k, k % n)

lemma calendar_succ (pc : Pacing) (n meals : ℕ) : pc.calendar n (meals + 1)
    = pc.calendar n meals ++ [(pc.mealTime n meals, meals % n)] := by
  rw [calendar, List.range_succ, List.map_append]
  rfl

end Pacing

/-! ### Timely states -/

namespace RingState

variable {n T k c i : ℕ} {pc : Pacing} {s : RingState}

/-- A state of `reversedLast` at time `c`, after `T` moves and with `k` turns passed on, in
which nobody is late. -/
structure Timely (n : ℕ) (pc : Pacing) (c : ℕ) (s : RingState) (T k : ℕ) : Prop where
  paced : s.Paced n T k
  /-- The meal of the turn before is over. -/
  before : ∀ j, j + 1 = k → pc.mealTime n j + pc.eat ≤ c
  turn : pc.Meets n k c (s.diner (k % n)).phase
  /-- Whoever waits has had time to think. -/
  waiting : ∀ i < n, (s.diner i).phase = .waiting → pc.askTime n i (turnsOf n k i) ≤ c

/-- The clock moves on. -/
lemma Timely.mono {c' : ℕ} (hs : s.Timely n pc c T k) (hc : c ≤ c')
    (hturn : pc.Meets n k c' (s.diner (k % n)).phase) : s.Timely n pc c' T k where
  paced := hs.paced
  before := fun j hj => (hs.before j hj).trans hc
  turn := hturn
  waiting := fun i hi hp => (hs.waiting i hi hp).trans hc

end RingState

namespace Ring

open RingState (Timely)

variable {r : Ring} {s : RingState} {i k n T c : ℕ} {a : Action} {as : List Action} {d e : Diner}
  {pc : Pacing}

/-- Whoever eats, stops eating or hands back does so in its turn. -/
lemma turn_of_ready (hs : s.Timely r.seats pc c T k) (hi : i < r.seats) (h : r.Ready s i a)
    (hwaiting : a ≠ .startWaiting) (htake : ∀ side, a ≠ .take side) : i = k % r.seats := by
  by_contra hne
  rcases seat_of_ready hs.paced.turn hi h hne with rfl | ⟨side, rfl⟩
  · exact hwaiting rfl
  · exact htake side rfl

/-- **A meal begins at its time**: not before the meal ahead of it is over and its seat has
asked for forks, and not later, since its turn has not been missed. -/
lemma eq_mealTime_of_eat (hs : s.Timely r.seats pc c T k) (hi : i < r.seats)
    (h : r.Ready s i .eat) : i = k % r.seats ∧ c = pc.mealTime r.seats k := by
  have hturn := turn_of_ready hs hi h (by simp) (by simp)
  refine ⟨hturn, ?_⟩
  cases h with
  | eat hp =>
    have hearly := hs.turn
    rw [← hturn, hp] at hearly
    have hask := hs.waiting i hi hp
    rw [hturn] at hask
    exact le_antisymm hearly (Pacing.mealTime_le (by omega) hs.before hask)

/-- A move that does not pass the turn on. -/
lemma timely_keep (hs : s.Timely r.seats pc c T k) (hi : i < r.seats) (h : r.Ready s i a)
    (hpasses : a.passes = 0)
    (hturn : i = k % r.seats → pc.Meets r.seats k c ((s.diner i).after a).phase)
    (hask : ((s.diner i).after a).phase = .waiting →
      pc.askTime r.seats i (turnsOf r.seats k i) ≤ c) :
    (r.perform s i a).Timely r.seats pc c (T + 1) (k + a.passes) := by
  have hpaced := paced_perform hs.paced hi h
  have hk : k + a.passes = k := by rw [hpasses]; rfl
  rw [hk] at hpaced ⊢
  refine ⟨hpaced, hs.before, ?_, ?_⟩
  · by_cases hne : k % r.seats = i
    · rw [hne, diner_perform_self hs.paced.sound.fits hi]
      exact hturn hne.symm
    · rw [diner_perform_ne hne]
      exact hs.turn
  · exact forall_diner_perform
      (P := fun j d => d.phase = .waiting → pc.askTime r.seats j (turnsOf r.seats k j) ≤ c)
      hs.paced.sound.fits hi hask fun j hj _ => hs.waiting j hj

/-- The move that passes the turn on. -/
lemma timely_give_right (hs : s.Timely r.seats pc c T k) (hi : i < r.seats)
    (h : r.Ready s i (.give .right)) :
    (r.perform s i (.give .right)).Timely r.seats pc c (T + 1) (k + 1) := by
  have hn : 0 < r.seats := by omega
  have hpaced : (r.perform s i (.give .right)).Paced r.seats (T + 1) (k + 1) :=
    paced_perform hs.paced hi h
  have hturn : i = k % r.seats := turn_of_ready hs hi h (by simp) (by simp)
  cases h with
  | give _ hp hret =>
    have hover := hs.turn
    rw [← hturn, hp] at hover
    have hc : c = pc.mealTime r.seats k + pc.eat := hover
    have hfree := not_busy_after_give_right hs.paced.turn hs.paced.sound hi hp hret
    refine ⟨hpaced, fun j hj => ?_, ?_, ?_⟩
    · obtain rfl : j = k := by omega
      exact hc.ge
    · exact Pacing.meets_of_not_busy (hfree _ (Nat.mod_lt _ hn))
        (hc.le.trans (Pacing.mealTime_add_le hn k))
    · refine forall_diner_perform (P := fun j d => d.phase = .waiting →
        pc.askTime r.seats j (turnsOf r.seats (k + 1) j) ≤ c) hs.paced.sound.fits hi ?_
        fun j hj hji hwaiting => ?_
      · -- the seat itself is idle
        have hleft : (s.diner i).hands.left = false := left_of_returning?_eq_some hret
        simp [Diner.after, Hands.set, Hands.neither, hleft]
      · rw [turnsOf_succ hj, if_neg fun h => hji (hturn ▸ h.symm), Nat.add_zero]
        exact hs.waiting j hj hwaiting

/-- **A move whose time has come leaves nobody late.** -/
theorem timely_perform (hs : s.Timely r.seats pc c T k) (hi : i < r.seats) (h : r.Ready s i a)
    (hdue : pc.Due r.seats k c i a) :
    (r.perform s i a).Timely r.seats pc c (T + 1) (k + a.passes) := by
  have hturn := hs.turn
  cases h with
  | startWaiting hp =>
    refine timely_keep hs hi (.startWaiting hp) rfl (fun hik => ?_) fun _ => hdue
    rw [← hik, hp] at hturn
    exact hturn
  | take side hp hm hslot =>
    refine timely_keep hs hi (.take side hp hm hslot) rfl (fun hik => ?_) fun _ =>
      hs.waiting i hi hp
    rw [← hik] at hturn
    exact hturn
  | eat hp hboth =>
    have hready : r.Ready s i .eat := .eat hp hboth
    obtain ⟨-, hc⟩ := eq_mealTime_of_eat hs hi hready
    refine timely_keep hs hi hready rfl (fun _ => ?_) fun h => by cases h
    exact ⟨hc.ge, by rw [hc]; exact Nat.le_add_right _ _⟩
  | finish hp =>
    refine timely_keep hs hi (.finish hp) rfl (fun hik => ?_) fun h => by cases h
    rw [← hik, hp] at hturn
    exact le_antisymm hturn.2 hdue
  | give side hp hret hslot =>
    cases side with
    | right => exact timely_give_right hs hi (.give .right hp hret hslot)
    | left =>
      have hright : (s.diner i).hands.right = true := hs.paced.sound.releasing i hi hp
      have hafter : ((s.diner i).after (.give .left)).phase = .releasing := by
        simp [Diner.after, Hands.set, Hands.neither, hright, hp]
      refine timely_keep hs hi (.give .left hp hret hslot) rfl (fun hik => ?_) fun h => by
        rw [hafter] at h
        cases h
      rw [hafter]
      rw [← hik, hp] at hturn
      exact hturn

/-- A move before which nobody pauses is due whenever it can be made. -/
lemma due_of_pause_eq_zero (hs : s.Timely r.seats pc c T k) (hi : i < r.seats)
    (h : r.Ready s i a) (ha : a.pause pc = 0) : pc.Due r.seats k c i a := by
  cases h with
  | startWaiting => exact Pacing.askTime_le_of_think hi ha hs.before
  | take | eat | give => exact trivial
  | finish hp =>
    have hturn := hs.turn
    rw [← turn_of_ready hs hi (.finish hp) (by simp) (by simp), hp] at hturn
    have heat : pc.eat = 0 := ha
    show pc.mealTime r.seats k + pc.eat ≤ c
    rw [heat]
    exact hturn.1

/-- **Moves fill the calendar** of meals, in order and each at its time. -/
theorem calendar_perform (hs : s.Timely r.seats pc c T k) (hi : i < r.seats)
    (h : r.Ready s i a) :
    pc.calendar r.seats ((r.perform s i a).begun r.seats (k + a.passes))
      = pc.calendar r.seats (s.begun r.seats k) ++ (eaters [⟨i, a⟩]).map (Prod.mk c) := by
  obtain ⟨hbegun, hseat⟩ := begun_perform hs.paced.turn hs.paced.sound hi h
  rw [hbegun]
  by_cases ha : a = .eat
  · subst ha
    obtain ⟨hturn, hc⟩ := eq_mealTime_of_eat hs hi h
    -- the turn has not begun its meal before
    have hk : s.begun r.seats k = k := by
      cases h with
      | eat hp => rw [RingState.begun, ← hturn, hp]; rfl
    rw [if_pos rfl, Pacing.calendar_succ, hk, hc, hturn]
    rfl
  · rw [if_neg ha, eaters_of_ne_eat i ha, Nat.add_zero, List.map_nil, List.append_nil]

/-! ### Acting alone -/

/-- Actions that seat `i` makes alone, until its diner is `e`, leave nobody late.  If there is a
meal among them, it begins at its time. -/
structure Prompt (r : Ring) (pc : Pacing) (c : ℕ) (s : RingState) (T k i : ℕ) (as : List Action)
    (e : Diner) : Prop where
  timely : (s.setDiner i e).Timely r.seats pc c (T + as.length) k
  calendar : pc.calendar r.seats ((s.setDiner i e).begun r.seats k)
    = pc.calendar r.seats (s.begun r.seats k) ++ (eaters (as.map (Move.mk i))).map (Prod.mk c)
  meal : .eat ∈ as → c = pc.mealTime r.seats k

/-- The first action. -/
lemma Prompt.cons (hs : s.Timely r.seats pc c T k) (hi : i < r.seats)
    (h : (s.diner i).Willing a) (hdue : pc.Due r.seats k c i a)
    (hrest : ∀ t : RingState, t.Timely r.seats pc c (T + 1) k →
      t.diner i = (s.diner i).after a → Prompt r pc c t (T + 1) k i as e) :
    Prompt r pc c s T k i (a :: as) e := by
  have hready := ready_of_willing (r := r) h
  have hk : k + a.passes = k := by cases h <;> rfl
  have htimely := timely_perform hs hi hready hdue
  have hcalendar := calendar_perform hs hi hready
  rw [hk, perform_of_not_transfers h.not_transfers] at htimely hcalendar
  have hafter := hrest _ htimely
    (RingState.diner_setDiner_self (hs.paced.sound.fits.diners ▸ hi))
  refine ⟨?_, ?_, fun hmem => ?_⟩
  · have hend := hafter.timely
    rw [RingState.setDiner_setDiner] at hend
    rw [List.length_cons, Nat.add_comm as.length, ← Nat.add_assoc]
    exact hend
  · have hend := hafter.calendar
    rw [RingState.setDiner_setDiner] at hend
    rw [hend, hcalendar, List.append_assoc, ← List.map_append, ← eaters_append]
    rfl
  · rcases List.mem_cons.mp hmem with rfl | hmem
    · exact (eq_mealTime_of_eat hs hi hready).2
    · exact hafter.meal hmem

/-- **A seat that acts alone without pauses leaves nobody late.** -/
theorem prompt_of_alone (hs : s.Timely r.seats pc c T k) (hi : i < r.seats) (h : d.Alone as e)
    (hd : s.diner i = d) (hswift : ∀ a ∈ as, a.pause pc = 0) : Prompt r pc c s T k i as e := by
  induction h generalizing s T with
  | rest d =>
    refine ⟨?_, ?_, fun hmem => by cases hmem⟩
    · rw [← hd, RingState.setDiner_diner]
      exact hs
    · rw [← hd, RingState.setDiner_diner]
      exact (List.append_nil _).symm
  | @act d e a as hwilling _ ih =>
    subst hd
    have hdue := due_of_pause_eq_zero hs hi (ready_of_willing hwilling)
      (hswift a List.mem_cons_self)
    exact .cons hs hi hwilling hdue fun t ht hdiner =>
      ih ht hdiner fun b hb => hswift b (List.mem_cons_of_mem a hb)

/-- The same if the seat has slept until the time of its first action. -/
theorem prompt_of_slept {slept : Option Action} (hs : s.Timely r.seats pc c T k)
    (hi : i < r.seats) (h : (s.diner i).Alone (slept.toList ++ as) e)
    (hdue : ∀ a, slept = some a → (s.diner i).Willing a → pc.Due r.seats k c i a)
    (hswift : ∀ a ∈ as, a.pause pc = 0) : Prompt r pc c s T k i (slept.toList ++ as) e := by
  cases slept with
  | none => exact prompt_of_alone hs hi h rfl hswift
  | some a =>
    cases h with
    | act hwilling hlater =>
      exact .cons hs hi hwilling (hdue a rfl hwilling) fun t ht hdiner =>
        prompt_of_alone ht hi hlater hdiner hswift

/-! ### The start -/

/-- At time zero nobody has had to do anything. -/
theorem timely_initial (hn : 2 ≤ n) (pc : Pacing) :
    (initial ⟨n, .reversedLast⟩).Timely n pc 0 0 0 where
  paced := paced_initial hn
  before := fun j hj => by omega
  turn := by
    rw [diner_initial (r := ⟨n, .reversedLast⟩) (Nat.mod_lt 0 (show 0 < n by omega))]
    exact Nat.zero_le _
  waiting := by
    intro i hi hp
    rw [diner_initial (r := ⟨n, .reversedLast⟩) hi] at hp
    cases hp

end Ring

end DiningRing
