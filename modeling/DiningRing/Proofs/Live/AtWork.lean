/-
# Turns at a live table

At a live table where everybody goes through their rounds, a turn of a seat is at most one
transfer of a fork, of which nobody hears, and then some actions for which the seat needs
nobody (`Table.AtWork.step`).  No turn ends the work of a seat, since nobody has left, and
whoever starts to eat or to hand back has both its forks.

For the view of the table these are ready moves of the step model, one after another
(`Table.AtWork.path_of_step`).
-/
import DiningRing.Proofs.Announcements
import DiningRing.Proofs.Live.View
import DiningRing.Proofs.Path

namespace DiningRing

/-! ### Acting alone at a table -/

namespace Ring

variable {r : Ring} {s : RingState} {i : ℕ} {a : Action} {as : List Action} {d e : Diner}

lemma ready_of_willing (h : (s.diner i).Willing a) : r.Ready s i a := by
  cases h with
  | startWaiting hp => exact .startWaiting hp
  | eat hp hboth => exact .eat hp hboth
  | finish hp => exact .finish hp

/-- A seat that acts alone takes a path on which only its own diner changes. -/
lemma path_of_alone (hs : s.Fits r.seats) (hi : i < r.seats) (h : d.Alone as e)
    (hd : s.diner i = d) : r.Path s (as.map (Move.mk i)) (s.setDiner i e) := by
  induction h generalizing s with
  | rest d =>
    rw [← hd, RingState.setDiner_diner]
    exact .nil s
  | @act d e a as hwilling _ ih =>
    have hperform : r.perform s i a = s.setDiner i (d.after a) := by
      rw [perform_of_not_transfers hwilling.not_transfers, hd]
    have hrest := ih (fits_perform (r := r) (i := i) (a := a) hs)
      (by rw [diner_perform_self hs hi, hd])
    rw [hperform, RingState.setDiner_setDiner, ← hperform] at hrest
    exact .cons hi (ready_of_willing (hd ▸ hwilling)) hrest

/-- A seat transfers one fork, or none. -/
inductive Transfers (r : Ring) (s : RingState) (i : ℕ) : RingState → Prop where
  | none : Transfers r s i s
  | one {a : Action} (transfers : a.transfers = true) (ready : r.Ready s i a) :
      Transfers r s i (r.perform s i a)

/-- Nobody hears of a transfer. -/
lemma Transfers.path {t : RingState} (h : r.Transfers s i t) (hi : i < r.seats) :
    ∃ k, r.Path s k t ∧ announced k = [] := by
  cases h with
  | none => exact ⟨[], .nil s, rfl⟩
  | @one a ha hready =>
    refine ⟨[⟨i, a⟩], .single hi hready, ?_⟩
    cases a with
    | take side | give side => rfl
    | startWaiting | eat | finish => simp [Action.transfers] at ha

lemma Transfers.fits {t : RingState} (h : r.Transfers s i t) (hs : s.Fits r.seats) :
    t.Fits r.seats := by
  cases h with
  | none => exact hs
  | one => exact fits_perform hs

end Ring

/-! ### Places of work -/

namespace Instr

/-- Whether an agenda begins with a pause. -/
def pauses : List Instr → Bool
  | .pause _ :: _ => true
  | _ => false

/-- The tick at which the pause at the head of an agenda ends, if it begins now. -/
def alarm? (clock : ℕ) : List Instr → Option ℕ
  | .pause ticks :: _ => some (clock + ticks)
  | _ => none

lemma isSome_alarm? (clock : ℕ) (agenda : List Instr) :
    (alarm? clock agenda).isSome = pauses agenda := by
  cases agenda with
  | nil => rfl
  | cons instr rest => cases instr <;> rfl

end Instr

namespace Philosopher

variable {p : Philosopher} {lifted : Hands} {agenda : List Instr} {call : Call}

lemma Rests.withCall (h : p.Rests lifted agenda) (call? : Option Call) :
    ({ p with call := call? } : Philosopher).Rests lifted agenda := by
  cases h with
  | thinking hp => exact .thinking hp
  | reachingFirst hp hlacks => exact .reachingFirst hp hlacks
  | reachingSecond hp hholds hlacks => exact .reachingSecond hp hholds hlacks
  | eating hp hboth => exact .eating hp hboth
  | givingLeft hp => exact .givingLeft hp
  | givingRight hp => exact .givingRight hp

/-- The philosopher of seat `i` is somewhere in a round, or has not begun its first one. -/
structure AtWork (r : Ring) (i : ℕ) (p : Philosopher) (call : Call) : Prop where
  called : p.call = some call
  wiring : p.wiring = Wiring.ofSeat r.seats i
  order : p.order = r.order i
  repeats : call.repeats = true
  /-- Whoever pauses has begun to. -/
  wakes : call.wake.isSome = Instr.pauses call.agenda
  place : p.Rests call.lifted call.agenda ∨ p.diner.phase = .idle ∧ call.lifted = .empty ∧
    call.agenda = .greet :: Instr.round p.pacing p.order

lemma AtWork.wake_eq_none {r : Ring} {i : ℕ} (h : p.AtWork r i call)
    (hagenda : Instr.pauses call.agenda = false) : call.wake = none := by
  rw [← Option.isSome_eq_false_iff.trans Option.isNone_iff_eq_none, h.wakes, hagenda]

end Philosopher

namespace Table

/-- Everybody at the table is at work, and nobody has left. -/
structure AtWork (r : Ring) (t : Table) : Prop where
  fits : t.view.Fits r.seats
  lanes : t.lanes.Open
  working : ∀ i < r.seats, ∃ p call, t.philosopher? i = some p ∧ p.AtWork r i call

variable {r : Ring} {t : Table} {i : ℕ} {p : Philosopher} {call : Call} {turn : Turn}

lemma AtWork.size (ht : t.AtWork r) : t.philosophers.size = r.seats := by
  have h := ht.fits.diners
  rwa [view, Array.size_map] at h

lemma AtWork.lt (ht : t.AtWork r) (hp : t.philosopher? i = some p) : i < r.seats :=
  ht.size ▸ lt_size hp

lemma AtWork.withClock (ht : t.AtWork r) (clock : ℕ) : (t.withClock clock).AtWork r :=
  ⟨ht.fits, ht.lanes, ht.working⟩

lemma AtWork.setLane (ht : t.AtWork r) (slot : Slot) (full : Bool) :
    ({ t with lanes := t.lanes.set slot ⟨full, false, false⟩ } : Table).AtWork r where
  fits := by
    rw [view_setLane]
    exact ht.fits.setSlot
  lanes := ht.lanes.set
  working := ht.working

lemma AtWork.put (ht : t.AtWork r) (hi : i < r.seats) (hp : p.AtWork r i call) :
    (t.put i (some p)).AtWork r where
  fits := by
    rw [view_put]
    exact ht.fits.setDiner
  lanes := ht.lanes
  working := by
    intro j hj
    by_cases hji : j = i
    · subst hji
      exact ⟨p, call, philosopher?_put_self (ht.size ▸ hj), hp⟩
    · obtain ⟨q, other, hq, hwork⟩ := ht.working j hj
      exact ⟨q, other, by rw [philosopher?_put_ne hji, hq], hwork⟩

lemma AtWork.diner_view (hp : t.philosopher? i = some p) (hwork : p.AtWork r i call) :
    t.view.diner i = p.seen call.lifted := by
  rw [Table.diner_view hp, Philosopher.shown, Philosopher.lifted, hwork.called]

/-! ### Turns -/

/-- After a turn of seat `i`, seen from a state in the middle of it: from there on the seat
has acted alone, and the others have heard of just these actions. -/
structure ActsAlone (r : Ring) (t : Table) (i : ℕ) (p : Philosopher) (s : RingState) (turn : Turn)
    (as : List Action) : Prop where
  ending : turn.ending = none
  atWork : turn.table.AtWork r
  view : turn.table.view = s.setDiner i (turn.table.view.diner i)
  alone : (s.diner i).Alone as (turn.table.view.diner i)
  heard : heard turn.notices = as.filterMap (Simulation.eventOf? i)
  clock : turn.table.clock = t.clock
  others : ∀ j, j ≠ i → turn.table.philosopher? j = t.philosopher? j
  /-- If the seat pauses from now on, it does so for as long as its agenda says. -/
  rests : ∃ q call', turn.table.philosopher? i = some q ∧ q.AtWork r i call' ∧
    q.Rests call'.lifted call'.agenda ∧ q.pacing = p.pacing ∧
    call'.wake = Instr.alarm? t.clock call'.agenda

/-- How a turn of a seat opens: with its first word, with a transfer, or with the action for
which it has slept. -/
inductive Opens (r : Ring) (t : Table) (i : ℕ) (call : Call) : Option Action → RingState → Prop
    where
  | greet (agenda : call.agenda.head? = some .greet) : Opens r t i call none t.view
  | transfer {a : Action} (awake : call.wake = none) (transfers : a.transfers = true)
      (ready : r.Ready t.view i a) : Opens r t i call none (r.perform t.view i a)
  | wake {wake : ℕ} (a : Action) (asleep : call.wake = some wake) (due : wake ≤ t.clock) :
      Opens r t i call (some a) t.view

lemma Opens.transfers {slept : Option Action} {s : RingState} (h : Opens r t i call slept s) :
    r.Transfers t.view i s := by
  cases h with
  | greet | wake => exact .none
  | transfer _ ha hready => exact .one ha hready

/-- A turn of seat `i` opens with a transfer at most, and then the seat acts alone.  It pauses
for none of its actions, unless it has done so before the turn. -/
structure Moves (r : Ring) (t : Table) (i : ℕ) (p : Philosopher) (call : Call) (s : RingState)
    (slept : Option Action) (as : List Action) (turn : Turn) : Prop where
  opens : Opens r t i call slept s
  swift : ∀ a ∈ as, a.pause p.pacing = 0
  acts : ActsAlone r t i p s turn (slept.toList ++ as)

/-- Work that has to wait leaves a call that says where, and until when if it is for the clock. -/
lemma settle_of_waiting (t : Table) {agenda rest : List Instr}
    (hstop : (p.workOn call agenda).stop = .waiting rest) : t.settle p call agenda
      = ⟨t.put p.seat (some { (p.workOn call agenda).philosopher with call := some { call with
          agenda := rest
          lifted := (p.workOn call agenda).lifted
          wake := Instr.alarm? t.clock rest } }), (p.workOn call agenda).notices, none⟩ := by
  simp only [settle, hstop]
  cases rest with
  | nil => rfl
  | cons instr rest => cases instr <;> rfl

/-- Work that leads to a place of rest leaves the philosopher there, with a call that says so. -/
lemma exists_settle {agenda rest : List Instr} {as : List Action} {d : Diner}
    (h : p.Settled d (p.workOn call agenda) as rest) : ∃ (q : Philosopher) (call' : Call),
      t.settle p call agenda = ⟨t.put p.seat (some q), (p.workOn call agenda).notices, none⟩ ∧
      q.call = some call' ∧ q.wiring = p.wiring ∧ q.order = p.order ∧ q.pacing = p.pacing ∧
      call'.repeats = call.repeats ∧ call'.wake = Instr.alarm? t.clock call'.agenda ∧
      q.Rests call'.lifted call'.agenda ∧ d.Alone as q.shown :=
  ⟨_, _, settle_of_waiting t h.stop, rfl, h.wiring, h.order, h.pacing, rfl, rfl,
    h.rests.withCall _, h.alone⟩

/-- A philosopher who works until it has to wait acts alone meanwhile. -/
lemma AtWork.settle (ht : t.AtWork r) (hi : i < r.seats) {agenda : List Instr} {s : RingState}
    {slept : Option Action} (hwiring : p.wiring = Wiring.ofSeat r.seats i)
    (horder : p.order = r.order i) (hrepeats : call.repeats = true)
    (hsettles : p.Settles slept (s.diner i) (p.workOn call agenda))
    (hview : ∀ d, t.view.setDiner i d = s.setDiner i d) :
    ∃ as, (∀ a ∈ as, a.pause p.pacing = 0) ∧
      ActsAlone r t i p s (t.settle p call agenda) (slept.toList ++ as) := by
  obtain ⟨as, rest, hswift, h⟩ := hsettles
  obtain ⟨q, call', hsettle, hcall, hqwiring, hqorder, hqpacing, hqrepeats, hwake, hrests,
    halone⟩ := exists_settle (t := t) h
  have hseat : p.seat = i := by rw [Philosopher.seat, hwiring, Wiring.ofSeat]
  have hq : q.AtWork r i call' := ⟨hcall, hqwiring.trans hwiring, hqorder.trans horder,
    hqrepeats.trans hrepeats, by rw [hwake, Instr.isSome_alarm?], .inl hrests⟩
  have hput : (t.put i (some q)).philosopher? i = some q :=
    philosopher?_put_self (ht.size ▸ hi)
  have hdiner : (t.put i (some q)).view.diner i = q.shown := Table.diner_view hput
  rw [hsettle, hseat]
  refine ⟨as, hswift, rfl, ht.put hi hq, ?_, ?_, hseat ▸ h.heard, rfl,
    fun j hji => philosopher?_put_ne hji, q, call', hput, hq, hrests, hqpacing, hwake⟩
  · -- what the table shows of the seat is written anew, and `s` shows the same of all others
    rw [hdiner, view_put, hview]
    rfl
  · rw [hdiner]
    exact halone

/-- The lanes play no part in what is said of a seat that acts alone. -/
lemma ActsAlone.of_lanes {lanes : Lanes} {q : Philosopher} {s : RingState} {as : List Action}
    (h : ActsAlone r { t with lanes := lanes } i q s turn as) (hpacing : q.pacing = p.pacing) :
    ActsAlone r t i p s turn as := by
  obtain ⟨q', call', hq', hwork, hrests, hpacing', hwake⟩ := h.rests
  exact ⟨h.ending, h.atWork, h.view, h.alone, h.heard, h.clock, h.others, q', call', hq', hwork,
    hrests, hpacing'.trans hpacing, hwake⟩

/-- A fork that has arrived is taken, and the philosopher works on with it. -/
lemma AtWork.takeTurn (ht : t.AtWork r) (hp : t.philosopher? i = some p)
    (hwork : p.AtWork r i call) {side : Side} {rest : List Instr} (hlifted : call.lifted = .empty)
    (hwake : call.wake = none) (hphase : p.diner.phase = .waiting)
    (hmissing : Ring.missing? p.order p.hands = some side)
    (hsettles : ∀ q : Philosopher, q = p.withHands (p.hands.set side true) →
      q.Settles none q.diner (q.workOn call rest))
    (hturn : t.takeTurn p call side rest = some turn) :
    ∃ s as, Moves r t i p call s none as turn := by
  have hi := ht.lt hp
  have hseen : t.view.diner i = p.diner := by
    rw [AtWork.diner_view hp hwork, hlifted, Philosopher.seen_empty]
  rw [Table.takeTurn, hwork.wiring, Wiring.endpoint_ofSeat, Endpoint.take_of_open ht.lanes] at hturn
  cases hfull : t.lanes.full (Slot.inbound r.seats i side) with
  | false => simp [hfull] at hturn
  | true =>
    simp only [hfull, if_true] at hturn
    obtain rfl := Option.some.inj hturn
    have hready : r.Ready t.view i (.take side) := by
      refine .take side (by rw [hseen, hphase]) ?_ (by rw [slot_view, hfull])
      rw [hseen, ← hwork.order]
      exact hmissing
    have hafter : (r.perform t.view i (.take side)).diner i
        = (p.withHands (p.hands.set side true)).diner := by
      rw [Ring.diner_perform_self ht.fits hi, hseen]
      rfl
    have hq := hsettles _ rfl
    rw [← hafter] at hq
    obtain ⟨as, hswift, hacts⟩ := AtWork.settle (p := p.withHands (p.hands.set side true))
      (ht.setLane (Slot.inbound r.seats i side) false) hi
      (s := r.perform t.view i (.take side)) hwork.wiring hwork.order hwork.repeats hq
      fun d => by rw [view_setLane, Ring.perform, RingState.setDiner_setDiner]
    exact ⟨_, as, .transfer hwake rfl hready, hswift, hacts.of_lanes rfl⟩

/-- A lifted fork for which there is room is handed back, and the philosopher works on. -/
lemma AtWork.giveTurn (ht : t.AtWork r) (hp : t.philosopher? i = some p)
    (hwork : p.AtWork r i call) {side : Side} {rest : List Instr} {d : Diner}
    (hwake : call.wake = none) (hdiner : p.diner = ⟨.releasing, .empty⟩)
    (hreturning : Ring.returning? call.lifted = some side)
    (hd : (⟨.releasing, call.lifted⟩ : Diner).after (.give side) = d)
    (hsettles : p.Settles none d
      (p.workOn { call with lifted := call.lifted.set side false } rest))
    (hturn : t.giveTurn p call side rest = some turn) :
    ∃ s as, Moves r t i p call s none as turn := by
  have hi := ht.lt hp
  have hseen : t.view.diner i = ⟨.releasing, call.lifted⟩ := by
    rw [AtWork.diner_view hp hwork, Philosopher.seen, Philosopher.hands, hdiner, Hands.empty_join]
  rw [Table.giveTurn, hwork.wiring, Wiring.endpoint_ofSeat, Endpoint.give_of_open ht.lanes] at hturn
  cases hfull : t.lanes.full (Slot.outbound r.seats i side) with
  | true => simp [hfull] at hturn
  | false =>
    simp only [hfull, Bool.false_eq_true, if_false] at hturn
    obtain rfl := Option.some.inj hturn
    have hready : r.Ready t.view i (.give side) :=
      .give side (by rw [hseen]) (by rw [hseen]; exact hreturning) (by rw [slot_view, hfull])
    have hafter : (r.perform t.view i (.give side)).diner i = d := by
      rw [Ring.diner_perform_self ht.fits hi, hseen, hd]
    have hrepeats : ({ call with lifted := call.lifted.set side false } : Call).repeats = true :=
      hwork.repeats
    rw [← hafter] at hsettles
    obtain ⟨as, hswift, hacts⟩ := (ht.setLane (Slot.outbound r.seats i side) true).settle hi
      (s := r.perform t.view i (.give side)) hwork.wiring hwork.order hrepeats hsettles
      fun d => by rw [view_setLane, Ring.perform, RingState.setDiner_setDiner]
    exact ⟨_, as, .transfer hwake rfl hready, hswift, hacts.of_lanes rfl⟩

/-- A philosopher whose next instruction needs no lane works on from where it is. -/
lemma AtWork.proceed (ht : t.AtWork r) (hp : t.philosopher? i = some p)
    (hwork : p.AtWork r i call) {call' : Call} {agenda : List Instr} {slept : Option Action}
    (hlifted : call.lifted = .empty) (hrepeats : call'.repeats = true)
    (hopens : Opens r t i call slept t.view)
    (hsettles : p.Settles slept p.diner (p.workOn call' agenda)) :
    ∃ s as, Moves r t i p call s slept as (t.settle p call' agenda) := by
  have hseen : t.view.diner i = p.diner := by
    rw [AtWork.diner_view hp hwork, hlifted, Philosopher.seen_empty]
  obtain ⟨as, hswift, hacts⟩ := ht.settle (ht.lt hp) hwork.wiring hwork.order hrepeats
    (hseen ▸ hsettles) fun _ => rfl
  exact ⟨t.view, as, hopens, hswift, hacts⟩

lemma exists_philosopher_of_step (hstep : t.step i = some turn) :
    ∃ p, t.philosopher? i = some p := by
  cases hp : t.philosopher? i with
  | none => simp [Table.step, hp] at hstep
  | some p => exact ⟨p, rfl⟩

lemma AtWork.lt_of_step (ht : t.AtWork r) (hstep : t.step i = some turn) : i < r.seats := by
  obtain ⟨p, hp⟩ := exists_philosopher_of_step hstep
  exact ht.lt hp

/-- A turn is that of a philosopher who is at work. -/
lemma AtWork.exists_turn (ht : t.AtWork r) (hstep : t.step i = some turn) :
    ∃ p call, t.philosopher? i = some p ∧ p.AtWork r i call ∧ t.turn p call = some turn := by
  obtain ⟨p, hp⟩ := exists_philosopher_of_step hstep
  obtain ⟨q, call, hq, hwork⟩ := ht.working i (ht.lt hp)
  obtain rfl : p = q := Option.some.inj (hp.symm.trans hq)
  exact ⟨p, call, hp, hwork, by simpa only [Table.step, hp, hwork.called] using hstep⟩

/-- **A turn of a seat** transfers one fork or none, and then the seat acts alone. -/
theorem AtWork.step (ht : t.AtWork r) (hstep : t.step i = some turn) :
    ∃ p call s slept as, t.philosopher? i = some p ∧ p.AtWork r i call ∧
      Moves r t i p call s slept as turn := by
  obtain ⟨p, call, hp, hwork, hturn⟩ := ht.exists_turn hstep
  suffices h : ∃ slept s as, Moves r t i p call s slept as turn by
    obtain ⟨slept, s, as, h⟩ := h
    exact ⟨p, call, s, slept, as, hp, hwork, h⟩
  obtain ⟨agenda, repeats, leaves, lifted, wake⟩ := call
  have hwakes := hwork.wakes
  rcases hwork.place with hrests | ⟨hidle, hlifted, hagenda⟩
  · cases hrests with
    | thinking hphase =>
      -- whoever pauses takes no turn before its time
      obtain ⟨wake, rfl⟩ := Option.isSome_iff_exists.mp hwakes
      simp only [Table.turn] at hturn
      split_ifs at hturn with hwoken
      obtain rfl := Option.some.inj hturn
      exact ⟨some .startWaiting, ht.proceed hp hwork rfl hwork.repeats (.wake _ rfl hwoken)
        (Philosopher.settles_workOn (Philosopher.settles_enterWaiting hphase))⟩
    | reachingFirst hphase hlacks =>
      simp only [Table.turn, hlacks, Bool.false_eq_true, if_false] at hturn
      refine ⟨none, ht.takeTurn hp hwork rfl (hwork.wake_eq_none rfl) hphase
        (Ring.missing?_first hlacks) ?_ hturn⟩
      rintro q rfl
      exact Philosopher.settles_workOn (Philosopher.settles_second hphase
        (by simp [Philosopher.withHands, Philosopher.hands]))
    | reachingSecond hphase hholds hlacks =>
      simp only [Table.turn, hlacks, Bool.false_eq_true, if_false] at hturn
      refine ⟨none, ht.takeTurn hp hwork rfl (hwork.wake_eq_none rfl) hphase
        (Ring.missing?_second hholds hlacks) ?_ hturn⟩
      rintro q rfl
      exact Philosopher.settles_workOn (Philosopher.settles_dine hphase
        (Hands.both_set_opposite hholds))
    | eating hphase hboth =>
      obtain ⟨wake, rfl⟩ := Option.isSome_iff_exists.mp hwakes
      simp only [Table.turn] at hturn
      split_ifs at hturn with hwoken
      obtain rfl := Option.some.inj hturn
      exact ⟨some .finish, ht.proceed hp hwork rfl hwork.repeats (.wake _ rfl hwoken)
        (Philosopher.settles_workOn (Philosopher.settles_close hphase hboth))⟩
    | givingLeft hdiner =>
      exact ⟨none, ht.giveTurn hp hwork (hwork.wake_eq_none rfl) hdiner rfl rfl
        (Philosopher.settles_workOn (Philosopher.settles_giveRight hdiner)) hturn⟩
    | givingRight hdiner =>
      exact ⟨none, ht.giveTurn hp hwork (hwork.wake_eq_none rfl) hdiner rfl rfl
        (Philosopher.settles_again hwork.repeats rfl hdiner) hturn⟩
  · obtain rfl := hagenda
    obtain rfl := Option.some.inj hturn
    exact ⟨none, ht.proceed hp hwork hlifted hwork.repeats (.greet rfl)
      (Philosopher.settles_greet hlifted hidle)⟩

/-- **A turn is a path of the step model**, and what is heard of it is what the path announces. -/
theorem AtWork.path_of_step (ht : t.AtWork r) (hstep : t.step i = some turn) :
    turn.ending = none ∧ turn.table.AtWork r ∧
      ∃ h, r.Path t.view h turn.table.view ∧ heard turn.notices = announced h := by
  obtain ⟨p, call, s, slept, as, -, -, hmoves⟩ := ht.step hstep
  have hturn := hmoves.acts
  have hi := ht.lt_of_step hstep
  obtain ⟨k, hpath, hsilent⟩ := hmoves.opens.transfers.path hi
  have halone := Ring.path_of_alone (hmoves.opens.transfers.fits ht.fits) hi hturn.alone rfl
  rw [← hturn.view] at halone
  refine ⟨hturn.ending, hturn.atWork, _, hpath.append halone, ?_⟩
  rw [announced_append, hsilent, List.nil_append, announced_moves, hturn.heard]

end Table

end DiningRing
