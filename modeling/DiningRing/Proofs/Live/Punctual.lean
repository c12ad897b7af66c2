/-
# Punctual tables

At a live table a diner sleeps until a tick of the clock.  At a punctual table (`Table.OnTime`)
these ticks are those of the timetable, and nobody is late at what the table shows.

A turn keeps this (`Table.OnTime.step`): whoever sleeps makes its next move when it wakes, and
whoever goes to sleep does so at a time from which on the timetable has it sleep.  If nobody can
take a turn, the seat whose turn it is sleeps, so that the clock can be moved on to the next
tick for which somebody waits, and nobody misses anything (`Table.OnTime.wait`).
-/
import DiningRing.Proofs.Deadlock
import DiningRing.Proofs.Live.Timely

namespace DiningRing

/-! ### Where acting alone leads -/

namespace Diner

variable {d e : Diner} {as : List Action}

lemma Alone.eq_of_nil (h : d.Alone [] e) : d = e := by
  cases h with
  | rest => rfl

/-- Nobody becomes idle alone. -/
lemma Alone.eq_nil_of_idle (h : d.Alone as e) (he : e.phase = .idle) : as = [] := by
  induction h with
  | rest => rfl
  | @act d e a as hwilling hlater ih =>
    obtain rfl := ih he
    cases hlater with
    | rest => cases hwilling <;> cases he

/-- Whoever comes to eat alone has begun its meal. -/
lemma Alone.eat_mem (h : d.Alone as e) (he : e.phase = .eating) : as = [] ∨ .eat ∈ as := by
  induction h with
  | rest => exact .inl rfl
  | @act d e a as hwilling hlater ih =>
    rcases ih he with rfl | hmem
    · cases hlater with
      | rest =>
        cases hwilling with
        | eat => exact .inr List.mem_cons_self
        | startWaiting | finish => cases he
    · exact .inr (List.mem_cons_of_mem a hmem)

end Diner

/-! ### What a ready seat can do -/

namespace Ring

variable {r : Ring} {s : RingState} {i : ℕ} {a : Action} {side : Side}

/-- A waiting seat that is ready finds the fork that it lacks. -/
lemma Ready.slot_inbound (h : r.Ready s i a) (hp : (s.diner i).phase = .waiting)
    (hm : missing? (r.order i) (s.diner i).hands = some side) :
    s.slot (Slot.inbound r.seats i side) = true := by
  cases h with
  | take other _ hother harrived =>
    obtain rfl : other = side := Option.some.inj (hother.symm.trans hm)
    exact harrived
  | eat _ hboth =>
    rw [missing?_eq_none_iff.mpr hboth] at hm
    cases hm
  | startWaiting h | finish h | give _ h =>
    rw [hp] at h
    cases h

/-- A seat that hands back and is ready finds room for the fork. -/
lemma Ready.slot_outbound (h : r.Ready s i a) (hp : (s.diner i).phase = .releasing)
    (hr : returning? (s.diner i).hands = some side) :
    s.slot (Slot.outbound r.seats i side) = false := by
  cases h with
  | give other _ hother hroom =>
    obtain rfl : other = side := Option.some.inj (hother.symm.trans hr)
    exact hroom
  | startWaiting h | take _ h | eat h | finish h =>
    rw [hp] at h
    cases h

end Ring

/-! ### Sleeping -/

/-- The tick until which a seat sleeps that has eaten so often: before it asks for forks, or
before the end of its meal. -/
def Pacing.wakeTime (pc : Pacing) (n i meals : ℕ) : Phase → ℕ
  | .idle => pc.askTime n i meals
  | .waiting | .eating | .releasing => pc.mealTime n (n * meals + i) + pc.eat

namespace Philosopher

variable {p : Philosopher} {call : Call} {r : Ring} {i : ℕ}

/-- Seat `i` sleeps as the timetable says when `k` turns have been passed on. -/
structure Punctual (pc : Pacing) (n clock k i : ℕ) (p : Philosopher) (call : Call) : Prop where
  pacing : p.pacing = pc
  wake : ∀ wake, call.wake = some wake →
    wake = pc.wakeTime n i (turnsOf n k i) p.diner.phase
  /-- Nobody sits down late. -/
  fresh : call.agenda.head? = some .greet → clock = 0 ∧ turnsOf n k i = 0

/-- Whoever sleeps thinks or eats. -/
lemma AtWork.phase_of_wake (hwork : p.AtWork r i call) {wake : ℕ} (hwake : call.wake = some wake) :
    p.diner.phase = .idle ∨ p.diner.phase = .eating := by
  have hpauses := hwork.wakes
  rw [hwake] at hpauses
  obtain ⟨agenda, repeats, leaves, lifted, wake'⟩ := call
  rcases hwork.place with hrests | ⟨hidle, -, -⟩
  · cases hrests with
    | thinking hphase => exact .inl hphase
    | eating hphase => exact .inr hphase
    | reachingFirst | reachingSecond | givingLeft | givingRight => cases hpauses
  · exact .inl hidle

lemma Rests.head_ne_greet {lifted : Hands} {agenda : List Instr} (h : p.Rests lifted agenda) :
    agenda.head? ≠ some .greet := by
  cases h <;> simp [Instr.reach, Instr.handBack]

end Philosopher

namespace Table

open RingState (Timely)

variable {r : Ring} {t : Table} {i j k T : ℕ} {p : Philosopher} {call : Call} {turn : Turn}
  {pc : Pacing} {s : RingState} {slept : Option Action} {as : List Action}

/-- A table of `reversedLast` at which everybody sleeps as the timetable says and nobody is
late. -/
structure OnTime (r : Ring) (pc : Pacing) (t : Table) (T k : ℕ) : Prop where
  atWork : t.AtWork r
  timely : t.view.Timely r.seats pc t.clock T k
  punctual : ∀ i p call, t.philosopher? i = some p → p.AtWork r i call →
    p.Punctual pc r.seats t.clock k i call

/-- A seat that has not had its first turn. -/
def Greets (t : Table) (i : ℕ) : Prop :=
  ∃ p call, t.philosopher? i = some p ∧ p.call = some call ∧ call.agenda.head? = some .greet

lemma phase_view (hp : t.philosopher? i = some p) : (t.view.diner i).phase = p.diner.phase := by
  rw [diner_view hp]
  rfl

/-! ### Turns -/

/-- The state `s` after a turn has opened, with `T'` moves made and `k'` turns passed on. -/
structure Opened (r : Ring) (pc : Pacing) (t : Table) (i : ℕ) (call : Call)
    (slept : Option Action) (s : RingState) (T k T' k' : ℕ) : Prop where
  timely : s.Timely r.seats pc t.clock T' k'
  calendar : pc.calendar r.seats (s.begun r.seats k') = pc.calendar r.seats (t.view.begun r.seats k)
  others : ∀ j < r.seats, j ≠ i → turnsOf r.seats k' j = turnsOf r.seats k j
  /-- Whoever is idle has become so just now. -/
  idle : slept = none → (s.diner i).phase = .idle →
    pc.askTime r.seats i (turnsOf r.seats k' i) = t.clock + pc.think
  eating : slept = none → (s.diner i).phase ≠ .eating
  due : ∀ a, slept = some a → (s.diner i).Willing a → pc.Due r.seats k' t.clock i a
  progress : T < T' + slept.toList.length ∨ T ≤ T' ∧ call.agenda.head? = some .greet

/-- A turn that opens with the first word of a seat. -/
lemma OnTime.opened_greet (ht : t.OnTime r pc T k) (hp : t.philosopher? i = some p)
    (hwork : p.AtWork r i call) (hgreet : call.agenda.head? = some .greet) :
    Opened r pc t i call none t.view T k T k where
  timely := ht.timely
  calendar := rfl
  others := fun _ _ _ => rfl
  idle := by
    intro _ _
    obtain ⟨hclock, hturns⟩ := (ht.punctual i p call hp hwork).fresh hgreet
    rw [hclock, hturns, Nat.zero_add]
    rfl
  eating := by
    intro _ heating
    rcases hwork.place with hrests | ⟨hidle, -, -⟩
    · exact hrests.head_ne_greet hgreet
    · rw [phase_view hp, hidle] at heating
      cases heating
  due := fun _ h => by cases h
  progress := .inr ⟨le_refl T, hgreet⟩

/-- A turn that opens with a transfer. -/
lemma OnTime.opened_transfer (ht : t.OnTime r pc T k) (hi : i < r.seats) {a : Action}
    (ha : a.transfers = true) (hready : r.Ready t.view i a) :
    Opened r pc t i call none (r.perform t.view i a) T k (T + 1) (k + a.passes) := by
  have hs := ht.timely
  have hself := Ring.diner_perform_self (a := a) hs.paced.sound.fits hi
  have htimely := Ring.timely_perform hs hi hready (Pacing.due_of_transfers i ha)
  have hcalendar := Ring.calendar_perform hs hi hready
  rw [eaters_of_ne_eat i (by rintro rfl; cases ha), List.map_nil, List.append_nil] at hcalendar
  have hothers : ∀ j < r.seats, j ≠ i →
      turnsOf r.seats (k + a.passes) j = turnsOf r.seats k j := by
    intro j hj hji
    cases a with
    | startWaiting | eat | finish => cases ha
    | take => rfl
    | give side =>
      cases side with
      | left => rfl
      | right =>
        have hturn := Ring.turn_of_ready hs hi hready (by simp) (by simp)
        exact (turnsOf_succ hj k).trans (by rw [if_neg fun h => hji (h.symm.trans hturn.symm)]; rfl)
  refine ⟨htimely, hcalendar, hothers, fun _ hidle => ?_, fun _ heating => ?_,
    (fun _ h => by cases h), .inl (by simp)⟩
  · -- only who has handed back the right fork is idle
    rw [hself] at hidle
    cases hready with
    | startWaiting | eat | finish => cases ha
    | take _ hphase =>
      rw [Diner.after, hphase] at hidle
      cases hidle
    | give side hphase hret hslot =>
      have hright : (t.view.diner i).hands.right = true := hs.paced.sound.releasing i hi hphase
      cases side with
      | left => simp [Diner.after, Hands.set, Hands.neither, hright, hphase] at hidle
      | right =>
        have hturn := Ring.turn_of_ready hs hi (.give .right hphase hret hslot) (by simp) (by simp)
        have hover := hs.turn
        rw [← hturn, hphase] at hover
        have hask := pc.askTime_turnsOf_succ (show 0 < r.seats by omega) k
        rw [← hturn, ← show t.clock = pc.mealTime r.seats k + pc.eat from hover] at hask
        exact hask
  · rw [hself] at heating
    cases hready with
    | startWaiting | eat | finish => cases ha
    | take _ hphase =>
      rw [Diner.after, hphase] at heating
      cases heating
    | give side hphase =>
      simp only [Diner.after, hphase] at heating
      split_ifs at heating

/-- A turn that opens with the action for which a seat has slept. -/
lemma OnTime.opened_wake (ht : t.OnTime r pc T k) (hp : t.philosopher? i = some p)
    (hwork : p.AtWork r i call) {wake : ℕ} (a : Action) (hasleep : call.wake = some wake)
    (hdue : wake ≤ t.clock) : Opened r pc t i call (some a) t.view T k T k where
  timely := ht.timely
  calendar := rfl
  others := fun _ _ _ => rfl
  idle := fun h => by cases h
  eating := fun h => by cases h
  due := by
    intro b hb hwilling
    obtain rfl := Option.some.inj hb
    have hwake := (ht.punctual i p call hp hwork).wake wake hasleep
    have hready := Ring.ready_of_willing (r := r) hwilling
    cases hwilling with
    | startWaiting hphase =>
      rw [phase_view hp] at hphase
      rw [hphase] at hwake
      exact hwake.ge.trans hdue
    | eat => exact trivial
    | finish hphase =>
      have hturn := Ring.turn_of_ready ht.timely (ht.atWork.lt hp) hready (by simp) (by simp)
      have hmeals := mul_turnsOf_mod (show 0 < r.seats from (ht.atWork.lt hp).pos) k
      rw [phase_view hp] at hphase
      rw [hphase, Pacing.wakeTime, hturn, hmeals] at hwake
      exact hwake.ge.trans hdue
  progress := .inl (by simp)

/-- **The way a turn opens leaves nobody late.** -/
lemma OnTime.exists_opened (ht : t.OnTime r pc T k) (hp : t.philosopher? i = some p)
    (hwork : p.AtWork r i call) (h : Opens r t i call slept s) :
    ∃ T' k', Opened r pc t i call slept s T k T' k' := by
  cases h with
  | greet hgreet => exact ⟨_, _, ht.opened_greet hp hwork hgreet⟩
  | transfer _ ha hready => exact ⟨_, _, ht.opened_transfer (ht.atWork.lt hp) ha hready⟩
  | wake a hasleep hdue => exact ⟨_, _, ht.opened_wake hp hwork a hasleep hdue⟩

/-- Whoever goes to sleep does so at a time from which on the timetable has it sleep. -/
lemma Opened.punctual {T' k' : ℕ} (hs : Opened r pc t i call slept s T k T' k')
    (hi : i < r.seats) (hpacing : p.pacing = pc)
    (hturn : ActsAlone r t i p s turn (slept.toList ++ as))
    (hprompt : Ring.Prompt r pc t.clock s T' k' i (slept.toList ++ as) (turn.table.view.diner i))
    (q : Philosopher) (call' : Call) (hq : turn.table.philosopher? i = some q)
    (hwork : q.AtWork r i call') : q.Punctual pc r.seats turn.table.clock k' i call' := by
  obtain ⟨q', later, hq', hwork', hrests, hqpacing, hwake⟩ := hturn.rests
  obtain rfl : q' = q := Option.some.inj (hq'.symm.trans hq)
  obtain rfl : later = call' := Option.some.inj (hwork'.called.symm.trans hwork.called)
  have hphase : (turn.table.view.diner i).phase = q'.diner.phase := phase_view hq
  refine ⟨hqpacing.trans hpacing, fun wake hsome => ?_, fun h => absurd h hrests.head_ne_greet⟩
  rw [hwake] at hsome
  obtain ⟨agenda, repeats, leaves, lifted, wake'⟩ := later
  -- nothing has been done in the turn since it has opened, or a meal has begun
  have hquiet : slept.toList ++ as = [] → slept = none ∧ s.diner i = turn.table.view.diner i := by
    intro hnil
    have halone := hturn.alone
    rw [hnil] at halone
    cases slept with
    | none => exact ⟨rfl, halone.eq_of_nil⟩
    | some a => cases hnil
  cases hrests with
  | thinking hidle =>
    obtain rfl : t.clock + q'.pacing.think = wake := Option.some.inj hsome
    obtain ⟨hslept, hsame⟩ := hquiet (hturn.alone.eq_nil_of_idle (hphase.trans hidle))
    rw [hidle, hqpacing, hpacing]
    exact (hs.idle hslept (by rw [hsame, hphase, hidle])).symm
  | eating heating =>
    obtain rfl : t.clock + q'.pacing.eat = wake := Option.some.inj hsome
    have hmeal : t.clock = pc.mealTime r.seats k' := by
      rcases hturn.alone.eat_mem (hphase.trans heating) with hnil | hmem
      · obtain ⟨hslept, hsame⟩ := hquiet hnil
        exact absurd (by rw [hsame, hphase, heating]) (hs.eating hslept)
      · exact hprompt.meal hmem
    have hbusy : i = k' % r.seats := by
      refine hprompt.timely.paced.turn.busy i hi ?_
      rw [← hturn.view, hphase, heating]
      rfl
    have hturns := mul_turnsOf_mod (show 0 < r.seats by omega) k'
    rw [← hbusy] at hturns
    rw [heating, Pacing.wakeTime, hturns, hqpacing, hpacing, hmeal]
  | reachingFirst | reachingSecond | givingLeft | givingRight => cases hsome

/-- The meals of a turn fill the calendar. -/
lemma Opened.calendar_turn {T' k' : ℕ} (hs : Opened r pc t i call slept s T k T' k')
    (hturn : ActsAlone r t i p s turn as)
    (hprompt : Ring.Prompt r pc t.clock s T' k' i as (turn.table.view.diner i)) :
    pc.calendar r.seats (turn.table.view.begun r.seats k')
      = pc.calendar r.seats (t.view.begun r.seats k)
        ++ (Trace.eatingOrder (heard turn.notices)).map (Prod.mk t.clock) := by
  rw [hturn.view, hprompt.calendar, hs.calendar, hturn.heard, ← announced_moves,
    eatingOrder_announced]

/-- **A turn at a punctual table leaves it punctual**, and its meals are those that are next in
the calendar.  With each turn there is a move, or a seat has its first turn. -/
theorem OnTime.step (ht : t.OnTime r pc T k) (hstep : t.step i = some turn) :
    turn.ending = none ∧ turn.table.clock = t.clock ∧ ∃ T' k', turn.table.OnTime r pc T' k' ∧
      pc.calendar r.seats (turn.table.view.begun r.seats k')
        = pc.calendar r.seats (t.view.begun r.seats k)
          ++ (Trace.eatingOrder (heard turn.notices)).map (Prod.mk t.clock) ∧
      (∀ j, turn.table.Greets j → t.Greets j ∧ j ≠ i) ∧ (T < T' ∨ T ≤ T' ∧ t.Greets i) := by
  obtain ⟨p, call, s, slept, as, hp, hwork, hmoves⟩ := ht.atWork.step hstep
  have hi := ht.atWork.lt hp
  have hturn := hmoves.acts
  have hpacing := (ht.punctual i p call hp hwork).pacing
  obtain ⟨T', k', hs⟩ := ht.exists_opened hp hwork hmoves.opens
  have hprompt := Ring.prompt_of_slept hs.timely hi hturn.alone hs.due (hpacing ▸ hmoves.swift)
  refine ⟨hturn.ending, hturn.clock, T' + (slept.toList ++ as).length, k',
    ⟨hturn.atWork, ?_, ?_⟩,
    hs.calendar_turn hturn hprompt, ?_, ?_⟩
  · rw [hturn.view, hturn.clock]
    exact hprompt.timely
  · intro j q call' hq hqwork
    by_cases hji : j = i
    · subst hji
      exact hs.punctual hi hpacing hturn hprompt q call' hq hqwork
    · -- for the others as many turns have been passed on as before
      have hj := hturn.atWork.lt hq
      rw [hturn.others j hji] at hq
      obtain ⟨hqpacing, hqwake, hqfresh⟩ := ht.punctual j q call' hq hqwork
      rw [hturn.clock]
      exact ⟨hqpacing, by rw [hs.others j hj hji]; exact hqwake,
        by rw [hs.others j hj hji]; exact hqfresh⟩
  · rintro j ⟨q, call', hq, hcall, hgreet⟩
    have hji : j ≠ i := by
      rintro rfl
      obtain ⟨q', later, hq', hwork', hrests, -, -⟩ := hturn.rests
      obtain rfl : q' = q := Option.some.inj (hq'.symm.trans hq)
      obtain rfl : later = call' := Option.some.inj (hwork'.called.symm.trans hcall)
      exact hrests.head_ne_greet hgreet
    rw [hturn.others j hji] at hq
    exact ⟨⟨q, call', hq, hcall, hgreet⟩, hji⟩
  · rcases hs.progress with hlt | ⟨hle, hgreet⟩
    · left
      rw [List.length_append]
      omega
    · exact .inr ⟨Nat.le_add_right_of_le hle, p, call, hp, hwork.called, hgreet⟩

/-! ### Standing still -/

lemma isStill_iff : t.isStill = true ↔ ∀ i < t.seats, t.step i = none := by
  simp [isStill]

lemma AtWork.step_eq (hp : t.philosopher? i = some p) (hwork : p.AtWork r i call) :
    t.step i = t.turn p call := by
  simp only [Table.step, hp, hwork.called]

lemma AtWork.isSome_takeTurn (ht : t.AtWork r) (hwork : p.AtWork r i call) {side : Side}
    {rest : List Instr} (harrived : t.view.slot (Slot.inbound r.seats i side) = true) :
    (t.takeTurn p call side rest).isSome = true := by
  rw [slot_view] at harrived
  rw [Table.takeTurn, hwork.wiring, Wiring.endpoint_ofSeat, Endpoint.take_of_open ht.lanes]
  simp [harrived]

lemma AtWork.isSome_giveTurn (ht : t.AtWork r) (hwork : p.AtWork r i call) {side : Side}
    {rest : List Instr} (hroom : t.view.slot (Slot.outbound r.seats i side) = false) :
    (t.giveTurn p call side rest).isSome = true := by
  rw [slot_view] at hroom
  rw [Table.giveTurn, hwork.wiring, Wiring.endpoint_ofSeat, Endpoint.give_of_open ht.lanes]
  simp [hroom]

/-- A seat whose sleep is over can take its turn. -/
lemma AtWork.isSome_step_of_wake (hp : t.philosopher? i = some p) (hwork : p.AtWork r i call)
    {wake : ℕ} (hwake : call.wake = some wake) (hle : wake ≤ t.clock) :
    (t.step i).isSome = true := by
  have hpauses := hwork.wakes
  rw [AtWork.step_eq hp hwork]
  obtain ⟨agenda, repeats, leaves, lifted, wake'⟩ := call
  obtain rfl : wake' = some wake := hwake
  cases agenda with
  | nil => cases hpauses
  | cons instr rest =>
    cases instr with
    | pause ticks =>
      simp only [Table.turn, if_pos hle]
      rfl
    | enter | acquire | serve | lift | give | greet => cases hpauses

/-- A seat that has not had its first turn can take it. -/
lemma AtWork.isSome_step_of_greet (hp : t.philosopher? i = some p) (hwork : p.AtWork r i call)
    (hgreet : call.agenda.head? = some .greet) : (t.step i).isSome = true := by
  rw [AtWork.step_eq hp hwork]
  rcases hwork.place with hrests | ⟨-, -, hagenda⟩
  · exact absurd hgreet hrests.head_ne_greet
  · have hawake := hwork.wake_eq_none (by rw [hagenda]; rfl)
    obtain ⟨agenda, repeats, leaves, lifted, wake⟩ := call
    obtain rfl : agenda = _ := hagenda
    obtain rfl : wake = none := hawake
    rfl

/-- **A seat that is awake and ready can take its turn.** -/
lemma AtWork.isSome_step_of_ready (ht : t.AtWork r) (hp : t.philosopher? i = some p)
    (hwork : p.AtWork r i call) (hawake : call.wake = none) {a : Action}
    (hready : r.Ready t.view i a) : (t.step i).isSome = true := by
  have hdiner := AtWork.diner_view hp hwork
  have hpauses := hwork.wakes
  rw [AtWork.step_eq hp hwork]
  obtain ⟨agenda, repeats, leaves, lifted, wake⟩ := call
  obtain rfl : wake = none := hawake
  rcases hwork.place with hrests | ⟨hidle, hlifted, hagenda⟩
  · cases hrests with
    | thinking | eating => cases hpauses
    | reachingFirst hphase hlacks =>
      have hdiner := hdiner.trans p.seen_empty
      simp only [Table.turn, hlacks, Bool.false_eq_true, if_false]
      refine ht.isSome_takeTurn hwork (hready.slot_inbound (hdiner ▸ hphase) ?_)
      rw [hdiner, ← hwork.order]
      exact Ring.missing?_first hlacks
    | reachingSecond hphase hholds hlacks =>
      have hdiner := hdiner.trans p.seen_empty
      simp only [Table.turn, hlacks, Bool.false_eq_true, if_false]
      refine ht.isSome_takeTurn hwork (hready.slot_inbound (hdiner ▸ hphase) ?_)
      rw [hdiner, ← hwork.order]
      exact Ring.missing?_second hholds hlacks
    | givingLeft hreleasing | givingRight hreleasing =>
      rw [Philosopher.seen, Philosopher.hands, hreleasing, Hands.empty_join] at hdiner
      refine ht.isSome_giveTurn hwork (hready.slot_outbound ?_ ?_)
      · rw [hdiner]
      · rw [hdiner]
        rfl
  · obtain rfl := hagenda
    rfl

/-! ### Time passes -/

lemma wakeOf?_eq (hp : t.philosopher? i = some p) (hwork : p.AtWork r i call) :
    t.wakeOf? i = call.wake := by
  simp only [wakeOf?, hp, hwork.called, Option.bind_some]

/-- If nobody can take a turn, the seat whose turn it is sleeps, and has not missed its time. -/
lemma OnTime.exists_wake (hn : 2 ≤ r.seats) (ht : t.OnTime r pc T k) (hstill : t.isStill = true) :
    ∃ wake, t.wakeOf? (k % r.seats) = some wake ∧ ∀ c, t.clock ≤ c → c ≤ wake →
      pc.Meets r.seats k c (t.view.diner (k % r.seats)).phase := by
  have hlt : k % r.seats < r.seats := Nat.mod_lt k (by omega)
  obtain ⟨p, call, hp, hwork⟩ := ht.atWork.working _ hlt
  obtain ⟨a, hready⟩ := Ring.exists_ready_of_turn hn ht.timely.paced.turn ht.timely.paced.sound
  have hmeals := mul_turnsOf_mod (show 0 < r.seats by omega) k
  cases hwake : call.wake with
  | none =>
    have hstep := ht.atWork.isSome_step_of_ready hp hwork hwake hready
    rw [isStill_iff.mp hstill _ (ht.atWork.size ▸ hlt)] at hstep
    cases hstep
  | some wake =>
    refine ⟨wake, (wakeOf?_eq hp hwork).trans hwake, fun c hclock hc => ?_⟩
    have htime := (ht.punctual _ p call hp hwork).wake wake hwake
    have hmeets := ht.timely.turn
    rw [phase_view hp] at hmeets ⊢
    rcases hwork.phase_of_wake hwake with hphase | hphase
    · rw [hphase] at htime ⊢
      exact (hc.trans htime.le).trans (Pacing.askTime_le_mealTime (by omega) k)
    · rw [hphase] at htime hmeets ⊢
      rw [Pacing.wakeTime, hmeals] at htime
      exact ⟨hmeets.1.trans hclock, hc.trans htime.le⟩

/-- **If nobody can take a turn, somebody sleeps, and the table stays punctual until the first
of the sleepers wakes.**  That seat can then take its turn. -/
theorem OnTime.wait (hn : 2 ≤ r.seats) (ht : t.OnTime r pc T k) (hstill : t.isStill = true) :
    ∃ clock, t.nextWake? = some clock ∧ (t.withClock clock).OnTime r pc T k ∧
      (t.withClock clock).isStill = false := by
  obtain ⟨wake, hwake, hmeets⟩ := ht.exists_wake hn hstill
  have hstuck := isStill_iff.mp hstill
  have hlt : k % r.seats < t.seats := by
    rw [Table.seats, ht.atWork.size]
    exact Nat.mod_lt k (by omega)
  have hmem : wake ∈ (List.range t.seats).filterMap t.wakeOf? :=
    List.mem_filterMap.mpr ⟨_, List.mem_range.mpr hlt, hwake⟩
  obtain ⟨clock, hclock⟩ := Option.isSome_iff_exists.mp (List.isSome_min?_of_mem hmem)
  obtain ⟨hfirst, hleast⟩ := List.min?_eq_some_iff.mp hclock
  obtain ⟨j, hj, hjwake⟩ := List.mem_filterMap.mp hfirst
  have hj := List.mem_range.mp hj
  obtain ⟨p, call, hp, hwork⟩ := ht.atWork.working j (ht.atWork.size ▸ hj)
  rw [wakeOf?_eq hp hwork] at hjwake
  -- the first of the sleepers still has to wait
  have hlater : t.clock ≤ clock := by
    by_contra hover
    have hstep := AtWork.isSome_step_of_wake hp hwork hjwake (by omega)
    rw [hstuck j hj] at hstep
    cases hstep
  refine ⟨clock, hclock, ⟨ht.atWork.withClock clock,
    ht.timely.mono hlater (hmeets clock hlater (hleast wake hmem)), ?_⟩, ?_⟩
  · intro i q call' hq hqwork
    obtain ⟨hqpacing, hqwake, -⟩ := ht.punctual i q call' hq hqwork
    refine ⟨hqpacing, hqwake, fun hgreet => ?_⟩
    have hstep := AtWork.isSome_step_of_greet (t := t) hq hqwork hgreet
    rw [hstuck i (lt_size hq)] at hstep
    cases hstep
  · rw [Bool.eq_false_iff]
    intro hstill'
    have hstep := AtWork.isSome_step_of_wake (t := t.withClock clock) hp hwork hjwake (le_refl _)
    rw [isStill_iff.mp hstill' j hj] at hstep
    cases hstep

end Table

end DiningRing
