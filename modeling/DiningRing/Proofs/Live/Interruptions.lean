/-
# Rounds that are cut off

Philosophers with any pacing are asked for single rounds, one after another, and each round may be
given up while its seat thinks, while it waits for a fork, perhaps with the other one in hand, or
while it eats.  It is never given up while the seat hands back, since a fork that has been lifted
can be handed back at once.  So the seat can begin its next round from the phase in which it was
left, and what it has told fits to its phase, its hands and its meals at every moment
(`Session.Overheard`).

Since each edge keeps its one fork and whoever eats has both, no two neighbours are ever left eating
at the same time.
-/
import DiningRing.Proofs.Live.Attempts
import DiningRing.Proofs.Live.Sittings
import DiningRing.Proofs.Recorders

namespace DiningRing

namespace Philosopher

/-- The instructions that a philosopher has before it. -/
def agenda (p : Philosopher) : List Instr := (p.call.map Call.agenda).getD []

lemma agenda_of_call {p : Philosopher} {call : Call} (hcall : p.call = some call) :
    p.agenda = call.agenda := by
  rw [agenda, hcall]
  rfl

lemma agenda_of_resting {p : Philosopher} (hrest : p.call = none) : p.agenda = [] := by
  rw [agenda, hrest]
  rfl

end Philosopher

lemma Stop.rest_of_result {stop : Stop} {result : Except RingError Unit}
    (h : stop.result? = some result) : stop.rest = [] := by
  cases stop with
  | waiting => cases h
  | ended | failed => rfl

/-! ### Turns -/

namespace Table

variable {n i : ℕ} {t : Table} {p q : Philosopher} {call : Call} {agenda rest : List Instr}
  {said : List Transition} {side : Side} {turn : Turn}

/-- After a turn of seat `i`, which has said something before: what it has said by then fits to it,
all that is heard is about this seat, and it can go on with what is before it. -/
structure Reports (i : ℕ) (said : List Transition) (turn : Turn) : Prop where
  own : ∀ e ∈ heard turn.notices, e.seat = i
  told : ∃ q, turn.table.philosopher? i = some q ∧
    q.Told (said ++ Trace.ofSeat i (heard turn.notices)) ∧
    Instr.Proceeds q.diner.phase q.agenda

/-- Working on without waiting. -/
lemma reports_settle (hplace : t.philosopher? i = some q) (hseat : p.seat = i)
    (htold : p.Told said) (hproceeds : Instr.Proceeds p.diner.phase agenda)
    (honce : call.repeats = false) (hstays : call.leaves = false) :
    Reports i said (t.settle p call agenda) := by
  have h := Philosopher.reports_workOn hproceeds htold honce
  have hnext := h.proceeds
  have hsaid := h.told
  rw [hseat] at hsaid
  cases hresult : (p.workOn call agenda).stop.result? with
  | none =>
    obtain ⟨rest, hstop⟩ := Stop.result?_eq_none_iff.mp hresult
    rw [hstop] at hnext
    rw [settle_of_waiting t hstop, hseat]
    exact ⟨hseat ▸ h.own, _, philosopher?_put_self (lt_size hplace), hsaid.withCall _, hnext⟩
  | some result =>
    rw [Stop.rest_of_result hresult] at hnext
    rw [settle_of_result (hseat.symm ▸ hplace) hresult, hstays, hseat]
    exact ⟨hseat ▸ h.own, _, philosopher?_retire_self hplace, hsaid.withCall _, hnext⟩

section

variable (ht : t.Linked n) (hall : ∀ j < n, t.philosopher? j ≠ none)
  (hp : t.philosopher? i = some p) (htold : p.Told said) (honce : call.repeats = false)
  (hstays : call.leaves = false)
include ht hall hp htold honce hstays

/-- Taking a fork and working on. -/
lemma Linked.reports_takeTurn
    (hproceeds : Instr.Proceeds p.diner.phase (.acquire side :: rest))
    (hturn : t.takeTurn p call side rest = some turn) : Reports i said turn := by
  rw [Table.takeTurn, ht.wiring i p hp, ht.take_eq (ht.lt hp)] at hturn
  split_ifs at hturn with harrived hgone
  · obtain rfl := Option.some.inj hturn
    obtain ⟨hwaiting, hlater⟩ := hproceeds.of_acquire
    have hseat : p.seat = i := ht.seat_eq hp
    have hhungry : p.diner.phase ≠ .eating := by simp [hwaiting]
    exact reports_settle (t := { t with lanes := _ }) hp hseat (htold.withHands hhungry _) hlater
      honce hstays
  · exact absurd hgone (hall _ (Slot.neighbor_lt (ht.lt hp) side))

/-- Handing back a fork and working on. -/
lemma Linked.reports_giveTurn
    (hproceeds : Instr.Proceeds p.diner.phase (.give side :: rest))
    (hturn : t.giveTurn p call side rest = some turn) : Reports i said turn := by
  rw [Table.giveTurn, ht.wiring i p hp, ht.give_eq (ht.lt hp)] at hturn
  split_ifs at hturn with hgone hfull
  · exact absurd hgone (hall _ (Slot.neighbor_lt (ht.lt hp) side))
  · obtain rfl := Option.some.inj hturn
    exact reports_settle (t := { t with lanes := _ }) hp (ht.seat_eq hp) htold
      hproceeds.of_give.2 honce hstays

/-- **What a seat has said fits to it after every turn** at a table that nobody has left. -/
theorem Linked.reports (hproceeds : Instr.Proceeds p.diner.phase call.agenda)
    (hturn : t.turn p call = some turn) : Reports i said turn := by
  have hseat := ht.seat_eq hp
  rw [Table.turn] at hturn
  split at hturn
  next ticks rest wake hagenda hwake =>
    split_ifs at hturn with hdue
    obtain rfl := Option.some.inj hturn
    rw [hagenda] at hproceeds
    exact reports_settle hp hseat htold hproceeds.of_pause.2 honce hstays
  next side rest hagenda =>
    rw [hagenda] at hproceeds
    split_ifs at hturn with hholds
    · obtain rfl := Option.some.inj hturn
      exact reports_settle hp hseat htold hproceeds honce hstays
    · exact ht.reports_takeTurn hall hp htold honce hstays hproceeds hturn
  next side rest hagenda =>
    rw [hagenda] at hproceeds
    exact ht.reports_giveTurn hall hp htold honce hstays hproceeds hturn
  next =>
    obtain rfl := Option.some.inj hturn
    exact reports_settle hp hseat htold hproceeds honce hstays

end

end Table

namespace Session

variable {n i j : ℕ} {s u : Session} {sink : Sink} {events : List Event} {t : Turn}

/-! ### What is overheard -/

/-- The events that the sink of a session has received, once it was as it is given, are what the
philosophers have told, and what each of them has told fits to it. -/
structure Overheard (sink : Sink) (events : List Event) (s : Session) : Prop where
  sink_eq : s.observer.sink = sink.recordAll events
  told : ∀ i p, s.table.philosopher? i = some p →
    p.Told (Trace.ofSeat i events) ∧ Instr.Proceeds p.diner.phase p.agenda

/-- Nobody who is not busy is handing back. -/
lemma Overheard.calm (hs : s.AtRest n) (hv : s.Overheard sink events) {p : Philosopher}
    (hp : s.table.philosopher? i = some p) : p.diner.phase ≠ .releasing := by
  have hproceeds := (hv.told i p hp).2
  rw [Philosopher.agenda_of_resting (hs.resting i p hp)] at hproceeds
  exact hproceeds.calm

/-- Asking for a round says nothing, and the round goes on from where the seat is. -/
lemma Overheard.asked (hs : s.AtRest n) (hv : s.Overheard sink events) (i : ℕ) :
    (s.asked i (.cycles 1)).Overheard sink events := by
  refine ⟨hv.sink_eq, fun j p hp => ?_⟩
  by_cases hji : j = i
  · subst hji
    obtain ⟨p₀, hp₀, rfl⟩ := exists_of_asked hp
    refine ⟨(hv.told j p₀ hp₀).1.withCall _, ?_⟩
    have hagenda : (Request.cycles 1).agenda p₀ = Instr.round p₀.pacing p₀.order := by
      simp [Request.agenda]
    rw [Philosopher.agenda_of_call rfl, Request.call, hagenda]
    exact Instr.Proceeds.round (hv.calm hs hp₀) _ _
  · rw [(hs.underway (q := .cycles 1) rfl).others j hji] at hp
    exact hv.told j p hp

/-- **A turn adds what is heard in it.** -/
lemma Overheard.absorb (hs : s.Intact n) (hu : Underway n s i (.cycles 1) u)
    (hv : u.Overheard sink events) (hstep : u.table.step j = some t) :
    (u.absorb j t).Overheard sink (events ++ heard t.notices) := by
  obtain ⟨rfl, -, p, call, hp, hcall, honce, hstays, -, hturned⟩ :=
    hu.exists_turned hs.atRest hstep
  obtain ⟨htable, hobserver, -⟩ := absorb_spec hu.silent j t
  have hturn : u.table.turn p call = some t := by
    simpa only [Table.step, hp, hcall] using hstep
  obtain ⟨htold, hproceeds⟩ := hv.told j p hp
  rw [Philosopher.agenda_of_call hcall] at hproceeds
  obtain ⟨hown, q, hq, hqtold, hqproceeds⟩ :=
    hu.linked.reports (hs.seated hu) hp htold honce hstays hproceeds hturn
  refine ⟨?_, fun k p' hp' => ?_⟩
  · rw [hobserver, hv.sink_eq, Sink.recordAll_append]
  · rw [htable] at hp'
    rw [Trace.ofSeat_append]
    by_cases hkj : k = j
    · subst hkj
      obtain rfl := Option.some.inj (hq.symm.trans hp')
      exact ⟨hqtold, hqproceeds⟩
    · -- the others have said nothing
      have hquiet : Trace.ofSeat k (heard t.notices) = [] := by
        rw [Trace.ofSeat, List.map_eq_nil_iff, List.filter_eq_nil_iff]
        intro e he
        simp [hown e he, Ne.symm hkj]
      rw [hquiet, List.append_nil]
      exact hv.told k p' ((hturned.others k hkj).symm.trans hp')

/-- **So whatever happens while a round is under way**, what each seat has told fits to it. -/
lemma Overheard.follow (hs : s.Intact n) (hv : s.Overheard sink events) (i : ℕ)
    (moments : List Moment) :
    ∃ later, ((s.asked i (.cycles 1)).follow moments).Overheard sink later := by
  refine (follow_induction (P := fun u => Underway n s i (.cycles 1) u ∧
    ∃ later, u.Overheard sink later) ⟨hs.atRest.underway rfl, events, hv.asked hs.atRest i⟩
    (fun u j t hu hstep => ?_) (fun u clock hu => ?_) moments).2
  · obtain ⟨hu, later, hlater⟩ := hu
    exact ⟨hu.absorb hs.atRest hstep, _, hlater.absorb hs hu hstep⟩
  · obtain ⟨hu, later, hlater⟩ := hu
    exact ⟨hu.withClock clock, later, hlater.sink_eq, hlater.told⟩

/-- Nobody who has to wait is handing back. -/
lemma Overheard.calm_of_waits (hs : s.Intact n) (hu : Underway n s i (.cycles 1) u)
    (hgoing : Going n s i (.cycles 1) u) (hv : u.Overheard sink events)
    (hstep : u.table.step i = none) {p : Philosopher} {call : Call}
    (hp : u.table.philosopher? i = some p) (hcall : p.call = some call) :
    p.diner.phase ≠ .releasing := by
  have hproceeds := (hv.told i p hp).2
  rw [Philosopher.agenda_of_call hcall] at hproceeds
  cases hu.linked.waits hp hcall hstep with
  | sleep hagenda =>
    rw [hagenda] at hproceeds
    exact hproceeds.of_pause.1
  | fork hagenda =>
    rw [hagenda] at hproceeds
    simp [hproceeds.of_acquire.1]
  | room hagenda =>
    have hsome := hs.step_isSome_of_give hu hgoing hp hcall hagenda
    rw [hstep] at hsome
    cases hsome

/-- **A round that is given up says nothing more**, and its seat is ready for another one. -/
lemma Overheard.cut (hs : s.Intact n) (hu : Underway n s i (.cycles 1) u)
    (hgoing : Going n s i (.cycles 1) u) (hv : u.Overheard sink events)
    (hstep : u.table.step i = none) : (u.cut i).Overheard sink events := by
  refine ⟨hv.sink_eq, fun j p' hp' => ?_⟩
  rcases hgoing.table_cut with ⟨-, htable⟩ | ⟨p, call, hp, hcall, htable⟩
  · rw [htable] at hp'
    exact hv.told j p' hp'
  · rw [htable] at hp'
    by_cases hji : j = i
    · subst hji
      rw [Table.philosopher?_retire_self hp] at hp'
      obtain rfl := Option.some.inj hp'
      have hcalm := hv.calm_of_waits hs hu hgoing hstep hp hcall
      exact ⟨(hv.told j p hp).1.withCall none, .done hcalm⟩
    · rw [Table.philosopher?_retire_ne hji] at hp'
      exact hv.told j p' hp'

/-- **An attempt leaves a table at which what each seat has told fits to it**, however it ends. -/
theorem Overheard.attempt (hs : s.Intact n) (hv : s.Overheard sink events) (a : Attempt) :
    ∃ later, (s.attempt a).Overheard sink later := by
  obtain ⟨moments, hu, hend⟩ := hs.atRest.exists_perform (q := .cycles 1) rfl a.seat a.limit
  obtain ⟨later, hlater⟩ := hv.follow hs a.seat moments
  refine ⟨later, ?_⟩
  rcases hend with ⟨result, -, hattempt⟩ | ⟨hgoing, hstep, hattempt⟩
  · rw [Session.attempt, hattempt]
    exact hlater
  · rw [Session.attempt, hattempt]
    exact hlater.cut hs hu hgoing hstep

/-- **So do attempts one after another.** -/
theorem Overheard.attemptAll (hs : s.Intact n) (hv : s.Overheard sink events)
    {attempts : List Attempt} (hseats : ∀ a ∈ attempts, a.seat < n) :
    (s.attemptAll attempts).Intact n ∧ ∃ later, (s.attemptAll attempts).Overheard sink later := by
  induction attempts generalizing s events with
  | nil => exact ⟨hs, events, hv⟩
  | cons a attempts ih =>
    obtain ⟨ha, hrest⟩ := List.forall_mem_cons.mp hseats
    obtain ⟨later, hlater⟩ := hv.attempt hs a
    exact ih (hs.perform ha (q := .cycles 1) rfl a.limit).1 hlater hrest

/-- Attempts leave a table in a sound state. -/
lemma Overheard.sound (hs : s.Intact n) (hv : s.Overheard sink events) :
    s.table.view.Sound n :=
  hs.sound fun i p hp => ⟨hv.calm hs.atRest hp, (hv.told i p hp).1.both⟩

end Session

/-- Nobody has said anything at a table just laid. -/
lemma Ring.overheard_laid (r : Ring) (pacing : Pacing) (l : Lanes) (sink : Sink) :
    (Session.begin (r.laid pacing l) ⟨sink, none⟩).Overheard sink [] := by
  refine ⟨rfl, fun i p hp => ?_⟩
  obtain rfl := Ring.eq_sit_of_laid hp
  exact ⟨⟨rfl, ⟨[], [], rfl, .idle⟩, fun heating => by cases heating⟩, .done fun h => by cases h⟩

/-- **Rounds that are cut off leave phases, meals and traces in step.**  The philosophers of a ring
of at least two seats, under either plan and with any pacing, are asked for single rounds, one after
another, on any seats and each under any time limit.  After every round everybody is still there;
whoever is eating has both forks in hand, and its neighbours are not eating; a recorder that was new
at the beginning has counted the meals of each seat that the philosopher there has counted; and if
it keeps events, these have as many meals of the seat among them, and those of the seat are the
beginning of some sittings. -/
theorem interrupted_rounds_stay_consistent {n : ℕ} (hn : 2 ≤ n) (plan : Plan) (pacing : Pacing)
    (sink : Sink)
    (hnew : ∀ recorder ∈ sink.recorders, recorder.events = #[] ∧ recorder.meals = #[]) :
    let r : Ring := ⟨n, plan⟩
    Ring.lay n plan = .ok r ∧ ∃ table, r.seat pacing = .ok table ∧
      ∀ attempts : List Session.Attempt, (∀ a ∈ attempts, a.seat < n) →
        let s := (Session.begin table ⟨sink, none⟩).attemptAll attempts
        ∀ i < n, ∃ p, s.table.philosopher? i = some p ∧
          (p.diner.phase = .eating → p.hands.both = true ∧
            ∀ q, s.table.philosopher? (Seat.next n i) = some q → q.diner.phase ≠ .eating) ∧
          ∀ recorder ∈ s.observer.sink.recorders,
            recorder.mealsOf i = p.meals ∧
            (recorder.keepsEvents = true →
              Trace.mealsOf i recorder.events.toList = p.meals ∧
              ∃ more, Trace.ofSeat i recorder.events.toList <+: Trace.sittings more) := by
  intro r
  obtain ⟨l, hseat, hl⟩ := r.exists_laid pacing
  refine ⟨Ring.lay_eq_ok hn plan, _, hseat, fun attempts hseats => ?_⟩
  intro s i hi
  obtain ⟨hintact, events, hv⟩ :=
    (r.overheard_laid pacing l sink).attemptAll (Ring.intact_laid hn hl sink) hseats
  obtain ⟨p, hp⟩ := Option.ne_none_iff_exists'.mp (hintact.present i hi)
  have htold : p.Told (Trace.ofSeat i events) := (hv.told i p hp).1
  have hmeals : Trace.mealsOf i events = p.meals := by
    rw [← Trace.count_ofSeat]
    exact htold.meals
  refine ⟨p, hp, fun heating => ⟨htold.both heating, fun q hq => ?_⟩, fun recorder hr => ?_⟩
  · have hview : (s.table.view.diner i).phase = .eating := by
      rw [Table.diner_view hp]
      exact heating
    have hnext := (hv.sound hintact).not_eating_next hi hview
    rw [Table.diner_view hq] at hnext
    exact hnext
  · have hr : recorder ∈ (sink.recordAll events).recorders := hv.sink_eq ▸ hr
    obtain ⟨hcounted, hkept⟩ := Sink.kept_of_mem_recorders hnew hr
    refine ⟨(hcounted i).trans hmeals, fun hkeeps => ?_⟩
    rw [hkept hkeeps]
    exact ⟨hmeals, htold.isPrefix⟩

/-- At a table of three the first seat is cut off while it eats, the last one while it waits for the
fork that is still in the hand of the first one, and then the first one once more in the next meal
of the same sitting. -/
theorem interrupted_rounds_stay_consistent_at_three :
    let sink : Sink := .recorder .keeping
    let attempts : List Session.Attempt := [⟨0, 1⟩, ⟨2, 5⟩, ⟨0, 1⟩]
    2 ≤ 3 ∧ (∀ recorder ∈ sink.recorders, recorder.events = #[] ∧ recorder.meals = #[]) ∧
    (∀ a ∈ attempts, a.seat < 3) ∧ 0 < 3 ∧
    ∃ table, Ring.seat ⟨3, .reversedLast⟩ ⟨0, 2⟩ = .ok table ∧
      let s := (Session.begin table ⟨sink, none⟩).attemptAll attempts
      (s.observer.sink.recorders.map fun recorder => Trace.ofSeat 0 recorder.events.toList)
        = [[.waiting, .eating, .eating]] ∧
      ∃ p, s.table.philosopher? 0 = some p ∧ p.diner.phase = .eating ∧ p.hands.both = true ∧
        ∀ recorder ∈ s.observer.sink.recorders, recorder.mealsOf 0 = p.meals := by
  intro sink attempts
  have hnew : ∀ recorder ∈ sink.recorders, recorder.events = #[] ∧ recorder.meals = #[] := by
    decide
  obtain ⟨-, table, hseat, h⟩ :=
    interrupted_rounds_stay_consistent (n := 3) (by decide) .reversedLast ⟨0, 2⟩ sink hnew
  obtain rfl : Ring.laid ⟨3, .reversedLast⟩ ⟨0, 2⟩ (.ofEdges 3) = table := by
    injection hseat
  have hseats : ∀ a ∈ attempts, a.seat < 3 := by decide
  obtain ⟨p, hp, heating, hcounted⟩ := h attempts hseats 0 (by decide)
  have hphase : (((Session.begin (Ring.laid ⟨3, .reversedLast⟩ ⟨0, 2⟩ (.ofEdges 3))
      ⟨sink, none⟩).attemptAll attempts).table.philosopher? 0).map (fun p => p.diner.phase)
        = some .eating := by decide +kernel
  rw [hp] at hphase
  have hphase : p.diner.phase = .eating := Option.some.inj hphase
  exact ⟨by decide, hnew, hseats, by decide, _, hseat, by decide +kernel, p, hp, hphase,
    (heating hphase).1, fun recorder hr => (hcounted recorder hr).1⟩

end DiningRing
