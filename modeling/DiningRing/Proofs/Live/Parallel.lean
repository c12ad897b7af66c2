/-
# Diners who work at the same time

On several threads a diner's work between two points of waiting takes its time, and others
work meanwhile.  Lanes are the only thing that diners share, apart from the sink; so what can
be seen of the work is that its events reach the sink one after another, each at some moment
before the diner's next point of waiting.  `Parallel` keeps the events that are on their way.

To the sink a diner seems to lag behind the table: it has yet to perform the actions that
bring it to what the table shows.  As these are actions for which it needs nobody, the table
that the sink knows of is itself a state of the step model, and every moment is a path from
there (`Parallel.Follows.happen`).
-/
import DiningRing.Proofs.Confluence
import DiningRing.Proofs.Live.Refinement

namespace DiningRing

/-! ### Moments -/

/-- A live table some of whose announcements are on their way to the sink, seat by seat. -/
structure Parallel where
  table : Table
  sink : Sink
  unheard : ℕ → List Event
  /-- The seats whose work is over, and how it ended. -/
  ended : List (ℕ × Except RingError Unit)

namespace Parallel

/-- What can happen next. -/
inductive Moment where
  /-- A seat from which all has been heard gets its turn, up to its next point of waiting. -/
  | turn (seat : ℕ)
  /-- The next event of a seat reaches the sink. -/
  | hear (seat : ℕ)
  /-- The clock is set. -/
  | time (clock : ℕ)
deriving DecidableEq, Repr

/-- A session at which nothing is on its way. -/
def begin (s : Session) : Parallel := ⟨s.table, s.observer.sink, fun _ => [], []⟩

/-- What a moment leads to. -/
def happen (c : Parallel) : Moment → Parallel
  | .turn seat =>
    match c.unheard seat, c.table.step seat with
    | [], some turn =>
      { c with
        table := turn.table
        unheard := Function.update c.unheard seat (heard turn.notices)
        ended := c.ended ++ turn.ending.toList.map (Prod.mk seat) }
    | _, _ => c
  | .hear seat =>
    match c.unheard seat with
    | e :: rest =>
      { c with
        sink := c.sink.record e
        unheard := Function.update c.unheard seat rest }
    | [] => c
  | .time clock => { c with table := c.table.withClock clock }

/-- What several moments lead to. -/
def follow (c : Parallel) (moments : List Moment) : Parallel := moments.foldl happen c

end Parallel

/-! ### Lagging behind -/

namespace Diner

variable {d e : Diner} {a : Action} {as : List Action} {events : List Event} {i : ℕ}

lemma Willing.exists_event (h : d.Willing a) (i : ℕ) : ∃ e, Simulation.eventOf? i a = some e := by
  cases h <;> exact ⟨_, rfl⟩

lemma Alone.hands_eq (h : d.Alone as e) : e.hands = d.hands := by
  induction h with
  | rest => rfl
  | act hwilling _ ih =>
    rw [ih]
    cases hwilling <;> rfl

/-- `d` still has to announce some events before it is `e`. -/
def Lags (i : ℕ) (d : Diner) (events : List Event) (e : Diner) : Prop :=
  ∃ as, d.Alone as e ∧ events = as.filterMap (Simulation.eventOf? i)

lemma Lags.refl (i : ℕ) (d : Diner) : d.Lags i [] d := ⟨[], .rest d, rfl⟩

lemma Lags.hands_eq (h : d.Lags i events e) : e.hands = d.hands := by
  obtain ⟨as, halone, -⟩ := h
  exact halone.hands_eq

lemma Lags.eq_of_nil (h : d.Lags i [] e) : d = e := by
  obtain ⟨as, halone, hevents⟩ := h
  cases halone with
  | rest => rfl
  | act hwilling _ =>
    obtain ⟨e, he⟩ := hwilling.exists_event i
    simp [he] at hevents

/-- The first event on its way is that of an action for which nobody is needed. -/
lemma Lags.exists_action {event : Event} (h : d.Lags i (event :: events) e) :
    ∃ a, d.Willing a ∧ Simulation.eventOf? i a = some event ∧ (d.after a).Lags i events e := by
  obtain ⟨as, halone, hevents⟩ := h
  cases halone with
  | rest => simp at hevents
  | @act _ _ a as hwilling hlater =>
    obtain ⟨e', he⟩ := hwilling.exists_event i
    rw [List.filterMap_cons_some he, List.cons.injEq] at hevents
    obtain ⟨rfl, rfl⟩ := hevents
    exact ⟨a, hwilling, he, as, hlater, rfl⟩

/-- Diners of whom other events are on their way at one seat. -/
lemma lags_update {n : ℕ} {before after : ℕ → Diner} {unheard : ℕ → List Event}
    (hself : (before i).Lags i events (after i))
    (hother : ∀ j < n, j ≠ i → (before j).Lags j (unheard j) (after j)) :
    ∀ j < n, (before j).Lags j (Function.update unheard i events j) (after j) := by
  intro j hj
  by_cases hji : j = i
  · subst hji
    rw [Function.update_self]
    exact hself
  · rw [Function.update_of_ne hji]
    exact hother j hj hji

end Diner

namespace Ring

variable {r : Ring} {s t u : RingState} {i : ℕ}

/-- What a seat can transfer depends on its diner and the slots alone. -/
lemma Transfers.lift (ht : r.Transfers t i u) (hi : i < r.seats) (hsfits : s.Fits r.seats)
    (htfits : t.Fits r.seats) (hdiner : s.diner i = t.diner i)
    (hslot : ∀ slot, s.slot slot = t.slot slot) :
    ∃ v, r.Transfers s i v ∧ v.diner i = u.diner i ∧ (∀ slot, v.slot slot = u.slot slot) ∧
      ∀ j, j ≠ i → v.diner j = s.diner j ∧ u.diner j = t.diner j := by
  cases ht with
  | none => exact ⟨s, .none, hdiner, hslot, fun j _ => ⟨rfl, rfl⟩⟩
  | @one a ha hready =>
    refine ⟨_, .one ha (hready.congr hdiner fun slot _ => hslot slot), ?_, fun slot => ?_,
      fun j hji => ⟨diner_perform_ne hji, diner_perform_ne hji⟩⟩
    · rw [diner_perform_self hsfits hi, diner_perform_self htfits hi, hdiner]
    · rw [slot_perform hsfits hi, slot_perform htfits hi, hslot]

end Ring

/-! ### The path that the sink knows of -/

namespace Parallel

variable {r : Ring} {sink : Sink} {c : Parallel} {h : List Move} {s : RingState} {i : ℕ}

/-- The sink has received what a path announces, and the end of the path lags behind the table
by what is on its way. -/
structure Follows (r : Ring) (sink : Sink) (c : Parallel) (h : List Move) (s : RingState) :
    Prop where
  atWork : c.table.AtWork r
  path : r.Path r.initial h s
  sink_eq : c.sink = sink.recordAll (announced h)
  slot : ∀ slot, s.slot slot = c.table.view.slot slot
  lags : ∀ i < r.seats, (s.diner i).Lags i (c.unheard i) (c.table.view.diner i)
  silent : ∀ i, r.seats ≤ i → c.unheard i = []
  ended : c.ended = []

lemma Follows.fits (hc : c.Follows r sink h s) : s.Fits r.seats :=
  hc.path.fits r.fits_initial

/-- After a turn, its transfer is known of, and its events are on their way. -/
lemma Follows.turn (hc : c.Follows r sink h s) {turn : Turn} (hheard : c.unheard i = [])
    (hstep : c.table.step i = some turn) :
    ∃ k t, (c.happen (.turn i)).Follows r sink (h ++ k) t := by
  have hi := hc.atWork.lt_of_step hstep
  obtain ⟨p, call, u, slept, as, -, -, hmoves⟩ := hc.atWork.step hstep
  have hturn := hmoves.acts
  -- all of this seat has been heard, so that it does not lag behind
  have hdiner : s.diner i = c.table.view.diner i := by
    have hlags := hc.lags i hi
    rw [hheard] at hlags
    exact hlags.eq_of_nil
  obtain ⟨t, htransfers', hself, hslot, hother⟩ :=
    hmoves.opens.transfers.lift hi hc.fits hc.atWork.fits hdiner hc.slot
  obtain ⟨k, hpath, hsilent⟩ := htransfers'.path hi
  have hview := hturn.view
  refine ⟨k, t, ?_⟩
  simp only [happen, hheard, hstep]
  refine ⟨hturn.atWork, hc.path.append hpath, ?_, fun slot => ?_,
    Diner.lags_update ?_ fun j hj hji => ?_, fun j hj => ?_, ?_⟩
  · rw [announced_append, hsilent, List.append_nil, hc.sink_eq]
  · rw [hslot, hview, RingState.slot_setDiner]
  · rw [hself]
    exact ⟨_, hturn.alone, hturn.heard⟩
  · rw [(hother j hji).1, hview, RingState.diner_setDiner_ne hji, (hother j hji).2]
    exact hc.lags j hj
  · exact (Function.update_of_ne (by omega) _ _).trans (hc.silent j hj)
  · rw [hc.ended, hturn.ending]
    rfl

/-- An event that reaches the sink is that of a move. -/
lemma Follows.hear (hc : c.Follows r sink h s) {e : Event} {rest : List Event}
    (hunheard : c.unheard i = e :: rest) :
    ∃ k t, (c.happen (.hear i)).Follows r sink (h ++ k) t := by
  -- nothing is heard of a seat that is not there
  have hi : i < r.seats := by
    by_contra hi
    rw [hc.silent i (by omega)] at hunheard
    cases hunheard
  have hlags := hc.lags i hi
  rw [hunheard] at hlags
  obtain ⟨a, hwilling, hevent, hlater⟩ := hlags.exists_action
  have hannounced : announced [⟨i, a⟩] = [e] := by simp [announced, hevent]
  refine ⟨[⟨i, a⟩], r.perform s i a, ?_⟩
  simp only [happen, hunheard]
  refine ⟨hc.atWork, hc.path.append (.single hi (Ring.ready_of_willing hwilling)), ?_,
    fun slot => ?_, Diner.lags_update ?_ fun j hj hji => ?_, fun j hj => ?_, hc.ended⟩
  · rw [announced_append, hannounced, Sink.recordAll_append, ← hc.sink_eq]
    rfl
  · rw [Ring.slot_perform_of_not_transfers hwilling.not_transfers, hc.slot]
  · rw [Ring.diner_perform_self hc.fits hi]
    exact hlater
  · rw [Ring.diner_perform_ne hji]
    exact hc.lags j hj
  · exact (Function.update_of_ne (by omega) _ _).trans (hc.silent j hj)

/-- **Every moment extends the path.** -/
theorem Follows.happen (hc : c.Follows r sink h s) (m : Moment) :
    ∃ k t, (c.happen m).Follows r sink (h ++ k) t := by
  have hsame : ∃ k t, c.Follows r sink (h ++ k) t := ⟨[], s, by rw [List.append_nil]; exact hc⟩
  cases m with
  | turn i =>
    cases hunheard : c.unheard i with
    | cons e rest =>
      simp only [Parallel.happen, hunheard]
      exact hsame
    | nil =>
      cases hstep : c.table.step i with
      | none =>
        simp only [Parallel.happen, hunheard, hstep]
        exact hsame
      | some turn => exact hc.turn hunheard hstep
  | hear i =>
    cases hunheard : c.unheard i with
    | nil =>
      simp only [Parallel.happen, hunheard]
      exact hsame
    | cons e rest => exact hc.hear hunheard
  | time clock =>
    refine ⟨[], s, hc.atWork.withClock clock, ?_, ?_, hc.slot, hc.lags, hc.silent, hc.ended⟩
    · rw [List.append_nil]
      exact hc.path
    · rw [List.append_nil]
      exact hc.sink_eq

/-- **Every interleaving is a path.** -/
theorem Follows.follow (hc : c.Follows r sink h s) (moments : List Moment) :
    ∃ k t, (c.follow moments).Follows r sink (h ++ k) t := by
  induction moments generalizing c h s with
  | nil => exact ⟨[], s, by rw [List.append_nil]; exact hc⟩
  | cons m moments ih =>
    obtain ⟨k, t, hk⟩ := hc.happen m
    obtain ⟨l, u, hl⟩ := ih hk
    exact ⟨k ++ l, u, by rw [← List.append_assoc]; exact hl⟩

/-! ### Hearing at once -/

lemma follow_append (c : Parallel) (moments later : List Moment) :
    c.follow (moments ++ later) = (c.follow moments).follow later :=
  List.foldl_append

lemma follow_hear (c : Parallel) (i : ℕ) :
    c.follow (List.replicate (c.unheard i).length (.hear i))
      = { c with
          sink := c.sink.recordAll (c.unheard i)
          unheard := Function.update c.unheard i [] } := by
  generalize hevents : c.unheard i = events
  induction events generalizing c with
  | nil =>
    have hself : Function.update c.unheard i [] = c.unheard := by
      rw [← hevents, Function.update_eq_self]
    rw [hself]
    rfl
  | cons e events ih =>
    have hrest := ih { c with
      sink := c.sink.record e
      unheard := Function.update c.unheard i events } (Function.update_self i events c.unheard)
    rw [Function.update_idem] at hrest
    have hfirst : c.happen (.hear i) = { c with
        sink := c.sink.record e
        unheard := Function.update c.unheard i events } := by
      simp only [happen, hevents]
    rw [List.length_cons, List.replicate_succ, follow, List.foldl_cons, hfirst]
    exact hrest

lemma exists_follow_of_happen {s : Session} (hs : s.Follows r sink h) (m : Session.Moment) :
    ∃ late, (Parallel.begin s).follow late = Parallel.begin (s.happen m) := by
  cases m with
  | time clock => exact ⟨[.time clock], rfl⟩
  | turn i =>
    cases hstep : s.table.step i with
    | none => exact ⟨[], by rw [Session.happen_turn_of_none hstep]; rfl⟩
    | some turn =>
      have hending := (hs.atWork.path_of_step hstep).1
      obtain ⟨journal, habsorb⟩ := @Session.exists_absorb s i (by rw [hs.observer]) turn hending
      have hturn : (Parallel.begin s).happen (.turn i) = ⟨turn.table, s.observer.sink,
          Function.update (fun _ => []) i (heard turn.notices), []⟩ := by
        simp [happen, Parallel.begin, hstep, hending]
      have hhear := ((Parallel.begin s).happen (.turn i)).follow_hear i
      rw [hturn] at hhear
      simp only [Function.update_self, Function.update_idem, Function.update_eq_self] at hhear
      refine ⟨.turn i :: List.replicate (heard turn.notices).length (.hear i), ?_⟩
      rw [follow, List.foldl_cons, hturn, Session.happen_turn_of_some hstep, habsorb]
      exact hhear

/-- **A session is one of these interleavings**: the one in which everything is heard at once. -/
theorem exists_follow_of_session {s : Session} (hs : s.Follows r sink h)
    (moments : List Session.Moment) :
    ∃ late, (Parallel.begin s).follow late = Parallel.begin (s.follow moments) := by
  induction moments generalizing s h with
  | nil => exact ⟨[], rfl⟩
  | cons m moments ih =>
    obtain ⟨k, hk⟩ := hs.happen m
    obtain ⟨first, hfirst⟩ := exists_follow_of_happen hs m
    obtain ⟨late, hlate⟩ := ih hk
    exact ⟨first ++ late, by rw [follow_append, hfirst, hlate]; rfl⟩

end Parallel

end DiningRing
