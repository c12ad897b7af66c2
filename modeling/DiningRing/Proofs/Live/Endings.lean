/-
# Turns at a table with empty seats

A turn of a philosopher goes on until it has to wait again, or it ends the work: because there is
no more to do, because a fork is lacking that has to be in hand, or because a fork is to go to, or
to come from, a neighbour who is gone.  `Table.Turned` collects what holds after it.

With one exception a turn neither makes nor loses a fork between two philosophers who are still
at the table.  The exception is a philosopher who hands back both forks while the neighbour on the
left is gone: the left fork is refused, and the right one, lifted like it, is not handed back
either.

What a philosopher who cannot take a turn waits for is listed by `Table.Waits`.  With at most one
fork on each edge nobody waits to hand back a fork, since the one that is lifted is the only one
there.
-/
import DiningRing.Proofs.Live.Presence

namespace DiningRing

/-- A philosopher has to wait before it can go on with a call, and sleeps if it is to pause. -/
def Philosopher.Stalled (p : Philosopher) (call : Call) : Prop :=
  p.Stalls call.agenda ∧ call.wake.isSome = Instr.pauses call.agenda

namespace Table

variable {n i j e : ℕ} {t t₀ : Table} {p p₀ q : Philosopher} {call call₀ : Call} {side : Side}
  {leaves : Bool} {turn : Turn} {agenda : List Instr}

/-! ### When work is over -/

/-- The table when the work of the philosopher at a seat is over: it rests if it does not leave. -/
def retire (t : Table) (i : ℕ) (p : Philosopher) (leaves : Bool) : Table :=
  if leaves then (t.put i (some { p with call := none })).drop i
  else t.put i (some { p with call := none })

lemma put_put (t : Table) (i : ℕ) (p? q? : Option Philosopher) :
    (t.put i p?).put i q? = t.put i q? := by
  simp [put]

lemma hangUp_eq (hp : t.philosopher? i = some p) (hcall : p.call = some call) :
    t.hangUp i = t.retire i p call.leaves := by
  simp only [hangUp, hp, hcall, retire]
  split_ifs
  · simp only [drop, hp, philosopher?_put_self (lt_size hp), put_put]
    rfl
  · rfl

lemma hangUp_put (hp : t.philosopher? i = some p) (hcall : q.call = some call)
    (hleaves : call.leaves = leaves) : (t.put i (some q)).hangUp i = t.retire i q leaves := by
  rw [hangUp_eq (philosopher?_put_self (lt_size hp)) hcall, retire, retire, put_put, hleaves]

lemma Linked.retire (ht : t.Linked n) (hp : t.philosopher? i = some p)
    (hwiring : q.wiring = Wiring.ofSeat n i) : (t.retire i q leaves).Linked n := by
  have hrest : (t.put i (some { q with call := none })).Linked n :=
    ht.put hp hwiring fun _ h => by cases h
  rw [Table.retire]
  split_ifs
  · exact hrest.drop i
  · exact hrest

lemma philosopher?_retire_self (hp : t.philosopher? i = some p) :
    (t.retire i q leaves).philosopher? i
      = if leaves then none else some { q with call := none } := by
  rw [retire]
  split_ifs
  · rw [philosopher?_drop, if_pos rfl]
  · exact philosopher?_put_self (lt_size hp)

/-- Whoever is to leave is gone then, and anybody else rests. -/
lemma philosopher?_retire (hp : t.philosopher? i = some p) :
    (t.retire i q leaves).philosopher? i = none ∧ leaves = true ∨
      leaves = false ∧ ∃ q', (t.retire i q leaves).philosopher? i = some q' ∧ q'.call = none := by
  rw [philosopher?_retire_self hp]
  cases leaves with
  | true => exact .inl ⟨rfl, rfl⟩
  | false => exact .inr ⟨rfl, _, rfl, rfl⟩

lemma philosopher?_retire_ne (hji : j ≠ i) :
    (t.retire i q leaves).philosopher? j = t.philosopher? j := by
  rw [retire]
  split_ifs
  · rw [philosopher?_drop, if_neg hji, philosopher?_put_ne hji]
  · exact philosopher?_put_ne hji

/-- Whoever rests has just the forks in its hands, and whoever leaves has none to share. -/
lemma Linked.forksOn_retire (ht : t.Linked n) (hp : t.philosopher? i = some p)
    (hwiring : q.wiring = Wiring.ofSeat n i) (he : e < n)
    (hjoined : (t.retire i q leaves).Joined n e) :
    (t.retire i q leaves).view.forksOn n e = (t.view.setDiner i q.diner).forksOn n e := by
  have hrest : (t.put i (some { q with call := none })).view = t.view.setDiner i q.diner := by
    rw [view_put]
    exact congrArg (t.view.setDiner i) q.seen_empty
  rw [Table.retire] at hjoined ⊢
  split_ifs at hjoined ⊢
  · rw [← hrest]
    simp only [Joined, philosopher?_drop] at hjoined
    have hlinked : (t.put i (some { q with call := none })).Linked n :=
      ht.put hp hwiring fun _ h => by cases h
    exact hlinked.forksOn_drop he (fun h => hjoined.1 (if_pos h)) fun h => hjoined.2 (if_pos h)
  · rw [hrest]

lemma diner_view_of_call (hp : t.philosopher? i = some p) (hcall : p.call = some call) :
    t.view.diner i = p.seen call.lifted := by
  rw [diner_view hp, Philosopher.shown, Philosopher.lifted, hcall]

/-- With no fork lifted a philosopher shows just its phase and its hands. -/
lemma diner_view_of_empty (hp : t.philosopher? i = some p) (hcall : p.call = some call)
    (hlifted : call.lifted = .empty) : t.view.diner i = p.diner := by
  rw [diner_view_of_call hp hcall, hlifted, Philosopher.seen_empty]

/-- Giving up a call with which no fork is lifted cannot be seen. -/
lemma view_retire (hp : t.philosopher? i = some p) (hcall : p.call = some call)
    (hlifted : call.lifted = .empty) : (t.retire i p false).view = t.view := by
  have hrest : Philosopher.shownAt (some { p with call := none }) = p.diner := p.seen_empty
  rw [retire, if_neg Bool.false_ne_true, view_put, hrest, ← diner_view_of_empty hp hcall hlifted,
    RingState.setDiner_diner]

/-- Work that has come to a result is over. -/
lemma settle_of_result {result : Except RingError Unit} (hp : t.philosopher? p.seat = some q)
    (hresult : (p.workOn call agenda).stop.result? = some result) : t.settle p call agenda
      = ⟨t.retire p.seat (p.workOn call agenda).philosopher call.leaves,
          (p.workOn call agenda).notices, some result⟩ := by
  cases hstop : (p.workOn call agenda).stop with
  | waiting rest =>
    rw [hstop] at hresult
    cases hresult
  | ended =>
    rw [hstop] at hresult
    obtain rfl := Option.some.inj hresult
    simp only [settle, hstop, Turn.mk.injEq]
    exact ⟨hangUp_put hp rfl rfl, trivial, trivial⟩
  | failed e =>
    rw [hstop] at hresult
    obtain rfl := Option.some.inj hresult
    simp only [settle, hstop, Turn.mk.injEq]
    exact ⟨hangUp_put hp rfl rfl, trivial, trivial⟩

/-! ### What holds after a turn -/

/-- Why the work of seat `i` fails: a fork is lacking, or the neighbour on some side is gone. -/
inductive Cause (n : ℕ) (t : Table) (i : ℕ) : RingError → Prop where
  | lacks {e : RingError} (lacks : e.LacksForks i) : Cause n t i e
  | endOfStream (side : Side) (gone : t.philosopher? (Seat.neighbor n i side) = none) :
      Cause n t i (.endOfStream i side)
  | channelClosed (side : Side) (gone : t.philosopher? (Seat.neighbor n i side) = none) :
      Cause n t i (.channelClosed i side)

lemma Cause.congr {u : Table} {err : RingError}
    (hgone : ∀ j, t.philosopher? j = none → u.philosopher? j = none) (h : t.Cause n i err) :
    u.Cause n i err := by
  cases h with
  | lacks hlacks => exact .lacks hlacks
  | endOfStream side hnone => exact .endOfStream side (hgone _ hnone)
  | channelClosed side hnone => exact .channelClosed side (hgone _ hnone)

/-- The right fork of seat `i` is lost since the left one was refused. -/
def Forfeits (i : ℕ) (turn : Turn) (e : ℕ) : Prop :=
  turn.ending = some (.error (.channelClosed i .left)) ∧ e = i

/-- What holds after a turn of seat `i` with a call of the philosopher there. -/
structure Turned (n : ℕ) (t : Table) (i : ℕ) (p : Philosopher) (call : Call) (turn : Turn) : Prop
    where
  linked : turn.table.Linked n
  others : ∀ j, j ≠ i → turn.table.philosopher? j = t.philosopher? j
  forks : ∀ e < n, turn.table.Joined n e → ¬ Forfeits i turn e →
    turn.table.view.forksOn n e = t.view.forksOn n e
  forfeit : ∀ e < n, turn.table.Joined n e → Forfeits i turn e →
    turn.table.view.forksOn n e + 1 = t.view.forksOn n e
  going : turn.ending = none → ∃ q call', turn.table.philosopher? i = some q ∧
    q.call = some call' ∧ call'.leaves = call.leaves ∧ call'.repeats = call.repeats ∧
    q.Stalled call' ∧ (call.repeats = false → call'.agenda <:+ call.agenda ∧
      (p.Stalled call → call'.agenda.length < call.agenda.length))
  ended : ∀ result, turn.ending = some result → turn.table.philosopher? i = none ∧
    call.leaves = true ∨ call.leaves = false ∧ ∃ q, turn.table.philosopher? i = some q ∧
      q.call = none
  cause : ∀ e, turn.ending = some (.error e) → t.Cause n i e

/-- Where a philosopher begins to work without waiting in a turn of seat `i`: at once, or after a
transfer of a fork that left the number of forks on each edge as it was. -/
structure Resumed (n : ℕ) (t : Table) (i : ℕ) (p : Philosopher) (call : Call) (t₀ : Table)
    (p₀ : Philosopher) (call₀ : Call) (agenda : List Instr) : Prop where
  linked : t₀.Linked n
  philosophers : ∀ j, t₀.philosopher? j = t.philosopher? j
  wiring : p₀.wiring = Wiring.ofSeat n i
  returns : Instr.Returns call₀.lifted agenda
  apart : call₀.lifted = .empty ∨ p₀.hands = .empty
  repeats : call₀.repeats = call.repeats
  leaves : call₀.leaves = call.leaves
  forks : ∀ e < n, (t₀.view.setDiner i (p₀.seen call₀.lifted)).forksOn n e = t.view.forksOn n e
  later : agenda <:+ call.agenda
  shorter : p.Stalled call → agenda.length < call.agenda.length

/-! ### Work without waiting -/

lemma Resumed.seat_eq (h : Resumed n t i p call t₀ p₀ call₀ agenda) : p₀.seat = i := by
  rw [Philosopher.seat, h.wiring, Wiring.ofSeat]

/-- What was seen of the hands before is seen of them after. -/
lemma Resumed.forksOn_setDiner (h : Resumed n t i p call t₀ p₀ call₀ agenda) (hi : i < n)
    {d : Diner} (hd : d.hands = p₀.hands.join call₀.lifted) (he : e < n) :
    (t₀.view.setDiner i d).forksOn n e = t.view.forksOn n e := by
  rw [← h.forks e he, RingState.forksOn_setDiner h.linked.fits hi,
    RingState.forksOn_setDiner h.linked.fits hi, hd, Philosopher.seen]

/-- Work that is over leaves no lifted fork behind. -/
lemma Resumed.ended (h : Resumed n t i p call t₀ p₀ call₀ agenda) (hp : t.philosopher? i = some p)
    (hq : q.wiring = Wiring.ofSeat n i) (hhands : q.hands = p₀.hands.join call₀.lifted)
    {notices : List Notice} {result : Except RingError Unit}
    (hresult : ∀ e, result = .error e → e.LacksForks i) :
    Turned n t i p call ⟨t₀.retire i q call.leaves, notices, some result⟩ := by
  have hi := h.linked.lt ((h.philosophers i).trans hp)
  have hp₀ := (h.philosophers i).trans hp
  have hforfeits : ∀ e, ¬ Forfeits i ⟨t₀.retire i q call.leaves, notices, some result⟩ e := by
    rintro e ⟨hending, -⟩
    cases hresult _ (Option.some.inj hending)
  refine ⟨h.linked.retire hp₀ hq, fun j hji => ?_, fun e he hjoined _ => ?_,
    fun e _ _ hforfeit => absurd hforfeit (hforfeits e), (fun hending => by cases hending),
    fun _ _ => ?_, fun e hending => .lacks (hresult e (Option.some.inj hending))⟩
  · exact (philosopher?_retire_ne hji).trans (h.philosophers j)
  · exact (h.linked.forksOn_retire hp₀ hq he hjoined).trans (h.forksOn_setDiner hi hhands he)
  · exact philosopher?_retire hp₀

/-- Work that comes to rest keeps its lifted forks. -/
lemma Resumed.going (h : Resumed n t i p call t₀ p₀ call₀ agenda) (hp : t.philosopher? i = some p)
    {call' : Call} {notices : List Notice} (hcall : q.call = some call')
    (hq : q.wiring = Wiring.ofSeat n i)
    (hhands : q.hands.join call'.lifted = p₀.hands.join call₀.lifted) (horderly : q.Orderly call')
    (hleaves : call'.leaves = call₀.leaves) (hrepeats : call'.repeats = call₀.repeats)
    (hstalled : q.Stalled call') (hlater : call₀.repeats = false → call'.agenda <:+ agenda) :
    Turned n t i p call ⟨t₀.put i (some q), notices, none⟩ := by
  have hp₀ := (h.philosophers i).trans hp
  have hi := h.linked.lt hp₀
  have hshown : q.shown.hands = p₀.hands.join call₀.lifted := by
    rw [Philosopher.shown, Philosopher.lifted, hcall]
    exact hhands
  refine ⟨h.linked.put hp₀ hq ?_, fun j hji => ?_, fun e he _ _ => ?_, fun e _ _ h => ?_,
    fun _ => ?_, (fun _ h => by cases h), (fun _ h => by cases h)⟩
  · rintro call hsome
    obtain rfl := Option.some.inj (hcall.symm.trans hsome)
    exact horderly
  · exact (philosopher?_put_ne hji).trans (h.philosophers j)
  · rw [view_put]
    exact h.forksOn_setDiner hi hshown he
  · cases h.1
  · refine ⟨q, call', philosopher?_put_self (lt_size hp₀), hcall, hleaves.trans h.leaves,
      hrepeats.trans h.repeats, hstalled, fun honce => ?_⟩
    have hsuffix := hlater (h.repeats.trans honce)
    exact ⟨hsuffix.trans h.later,
      fun hstalled => hsuffix.length_le.trans_lt (h.shorter hstalled)⟩

/-- **Working on without waiting** ends with a wait or with the work. -/
theorem Resumed.settle (h : Resumed n t i p call t₀ p₀ call₀ agenda)
    (hp : t.philosopher? i = some p) : Turned n t i p call (t₀.settle p₀ call₀ agenda) := by
  obtain ⟨agenda', hagenda, hkept⟩ := Philosopher.kept_workOn h.returns h.apart
  have hp₀ := (h.philosophers i).trans hp
  have hq : (p₀.workOn call₀ agenda).philosopher.wiring = Wiring.ofSeat n i :=
    hkept.wiring.trans h.wiring
  have hhands := hkept.hands
  have hstops := hkept.stops
  have hseat : (p₀.workOn call₀ agenda).philosopher.seat = i := by
    rw [Philosopher.seat, hq, Wiring.ofSeat]
  cases hresult : (p₀.workOn call₀ agenda).stop.result? with
  | none =>
    obtain ⟨rest, hstop⟩ := Stop.result?_eq_none_iff.mp hresult
    rw [settle_of_waiting _ hstop, h.seat_eq]
    rw [hstop] at hstops
    obtain ⟨hstalls, hreturns, hlater⟩ := Philosopher.StopsAt.waiting_iff.mp hstops
    have hwakes := Instr.isSome_alarm? t₀.clock rest
    refine h.going hp rfl hq hhands ⟨hreturns, hkept.apart, fun hsome => hwakes ▸ hsome⟩ rfl rfl
      ⟨hstalls.of_hands rfl, hwakes⟩ fun honce => ?_
    rw [← hagenda honce]
    exact hlater
  | some result =>
    obtain ⟨hempty, hlacks⟩ := hstops.of_result hresult
    rw [hempty, Hands.join_empty] at hhands
    rw [settle_of_result (h.seat_eq.symm ▸ hp₀) hresult, h.seat_eq, h.leaves]
    refine h.ended hp hq hhands ?_
    rw [← hseat]
    exact hlacks

/-! ### Transfers that are refused -/

lemma hand_view (hp : t.philosopher? i = some p) (hcall : p.call = some call) (side : Side) :
    t.view.hand i side = (p.hands.holds side || call.lifted.holds side) := by
  rw [RingState.hand, diner_view_of_call hp hcall, Philosopher.seen, Hands.holds_join]

lemma joined_of_retire (hp : t.philosopher? i = some p)
    (h : (t.retire i q leaves).Joined n e) : t.Joined n e := by
  have hpresent : ∀ j, (t.retire i q leaves).philosopher? j ≠ none → t.philosopher? j ≠ none := by
    intro j hj
    by_cases hji : j = i
    · rw [hji, hp]
      exact Option.some_ne_none p
    · rwa [philosopher?_retire_ne hji] at hj
  exact ⟨hpresent _ h.1, hpresent _ h.2⟩

/-- A refused transfer ends the work, and the forks are lost that are lifted then. -/
lemma Linked.fail (ht : t.Linked n) (hp : t.philosopher? i = some p) (hcall : p.call = some call)
    {err : RingError} (hcause : t.Cause n i err)
    (hforks : ∀ e < n, t.Joined n e → ¬ (err = .channelClosed i .left ∧ e = i) →
      (t.view.setDiner i p.diner).forksOn n e = t.view.forksOn n e)
    (hforfeit : err = .channelClosed i .left → t.Joined n i →
      (t.view.setDiner i p.diner).forksOn n i + 1 = t.view.forksOn n i) :
    Turned n t i p call (t.fail i err) := by
  have hwiring := ht.wiring i p hp
  rw [Table.fail, hangUp_eq hp hcall]
  refine ⟨ht.retire hp hwiring, fun j hji => philosopher?_retire_ne hji,
    fun e he hjoined hkept => ?_, ?_, (fun h => by cases h), fun _ _ => ?_, ?_⟩
  · rw [ht.forksOn_retire hp hwiring he hjoined]
    refine hforks e he (joined_of_retire hp hjoined) ?_
    rintro ⟨rfl, rfl⟩
    exact hkept ⟨rfl, rfl⟩
  · rintro e he hjoined ⟨hending, rfl⟩
    rw [ht.forksOn_retire hp hwiring he hjoined]
    exact hforfeit (Except.error.inj (Option.some.inj hending)) (joined_of_retire hp hjoined)
  · exact philosopher?_retire hp
  · rintro e hending
    obtain rfl := Except.error.inj (Option.some.inj hending)
    exact hcause

/-- Whoever waits for a fork has none lifted, so that none is lost. -/
lemma Linked.fail_take (ht : t.Linked n) (hp : t.philosopher? i = some p)
    (hcall : p.call = some call) (hlifted : call.lifted = .empty)
    (hgone : t.philosopher? (Seat.neighbor n i side) = none) :
    Turned n t i p call (t.fail i (.endOfStream i side)) := by
  have hsame : t.view.setDiner i p.diner = t.view := by
    rw [← diner_view_of_empty hp hcall hlifted, RingState.setDiner_diner]
  refine ht.fail hp hcall (.endOfStream side hgone) (fun e _ _ _ => ?_) fun h => by cases h
  rw [hsame]

/-- Whoever cannot hand back the left fork loses the right one as well. -/
lemma Linked.fail_give_left (ht : t.Linked n) (hp : t.philosopher? i = some p)
    (hcall : p.call = some call) (hlifted : call.lifted = .full) (hhands : p.hands = .empty)
    (hgone : t.philosopher? (Seat.neighbor n i .left) = none) :
    Turned n t i p call (t.fail i (.channelClosed i .left)) := by
  have hi := ht.lt hp
  have hprevious : Seat.next n i ≠ i := by
    intro h
    rw [Seat.neighbor, ← (Seat.next_eq_iff hi hi).mp h, hp] at hgone
    cases hgone
  refine ht.fail hp hcall (.channelClosed .left hgone) (fun e he hjoined hkept => ?_)
    fun _ _ => ?_
  · have hei : e ≠ i := fun h => hkept ⟨rfl, h⟩
    have hnext : Seat.next n e ≠ i := fun h =>
      hjoined.1 ((Seat.next_eq_iff he hi).mp h ▸ hgone)
    rw [RingState.forksOn_setDiner ht.fits hi, if_neg hei, if_neg hnext, RingState.forksOn]
  · have hheld : t.view.hand i .right = true := by
      rw [hand_view hp hcall, hlifted]
      simp [Hands.full, Hands.holds]
    have hempty : p.diner.hands.holds .right = false := by
      show p.hands.holds .right = false
      rw [hhands]
      rfl
    rw [RingState.forksOn_setDiner ht.fits hi, if_pos rfl, if_neg hprevious, RingState.forksOn,
      hheld, hempty]
    simp only [Bool.toNat_true, Bool.toNat_false]
    omega

/-- Whoever cannot hand back the right fork has already handed back the left one. -/
lemma Linked.fail_give_right (ht : t.Linked n) (hp : t.philosopher? i = some p)
    (hcall : p.call = some call) (hlifted : call.lifted = ⟨false, true⟩)
    (hgone : t.philosopher? (Seat.neighbor n i .right) = none) :
    Turned n t i p call (t.fail i (.channelClosed i .right)) := by
  have hi := ht.lt hp
  refine ht.fail hp hcall (.channelClosed .right hgone) (fun e he hjoined _ => ?_) fun h => by
    cases h
  have hei : e ≠ i := by
    rintro rfl
    exact hjoined.2 hgone
  have hleft : t.view.hand i .left = p.diner.hands.holds .left := by
    rw [hand_view hp hcall, hlifted]
    exact Bool.or_false _
  rw [RingState.forksOn_setDiner ht.fits hi, if_neg hei, RingState.forksOn]
  split_ifs with hnext
  · rw [hnext, hleft]
  · rfl

/-! ### Working on -/

/-- A philosopher who works on from where it is. -/
lemma Linked.resumed (ht : t.Linked n) (hp : t.philosopher? i = some p)
    (hcall : p.call = some call) (hlifted : call₀.lifted = call.lifted)
    (hrepeats : call₀.repeats = call.repeats) (hleaves : call₀.leaves = call.leaves)
    (hreturns : Instr.Returns call.lifted agenda) (hlater : agenda <:+ call.agenda)
    (hshorter : p.Stalled call → agenda.length < call.agenda.length) :
    Resumed n t i p call t p call₀ agenda := by
  refine ⟨ht, fun _ => rfl, ht.wiring i p hp, hlifted ▸ hreturns, ?_, hrepeats, hleaves,
    fun e _ => ?_, hlater, hshorter⟩
  · rw [hlifted]
    exact (ht.orderly i p call hp hcall).apart
  · rw [hlifted, ← diner_view_of_call hp hcall, RingState.setDiner_diner]

/-- A philosopher who has taken a fork that had arrived. -/
lemma Linked.resumed_take (ht : t.Linked n) (hp : t.philosopher? i = some p)
    (hcall : p.call = some call) (hagenda : call.agenda = .acquire side :: agenda)
    (hlacks : p.hands.holds side = false)
    (harrived : t.lanes.full (Slot.inbound n i side) = true) :
    Resumed n t i p call { t with lanes := t.lanes.fill (Slot.inbound n i side) false }
      (p.withHands (p.hands.set side true)) call agenda := by
  have hi := ht.lt hp
  have hreturns := (ht.orderly i p call hp hcall).returns
  rw [hagenda] at hreturns
  obtain ⟨hlifted, hlater⟩ := hreturns.of_keeps rfl
  refine ⟨ht.fill _ _, fun _ => rfl, ht.wiring i p hp, ?_, .inl hlifted, rfl, rfl,
    fun e he => ?_, ?_, fun _ => ?_⟩
  · rw [hlifted]
    exact hlater
  · rw [view_fill]
    refine RingState.forksOn_transfer true ht.fits hi he (.inl rfl) ?_ ?_ ?_
    · rw [hand_view hp hcall, hlacks, hlifted]
      cases side <;> rfl
    · rw [slot_view, harrived]
    · rw [diner_view_of_call hp hcall, hlifted, Philosopher.seen_empty, Philosopher.seen_empty]
      rfl
  · rw [hagenda]
    exact List.suffix_cons _ _
  · rw [hagenda]
    exact Nat.lt_succ_self _

/-- A philosopher who has handed back a fork for which there was room. -/
lemma Linked.resumed_give (ht : t.Linked n) (hp : t.philosopher? i = some p)
    (hcall : p.call = some call) (hagenda : call.agenda = .give side :: agenda)
    (hroom : t.lanes.full (Slot.outbound n i side) = false) :
    Resumed n t i p call { t with lanes := t.lanes.fill (Slot.outbound n i side) true } p
      { call with lifted := call.lifted.set side false } agenda := by
  have hi := ht.lt hp
  have horderly := ht.orderly i p call hp hcall
  have hreturns := horderly.returns
  rw [hagenda] at hreturns
  obtain ⟨hholds, hlater⟩ := hreturns.holds
  have hhands : p.hands = .empty := by
    refine horderly.apart.resolve_left fun hempty => ?_
    rw [hempty] at hholds
    cases side <;> cases hholds
  refine ⟨ht.fill _ _, fun _ => rfl, ht.wiring i p hp, hlater, .inr hhands, rfl, rfl,
    fun e he => ?_, ?_, fun _ => ?_⟩
  · rw [view_fill]
    refine RingState.forksOn_transfer false ht.fits hi he (.inr rfl) ?_ ?_ ?_
    · rw [hand_view hp hcall, hholds]
      exact Bool.or_true _
    · rw [slot_view, hroom]
    · rw [diner_view_of_call hp hcall, Philosopher.seen, Philosopher.seen, hhands,
        Hands.empty_join, Hands.empty_join]
  · rw [hagenda]
    exact List.suffix_cons _ _
  · rw [hagenda]
    exact Nat.lt_succ_self _

/-! ### Turns -/

lemma Linked.seat_eq (ht : t.Linked n) (hp : t.philosopher? i = some p) : p.seat = i := by
  rw [Philosopher.seat, ht.wiring i p hp, Wiring.ofSeat]

/-- A philosopher who is to take a fork takes it, or fails. -/
lemma Linked.takeTurn (ht : t.Linked n) (hp : t.philosopher? i = some p)
    (hcall : p.call = some call) (hagenda : call.agenda = .acquire side :: agenda)
    (hlacks : p.hands.holds side = false)
    (hturn : t.takeTurn p call side agenda = some turn) : Turned n t i p call turn := by
  have hreturns := (ht.orderly i p call hp hcall).returns
  rw [hagenda] at hreturns
  rw [Table.takeTurn, ht.wiring i p hp, ht.take_eq (ht.lt hp), ht.seat_eq hp] at hturn
  split_ifs at hturn with harrived hgone
  · obtain rfl := Option.some.inj hturn
    exact (ht.resumed_take hp hcall hagenda hlacks harrived).settle hp
  · obtain rfl := Option.some.inj hturn
    exact ht.fail_take hp hcall (hreturns.of_keeps rfl).1 hgone

/-- A philosopher who is to hand back a fork does so, or fails. -/
lemma Linked.giveTurn (ht : t.Linked n) (hp : t.philosopher? i = some p)
    (hcall : p.call = some call) (hagenda : call.agenda = .give side :: agenda)
    (hturn : t.giveTurn p call side agenda = some turn) : Turned n t i p call turn := by
  have horderly := ht.orderly i p call hp hcall
  have hreturns := horderly.returns
  rw [hagenda] at hreturns
  rw [Table.giveTurn, ht.wiring i p hp, ht.give_eq (ht.lt hp), ht.seat_eq hp] at hturn
  split_ifs at hturn with hgone hfull
  · obtain rfl := Option.some.inj hturn
    cases side with
    | left =>
      obtain ⟨hlifted, hhands⟩ := horderly.of_giveLeft hagenda
      exact ht.fail_give_left hp hcall hlifted hhands hgone
    | right => exact ht.fail_give_right hp hcall hreturns.of_giveRight hgone
  · obtain rfl := Option.some.inj hturn
    exact (ht.resumed_give hp hcall hagenda (by simpa using hfull)).settle hp

/-- **A turn at a table with empty seats.** -/
theorem Linked.turned (ht : t.Linked n) (hp : t.philosopher? i = some p)
    (hcall : p.call = some call) (hturn : t.turn p call = some turn) :
    Turned n t i p call turn := by
  have hreturns := (ht.orderly i p call hp hcall).returns
  rw [Table.turn] at hturn
  split at hturn
  · -- a pause that is over
    rename_i ticks agenda wake hagenda hwake
    rw [hagenda] at hreturns
    split_ifs at hturn with hdue
    obtain rfl := Option.some.inj hturn
    obtain ⟨hlifted, hlater⟩ := hreturns.of_keeps rfl
    have hresumed : Resumed n t i p call t p { call with wake := none } agenda := by
      refine ht.resumed hp hcall rfl rfl rfl (hlifted ▸ hlater) ?_ fun _ => ?_
      · rw [hagenda]
        exact List.suffix_cons _ _
      · rw [hagenda]
        exact Nat.lt_succ_self _
    exact hresumed.settle hp
  · rename_i side agenda hagenda
    split_ifs at hturn with hholds
    · -- a fork that is already in hand
      obtain rfl := Option.some.inj hturn
      rw [← hagenda]
      refine (ht.resumed hp hcall rfl rfl rfl hreturns List.suffix_rfl fun hstalled => ?_).settle hp
      have hstalls := hstalled.1
      rw [hagenda] at hstalls
      cases hstalls with
      | acquire hlacks => exact absurd hholds (by simp [hlacks])
    · exact ht.takeTurn hp hcall hagenda (by simpa using hholds) hturn
  · rename_i side agenda hagenda
    exact ht.giveTurn hp hcall hagenda hturn
  · -- an instruction that needs neither the clock nor a neighbour
    rename_i hacquire hgive hpause
    obtain rfl := Option.some.inj hturn
    refine (ht.resumed hp hcall rfl rfl rfl hreturns List.suffix_rfl fun hstalled => ?_).settle hp
    obtain ⟨hstalls, hwakes⟩ := hstalled
    generalize hagenda : call.agenda = agenda at hstalls hwakes
    cases hstalls with
    | pause ticks rest =>
      obtain ⟨wake, hwake⟩ := Option.isSome_iff_exists.mp hwakes
      exact (hpause _ _ _ hagenda hwake).elim
    | acquire hlacks rest => exact (hacquire _ _ hagenda).elim
    | give side rest => exact (hgive _ _ hagenda).elim

/-- Whoever is to leave at the end of a call is gone when it has come to an end. -/
lemma Turned.gone (h : Turned n t i p call turn)
    (hleaves : call.leaves = true) {result : Except RingError Unit}
    (hending : turn.ending = some result) : turn.table.philosopher? i = none := by
  rcases h.ended result hending with ⟨hgone, -⟩ | ⟨hstays, -⟩
  · exact hgone
  · rw [hleaves] at hstays
    cases hstays

/-- Whoever is not to leave is still there after a turn. -/
lemma Turned.stays (h : Turned n t i p call turn) (hleaves : call.leaves = false) :
    turn.table.philosopher? i ≠ none := by
  cases hending : turn.ending with
  | none =>
    obtain ⟨q, -, hq, -⟩ := h.going hending
    rw [hq]
    exact Option.some_ne_none q
  | some result =>
    rcases h.ended result hending with ⟨-, hgoes⟩ | ⟨-, q, hq, -⟩
    · rw [hleaves] at hgoes
      cases hgoes
    · rw [hq]
      exact Option.some_ne_none q

/-- Nobody comes to the table with a turn. -/
lemma Turned.joined (h : Turned n t i p call turn) (hp : t.philosopher? i = some p)
    (hjoined : turn.table.Joined n e) : t.Joined n e := by
  have hpresent : ∀ j, turn.table.philosopher? j ≠ none → t.philosopher? j ≠ none := by
    intro j hj
    by_cases hji : j = i
    · rw [hji, hp]
      exact Option.some_ne_none p
    · rwa [h.others j hji] at hj
  exact ⟨hpresent _ hjoined.1, hpresent _ hjoined.2⟩

lemma exists_call_of_step (hstep : t.step i = some turn) :
    ∃ p call, t.philosopher? i = some p ∧ p.call = some call ∧ t.turn p call = some turn := by
  obtain ⟨p, hp⟩ := exists_philosopher_of_step hstep
  cases hcall : p.call with
  | none => simp [step, hp, hcall] at hstep
  | some call => exact ⟨p, call, hp, hcall, by simpa only [step, hp, hcall] using hstep⟩

/-! ### Waiting -/

/-- What a philosopher waits for who cannot take a turn. -/
inductive Waits (n : ℕ) (t : Table) (i : ℕ) (p : Philosopher) (call : Call) : Prop where
  /-- For the clock. -/
  | sleep {ticks wake : ℕ} {rest : List Instr} (agenda : call.agenda = .pause ticks :: rest)
      (asleep : call.wake = some wake) (early : t.clock < wake) : Waits n t i p call
  /-- For a fork that it lacks. -/
  | fork {side : Side} {rest : List Instr} (agenda : call.agenda = .acquire side :: rest)
      (lacks : p.hands.holds side = false)
      (missing : t.lanes.full (Slot.inbound n i side) = false)
      (present : t.philosopher? (Seat.neighbor n i side) ≠ none) : Waits n t i p call
  /-- For room to hand back a fork. -/
  | room {side : Side} {rest : List Instr} (agenda : call.agenda = .give side :: rest)
      (full : t.lanes.full (Slot.outbound n i side) = true)
      (present : t.philosopher? (Seat.neighbor n i side) ≠ none) : Waits n t i p call

/-- **Why a philosopher cannot take a turn.** -/
theorem Linked.waits (ht : t.Linked n) (hp : t.philosopher? i = some p)
    (hcall : p.call = some call) (hstep : t.step i = none) : Waits n t i p call := by
  simp only [step, hp, hcall, Table.turn] at hstep
  split at hstep
  · rename_i ticks agenda wake hagenda hwake
    split_ifs at hstep with hdue
    exact .sleep hagenda hwake (by omega)
  · rename_i side agenda hagenda
    split_ifs at hstep with hholds
    rw [Table.takeTurn, ht.wiring i p hp, ht.take_eq (ht.lt hp)] at hstep
    split_ifs at hstep with harrived hgone
    exact .fork hagenda (by simpa using hholds) (by simpa using harrived) hgone
  · rename_i side agenda hagenda
    rw [Table.giveTurn, ht.wiring i p hp, ht.give_eq (ht.lt hp)] at hstep
    split_ifs at hstep with hgone hfull
    exact .room hagenda hfull hgone
  · cases hstep

/-- Where there is at most one fork on an edge, nobody waits for room to hand it back. -/
theorem Linked.step_isSome_of_give (ht : t.Linked n) (hp : t.philosopher? i = some p)
    (hcall : p.call = some call) (hagenda : call.agenda = .give side :: agenda)
    (hone : t.Joined n (Seat.edge n i side) → t.view.forksOn n (Seat.edge n i side) ≤ 1) :
    (t.step i).isSome = true := by
  have hi := ht.lt hp
  rw [Option.isSome_iff_ne_none]
  intro hstep
  cases ht.waits hp hcall hstep with
  | sleep hother | fork hother =>
    rw [hagenda] at hother
    cases hother
  | @room other rest hgive hfull hpresent =>
    obtain ⟨hside, -⟩ : Instr.give side = .give other ∧ agenda = rest :=
      List.cons.inj (hagenda.symm.trans hgive)
    obtain rfl := Instr.give.inj hside
    have hreturns := (ht.orderly i p call hp hcall).returns
    rw [hagenda] at hreturns
    -- the lifted fork and the one on its way to the neighbour are two
    have hforks := t.view.forksOn_edge hi side
    rw [hand_view hp hcall, hreturns.holds.1, Bool.or_true, slot_view _ (Slot.outbound n i side),
      hfull] at hforks
    have hle := hone ((joined_edge hi side).mpr ⟨by rw [hp]; exact Option.some_ne_none p,
      hpresent⟩)
    simp only [Bool.toNat_true] at hforks
    omega

/-- Whoever sleeps can take a turn when the time has come. -/
lemma Linked.step_isSome_of_sleep (ht : t.Linked n) (hp : t.philosopher? i = some p)
    (hcall : p.call = some call) {wake : ℕ} (hasleep : call.wake = some wake) :
    ((t.withClock wake).step i).isSome = true := by
  have hpauses := (ht.orderly i p call hp hcall).wakes (by rw [hasleep]; rfl)
  have hlater : (t.withClock wake).philosopher? i = some p := hp
  rw [Option.isSome_iff_ne_none]
  intro hstep
  cases (ht.withClock wake).waits hlater hcall hstep with
  | sleep _ hasleep' hearly =>
    obtain rfl := Option.some.inj (hasleep.symm.trans hasleep')
    exact lt_irrefl _ hearly
  | fork hagenda | room hagenda =>
    rw [hagenda] at hpauses
    cases hpauses

end Table

end DiningRing
