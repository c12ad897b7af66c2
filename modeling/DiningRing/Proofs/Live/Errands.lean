/-
# Calls one after another

Philosophers at a live table can be asked for single things, one call after another, each under a
time limit; they can also be dropped in between (`Session.Errand`).  A call that is not over when
its limit passes is given up where it waits.

While a call is under way nobody else does anything, so that what is known of its turns
(`Table.Turned`) adds up to what is known of the call: `Session.Underway` is kept by every turn
and by the clock.  A call for a single thing has at most eleven instructions.  Hence the last
turns that it is given at its limit take it to its end, or to a place where it has to wait
(`Session.Underway.step_poll`).
-/
import DiningRing.Proofs.Live.Endings
import DiningRing.Proofs.Live.Interleaving

namespace DiningRing

/-! ### Single calls -/

/-- Whether a request is for a single thing: a fork, both forks, a meal, handing both forks back,
or one round. -/
def Request.isSingle : Request → Bool
  | cycles count => count == 1
  | acquire _ | acquireAll | eat | release => true
  | run => false

lemma Request.length_agenda_le {q : Request} (hq : q.isSingle = true) (p : Philosopher) :
    (q.agenda p).length ≤ 11 := by
  cases q with
  | cycles count =>
    obtain rfl : count = 1 := by simpa [isSingle] using hq
    simp [agenda, Instr.round, Instr.acquireAll, Instr.meal, Instr.release, Order.sides]
  | acquire side => simp [agenda]
  | acquireAll => simp [agenda, Instr.acquireAll, Order.sides]
  | eat => simp [agenda, Instr.meal]
  | release => simp [agenda, Instr.release]
  | run => cases hq

lemma Request.call_of_isSingle {q : Request} (hq : q.isSingle = true) (p : Philosopher) :
    (q.call p).repeats = false ∧ (q.call p).leaves = false := by
  cases q with
  | run => cases hq
  | cycles | acquire | acquireAll | eat | release => exact ⟨rfl, rfl⟩

/-- What a call has come to by itself. -/
def Ending.result? : Ending → Option (Except RingError Unit)
  | returned result => some result
  | panicked _ | cut => none

lemma Ending.result?_eq_some_iff {e : Ending} {result : Except RingError Unit} :
    e.result? = some result ↔ e = .returned result := by
  cases e with
  | returned => simp [result?]
  | panicked | cut => simp [result?]

namespace Session

/-- What can be done to a philosopher at a table where nobody is busy. -/
inductive Errand where
  /-- It is asked for something, under a time limit. -/
  | ask (seat : ℕ) (request : Request) (limit : ℕ)
  /-- It is dropped. -/
  | drop (seat : ℕ)
deriving DecidableEq, Repr

/-- The session after an errand. -/
def carryOut (s : Session) : Errand → Session
  | .ask seat request limit => s.perform seat request limit
  | .drop seat => s.drop seat

/-- The session after several errands. -/
def carryOutAll (s : Session) (errands : List Errand) : Session := errands.foldl carryOut s

/-- Whether an errand is a call for a single thing. -/
def Errand.isSingle : Errand → Bool
  | ask _ request _ => request.isSingle
  | drop _ => true

/-- The session when a philosopher has just been asked for something. -/
def asked (s : Session) (seat : ℕ) (request : Request) : Session :=
  { s with table := s.table.call seat request, ended := #[] }

/-- The session when a call has been given up. -/
def cut (u : Session) (i : ℕ) : Session := { u with table := u.table.hangUp i }.close i .cut

variable {n i j : ℕ} {s u : Session} {q : Request} {t : Turn}

/-- **What becomes of a call**: it comes to its end in some interleaving, or it gets its last
turns; if it is still not over then, it is given up. -/
lemma exists_perform_eq (s : Session) (i : ℕ) (q : Request) (limit : ℕ) : ∃ moments,
    let v := (s.asked i q).follow moments
    let u := (poll burst v i).1
    s.perform i q limit = if (v.endOf? i).isSome then v
      else if (u.endOf? i).isSome then u
      else u.cut i := by
  let finished (v : Session) : Bool := [(i, q)].all fun r => (v.endOf? r.1).isSome
  obtain ⟨moments, hrun⟩ := exists_follow_of_runUntil finished ((s.asked i q).table.clock + limit)
    ((s.asked i q).turnsIn limit (s.asked i q).workload) (s.asked i q)
  have hperform : s.perform i q limit
      = if finished ((s.asked i q).follow moments) then (s.asked i q).follow moments
        else ((s.asked i q).follow moments).cutOff i := by
    rw [← hrun]
    rfl
  refine ⟨moments, ?_⟩
  simp only [hperform, finished, List.all_cons, List.all_nil, Bool.and_true, cutOff]
  split_ifs <;> rfl

/-! ### Calls under way -/

/-- A table in order where nobody is busy, under an observer without a fault. -/
structure AtRest (n : ℕ) (s : Session) : Prop where
  linked : s.table.Linked n
  silent : s.observer.tripwire = none
  resting : ∀ i p, s.table.philosopher? i = some p → p.call = none

/-- A call that is not over: the forks are where they were, or on the same edge. -/
structure Going (n : ℕ) (s : Session) (i : ℕ) (q : Request) (u : Session) : Prop where
  ended : u.ended = #[]
  forks : ∀ e < n, u.table.Joined n e → u.table.view.forksOn n e = s.table.view.forksOn n e
  call : ∀ p, u.table.philosopher? i = some p → ∃ call, p.call = some call ∧
    call.repeats = false ∧ call.leaves = false ∧ ∃ p₀, call.agenda <:+ q.agenda p₀

/-- A call that is over, with what it has come to. -/
structure Over (n : ℕ) (s : Session) (i : ℕ) (u : Session) (result : Except RingError Unit) : Prop
    where
  ended : ∃ clock, u.ended = #[⟨i, clock, .returned result⟩]
  forks : ∀ e < n, u.table.Joined n e → ¬ (result = .error (.channelClosed i .left) ∧ e = i) →
    u.table.view.forksOn n e = s.table.view.forksOn n e
  forfeit : result = .error (.channelClosed i .left) → u.table.Joined n i →
    u.table.view.forksOn n i + 1 = s.table.view.forksOn n i
  resting : ∀ p, u.table.philosopher? i = some p → p.call = none
  cause : ∀ e, result = .error e → s.table.Cause n i e

lemma Over.not_going {result : Except RingError Unit} (hover : Over n s i u result) :
    ¬ Going n s i q u := by
  intro hgoing
  obtain ⟨clock, hended⟩ := hover.ended
  rw [hgoing.ended] at hended
  cases hended

/-- A call of seat `i`, begun in `s` where nobody was busy, has come to `u`. -/
structure Underway (n : ℕ) (s : Session) (i : ℕ) (q : Request) (u : Session) : Prop where
  linked : u.table.Linked n
  silent : u.observer.tripwire = none
  others : ∀ j, j ≠ i → u.table.philosopher? j = s.table.philosopher? j
  present : ∀ j, u.table.philosopher? j = none ↔ s.table.philosopher? j = none
  progress : Going n s i q u ∨ ∃ result, Over n s i u result

lemma Underway.joined (hu : Underway n s i q u) (e : ℕ) :
    u.table.Joined n e ↔ s.table.Joined n e := by
  simp only [Table.Joined, ne_eq, hu.present]

/-- Whoever has been asked is the same as before but for the call. -/
lemma exists_of_asked {p : Philosopher} (hp : (s.asked i q).table.philosopher? i = some p) :
    ∃ p₀, s.table.philosopher? i = some p₀ ∧ p = { p₀ with call := some (q.call p₀) } := by
  have hp : (s.table.call i q).philosopher? i = some p := hp
  rw [Table.philosopher?_call] at hp
  obtain ⟨p₀, hp₀, rfl⟩ := Option.map_eq_some_iff.mp hp
  exact ⟨p₀, hp₀, by rw [if_pos rfl]⟩

/-- A call that has just been asked for. -/
lemma AtRest.underway (hs : s.AtRest n) (hq : q.isSingle = true) :
    Underway n s i q (s.asked i q) := by
  have hview : (s.asked i q).table.view = s.table.view := Table.view_call (hs.resting i) q
  refine ⟨hs.linked.ask i q, hs.silent, fun j hji => ?_, fun j => ?_, .inl ⟨rfl, fun e _ _ => ?_,
    fun p hp => ?_⟩⟩
  · show (s.table.call i q).philosopher? j = _
    rw [Table.philosopher?_call]
    simp [hji]
  · show (s.table.call i q).philosopher? j = none ↔ _
    rw [Table.philosopher?_call, Option.map_eq_none_iff]
  · rw [hview]
  · obtain ⟨p₀, -, rfl⟩ := exists_of_asked hp
    obtain ⟨hrepeats, hleaves⟩ := q.call_of_isSingle hq p₀
    exact ⟨q.call p₀, rfl, hrepeats, hleaves, p₀, List.suffix_rfl⟩

/-- Only the philosopher who has been asked takes turns. -/
lemma Underway.exists_turned (hs : s.AtRest n) (hu : Underway n s i q u)
    (hstep : u.table.step j = some t) : j = i ∧ Going n s i q u ∧ ∃ p call,
      u.table.philosopher? i = some p ∧ p.call = some call ∧ call.repeats = false ∧
      call.leaves = false ∧ (∃ p₀, call.agenda <:+ q.agenda p₀) ∧
      Table.Turned n u.table i p call t := by
  obtain ⟨p, call, hp, hcall, hturn⟩ := Table.exists_call_of_step hstep
  have hji : j = i := by
    by_contra hji
    have hnone := hs.resting j p (hu.others j hji ▸ hp)
    rw [hcall] at hnone
    cases hnone
  subst hji
  rcases hu.progress with hgoing | ⟨result, hover⟩
  · obtain ⟨call', hcall', hrepeats, hleaves, hagenda⟩ := hgoing.call p hp
    obtain rfl := Option.some.inj (hcall.symm.trans hcall')
    exact ⟨rfl, hgoing, p, call, hp, hcall, hrepeats, hleaves, hagenda,
      hu.linked.turned hp hcall hturn⟩
  · have hnone := hover.resting p hp
    rw [hcall] at hnone
    cases hnone

/-- The forks that are there after a turn of a call. -/
lemma Going.forks_turned (hgoing : Going n s i q u) {p : Philosopher} {call : Call}
    (hp : u.table.philosopher? i = some p) (hturned : Table.Turned n u.table i p call t) {e : ℕ}
    (he : e < n) (hjoined : t.table.Joined n e) (hkept : ¬ Table.Forfeits i t e) :
    t.table.view.forksOn n e = s.table.view.forksOn n e :=
  (hturned.forks e he hjoined hkept).trans (hgoing.forks e he (hturned.joined hp hjoined))

/-- A turn that does not end a call leaves it going. -/
lemma Underway.going_absorb (hs : s.AtRest n) (hu : Underway n s i q u)
    (hstep : u.table.step j = some t) (hending : t.ending = none) :
    Going n s i q (u.absorb j t) := by
  obtain ⟨rfl, hgoing, p, call, hp, -, hrepeats, hleaves, ⟨p₀, hagenda⟩, hturned⟩ :=
    hu.exists_turned hs hstep
  obtain ⟨p', call', hp', hcall', hleaves', hrepeats', -, hlater⟩ := hturned.going hending
  obtain ⟨htable, -, hended⟩ := absorb_spec hu.silent j t
  rw [hending] at hended
  refine ⟨hended.trans hgoing.ended, fun e he hjoined => ?_, fun p'' hp'' => ?_⟩
  · rw [htable] at hjoined ⊢
    refine hgoing.forks_turned hp hturned he hjoined ?_
    rintro ⟨hforfeit, -⟩
    rw [hending] at hforfeit
    cases hforfeit
  · rw [htable] at hp''
    obtain rfl := Option.some.inj (hp'.symm.trans hp'')
    exact ⟨call', hcall', hrepeats'.trans hrepeats, hleaves'.trans hleaves, p₀,
      (hlater hrepeats).1.trans hagenda⟩

/-- A turn that ends a call leaves it over, with the same result. -/
lemma Underway.over_absorb (hs : s.AtRest n) (hu : Underway n s i q u)
    (hstep : u.table.step j = some t) {result : Except RingError Unit}
    (hending : t.ending = some result) : Over n s i (u.absorb j t) result := by
  obtain ⟨rfl, hgoing, p, call, hp, -, -, -, -, hturned⟩ := hu.exists_turned hs hstep
  obtain ⟨htable, -, hended⟩ := absorb_spec hu.silent j t
  rw [hending, hgoing.ended] at hended
  refine ⟨⟨t.table.clock, hended⟩, fun e he hjoined hkept => ?_, fun hresult hjoined => ?_,
    fun p' hp' => ?_, fun e he => ?_⟩
  · rw [htable] at hjoined ⊢
    refine hgoing.forks_turned hp hturned he hjoined ?_
    rintro ⟨hforfeit, hej⟩
    exact hkept ⟨Option.some.inj (hending.symm.trans hforfeit), hej⟩
  · rw [htable] at hjoined ⊢
    have hj := hu.linked.lt hp
    rw [hturned.forfeit j hj hjoined ⟨hresult ▸ hending, rfl⟩,
      hgoing.forks j hj (hturned.joined hp hjoined)]
  · rw [htable] at hp'
    rcases hturned.ended result hending with ⟨hgone, -⟩ | ⟨-, q', hq', hnone⟩
    · rw [hgone] at hp'
      cases hp'
    · obtain rfl := Option.some.inj (hq'.symm.trans hp')
      exact hnone
  · exact (hturned.cause e (he ▸ hending)).congr fun k => (hu.present k).mp

/-- **A call stays under way with every turn.** -/
lemma Underway.absorb (hs : s.AtRest n) (hu : Underway n s i q u)
    (hstep : u.table.step j = some t) : Underway n s i q (u.absorb j t) := by
  obtain ⟨rfl, -, p, call, hp, -, -, hleaves, -, hturned⟩ := hu.exists_turned hs hstep
  obtain ⟨htable, hobserver, -⟩ := absorb_spec hu.silent j t
  have hothers : ∀ k, k ≠ j → t.table.philosopher? k = s.table.philosopher? k := fun k hkj =>
    (hturned.others k hkj).trans (hu.others k hkj)
  refine ⟨htable ▸ hturned.linked, by rw [hobserver], htable ▸ hothers, fun k => ?_, ?_⟩
  · rw [htable]
    by_cases hkj : k = j
    · subst hkj
      simp [← hu.present k, hp, hturned.stays hleaves]
    · rw [hothers k hkj]
  · cases hending : t.ending with
    | none => exact .inl (hu.going_absorb hs hstep hending)
    | some result => exact .inr ⟨result, hu.over_absorb hs hstep hending⟩

lemma Going.withClock (hgoing : Going n s i q u) (clock : ℕ) :
    Going n s i q { u with table := u.table.withClock clock } :=
  ⟨hgoing.ended, hgoing.forks, hgoing.call⟩

lemma Over.withClock {result : Except RingError Unit} (hover : Over n s i u result) (clock : ℕ) :
    Over n s i { u with table := u.table.withClock clock } result :=
  ⟨hover.ended, hover.forks, hover.forfeit, hover.resting, hover.cause⟩

lemma Underway.withClock (hu : Underway n s i q u) (clock : ℕ) :
    Underway n s i q { u with table := u.table.withClock clock } := by
  refine ⟨hu.linked.withClock clock, hu.silent, hu.others, hu.present, ?_⟩
  rcases hu.progress with hgoing | ⟨result, hover⟩
  · exact .inl (hgoing.withClock clock)
  · exact .inr ⟨result, hover.withClock clock⟩

/-- **So it does whatever happens.** -/
theorem AtRest.follow (hs : s.AtRest n) (hq : q.isSingle = true) (moments : List Moment) :
    Underway n s i q ((s.asked i q).follow moments) :=
  follow_induction (hs.underway hq) (fun _ _ _ hu hstep => hu.absorb hs hstep)
    (fun _ clock hu => hu.withClock clock) moments

/-! ### The last turns of a call -/

lemma Underway.poll (hs : s.AtRest n) (hu : Underway n s i q u) (fuel : ℕ) :
    Underway n s i q (poll fuel u i).1 := by
  induction fuel generalizing u with
  | zero => exact hu
  | succ fuel ih =>
    cases hstep : u.table.step i with
    | none =>
      simp only [Session.poll, hstep]
      exact hu
    | some t =>
      simp only [Session.poll, hstep]
      exact ih (hu.absorb hs hstep)

/-- A turn that does not end a call leaves a shorter agenda, once the call has begun. -/
lemma Underway.shorter (hs : s.AtRest n) (hu : Underway n s i q u)
    (hstep : u.table.step i = some t) {p' : Philosopher} {call' : Call}
    (hp' : (u.absorb i t).table.philosopher? i = some p') (hcall' : p'.call = some call') :
    ∃ p call, u.table.philosopher? i = some p ∧ p.call = some call ∧ p'.Stalled call' ∧
      call'.agenda.length ≤ call.agenda.length ∧
      (p.Stalled call → call'.agenda.length < call.agenda.length) := by
  obtain ⟨-, -, p, call, hp, hcall, hrepeats, hleaves, -, hturned⟩ := hu.exists_turned hs hstep
  cases hending : t.ending with
  | none =>
    obtain ⟨p'', call'', hp'', hcall'', -, -, hstalled, hlater⟩ := hturned.going hending
    rw [(absorb_spec hu.silent i t).1] at hp'
    obtain rfl := Option.some.inj (hp''.symm.trans hp')
    obtain rfl := Option.some.inj (hcall''.symm.trans hcall')
    obtain ⟨hsuffix, hshorter⟩ := hlater hrepeats
    exact ⟨p, call, hp, hcall, hstalled, hsuffix.length_le, hshorter⟩
  | some result =>
    have hnone := (hu.over_absorb hs hstep hending).resting p' hp'
    rw [hcall'] at hnone
    cases hnone

/-- A call that has begun comes to its end, or to a place where it has to wait, within as many
turns as it has instructions left. -/
lemma Underway.step_poll_of_stalled (hs : s.AtRest n) (hu : Underway n s i q u) {fuel : ℕ}
    (hfuel : ∀ p call, u.table.philosopher? i = some p → p.call = some call →
      p.Stalled call ∧ call.agenda.length < fuel) :
    (Session.poll fuel u i).1.table.step i = none := by
  induction fuel generalizing u with
  | zero =>
    by_contra hsome
    obtain ⟨t, hstep⟩ := Option.ne_none_iff_exists'.mp hsome
    obtain ⟨-, -, p, call, hp, hcall, -⟩ := hu.exists_turned hs hstep
    exact Nat.not_lt_zero _ (hfuel p call hp hcall).2
  | succ fuel ih =>
    cases hstep : u.table.step i with
    | none =>
      simp only [Session.poll, hstep]
    | some t =>
      simp only [Session.poll, hstep]
      refine ih (hu.absorb hs hstep) fun p' call' hp' hcall' => ?_
      obtain ⟨p, call, hp, hcall, hstalled, -, hshorter⟩ := hu.shorter hs hstep hp' hcall'
      obtain ⟨hbegun, hlength⟩ := hfuel p call hp hcall
      exact ⟨hstalled, by have := hshorter hbegun; omega⟩

/-- **The last turns of a single call** leave it where it has to wait, if it is not over. -/
theorem Underway.step_poll (hs : s.AtRest n) (hq : q.isSingle = true)
    (hu : Underway n s i q u) : (Session.poll burst u i).1.table.step i = none := by
  have hshort : ∀ p call, u.table.philosopher? i = some p → p.call = some call →
      call.agenda.length ≤ 11 := by
    intro p call hp hcall
    rcases hu.progress with hgoing | ⟨result, hover⟩
    · obtain ⟨call', hcall', -, -, p₀, hagenda⟩ := hgoing.call p hp
      obtain rfl := Option.some.inj (hcall.symm.trans hcall')
      exact hagenda.length_le.trans (q.length_agenda_le hq p₀)
    · rw [hover.resting p hp] at hcall
      cases hcall
  have hburst : burst = 15 + 1 := rfl
  rw [hburst, Session.poll]
  cases hstep : u.table.step i with
  | none => exact hstep
  | some t =>
    refine (hu.absorb hs hstep).step_poll_of_stalled hs fun p' call' hp' hcall' => ?_
    obtain ⟨p, call, hp, hcall, hstalled, hlength, -⟩ := hu.shorter hs hstep hp' hcall'
    have hle := hshort p call hp hcall
    exact ⟨hstalled, by omega⟩

/-! ### How a call ends -/

lemma Over.endOf? {result : Except RingError Unit} (hu : Over n s i u result) :
    ∃ clock, u.endOf? i = some ⟨i, clock, .returned result⟩ := by
  obtain ⟨clock, hended⟩ := hu.ended
  exact ⟨clock, by simp [Session.endOf?, hended]⟩

lemma Going.endOf? (hu : Going n s i q u) : u.endOf? i = none := by
  simp [Session.endOf?, hu.ended]

lemma Going.endOf?_cut (hu : Going n s i q u) :
    (u.cut i).endOf? i = some ⟨i, (u.table.hangUp i).clock, .cut⟩ := by
  simp [Session.endOf?, cut, close, hu.ended]

/-- **How a single call ends**: it is over, or it is given up where it has to wait. -/
theorem AtRest.exists_perform (hs : s.AtRest n) (hq : q.isSingle = true) (i limit : ℕ) :
    ∃ moments, let u := (s.asked i q).follow moments
      Underway n s i q u ∧ ((∃ result, Over n s i u result ∧ s.perform i q limit = u) ∨
        Going n s i q u ∧ u.table.step i = none ∧ s.perform i q limit = u.cut i) := by
  obtain ⟨moments, hperform⟩ := s.exists_perform_eq i q limit
  have hv := hs.follow (i := i) hq moments
  rcases hv.progress with hgoing | ⟨result, hover⟩
  · have hu := hv.poll hs burst
    have hstep := hv.step_poll hs hq
    have hpoll := poll_eq_follow burst ((s.asked i q).follow moments) i
    rw [← follow_append] at hpoll
    refine ⟨moments ++ List.replicate burst (.turn i), ?_⟩
    simp only [hgoing.endOf?, Option.isSome_none, Bool.false_eq_true, if_false] at hperform
    rw [hpoll] at hperform hu hstep
    rcases hu.progress with hgoing' | ⟨result, hover⟩
    · refine ⟨hu, .inr ⟨hgoing', hstep, ?_⟩⟩
      simp only [hperform, hgoing'.endOf?, Option.isSome_none, Bool.false_eq_true, if_false]
    · obtain ⟨clock, hend⟩ := hover.endOf?
      refine ⟨hu, .inl ⟨result, hover, ?_⟩⟩
      simp only [hperform, hend, Option.isSome_some, if_true]
  · obtain ⟨clock, hend⟩ := hover.endOf?
    refine ⟨moments, hv, .inl ⟨result, hover, ?_⟩⟩
    simp only [hperform, hend, Option.isSome_some, if_true]

/-- Nobody is busy when a call is over. -/
lemma Underway.atRest (hs : s.AtRest n) (hu : Underway n s i q u)
    {result : Except RingError Unit} (hover : Over n s i u result) : u.AtRest n := by
  refine ⟨hu.linked, hu.silent, fun j p hp => ?_⟩
  by_cases hji : j = i
  · subst hji
    exact hover.resting p hp
  · exact hs.resting j p (hu.others j hji ▸ hp)

/-- Who has given up a call is still at the table. -/
lemma Going.table_cut (hgoing : Going n s i q u) :
    u.table.philosopher? i = none ∧ (u.cut i).table = u.table ∨
      ∃ p call, u.table.philosopher? i = some p ∧ p.call = some call ∧
        (u.cut i).table = u.table.retire i p false := by
  cases hp : u.table.philosopher? i with
  | none => exact .inl ⟨rfl, by simp only [cut, close, Table.hangUp, hp]⟩
  | some p =>
    obtain ⟨call, hcall, -, hleaves, -⟩ := hgoing.call p hp
    refine .inr ⟨p, call, rfl, hcall, ?_⟩
    rw [← hleaves, ← Table.hangUp_eq hp hcall]
    rfl

/-- Nobody is busy when a call has been given up, and nobody has left. -/
lemma Underway.atRest_cut (hs : s.AtRest n) (hu : Underway n s i q u)
    (hgoing : Going n s i q u) : (u.cut i).AtRest n ∧
      ∀ j, (u.cut i).table.philosopher? j = none ↔ s.table.philosopher? j = none := by
  have hothers : ∀ j p, j ≠ i → u.table.philosopher? j = some p → p.call = none := fun j p hji hp =>
    hs.resting j p (hu.others j hji ▸ hp)
  rcases hgoing.table_cut with ⟨hnone, htable⟩ | ⟨p, call, hp, hcall, htable⟩
  · refine ⟨⟨htable ▸ hu.linked, hu.silent, fun j p hp => ?_⟩, fun j => htable ▸ hu.present j⟩
    rw [htable] at hp
    refine hothers j p ?_ hp
    rintro rfl
    rw [hnone] at hp
    cases hp
  · refine ⟨⟨?_, hu.silent, fun j p' hp' => ?_⟩, fun j => ?_⟩
    · rw [htable]
      exact hu.linked.retire hp (hu.linked.wiring i p hp)
    · rw [htable] at hp'
      by_cases hji : j = i
      · subst hji
        rw [Table.philosopher?_retire_self hp] at hp'
        obtain rfl := Option.some.inj hp'
        rfl
      · rw [Table.philosopher?_retire_ne hji] at hp'
        exact hothers j p' hji hp'
    · rw [htable, ← hu.present j]
      by_cases hji : j = i
      · subst hji
        rw [Table.philosopher?_retire_self hp, hp]
        simp
      · rw [Table.philosopher?_retire_ne hji]

/-- **A call leaves nobody busy**, and everybody at the table who was there. -/
theorem AtRest.perform (hs : s.AtRest n) (hq : q.isSingle = true) (i limit : ℕ) :
    (s.perform i q limit).AtRest n ∧
      ∀ j, (s.perform i q limit).table.philosopher? j = none ↔ s.table.philosopher? j = none := by
  obtain ⟨moments, hu, ⟨result, hover, hperform⟩ | ⟨hgoing, -, hperform⟩⟩ :=
    hs.exists_perform hq i limit
  · rw [hperform]
    exact ⟨hu.atRest hs hover, hu.present⟩
  · rw [hperform]
    exact hu.atRest_cut hs hgoing

/-- Neither does a philosopher who is dropped leave anybody busy. -/
lemma AtRest.drop (hs : s.AtRest n) (i : ℕ) : (s.drop i).AtRest n := by
  refine ⟨hs.linked.drop i, hs.silent, fun j p hp => ?_⟩
  have hp : (s.table.drop i).philosopher? j = some p := hp
  rw [Table.philosopher?_drop] at hp
  split_ifs at hp
  exact hs.resting j p hp

/-- **Nobody is busy after any errands.** -/
theorem AtRest.carryOutAll (hs : s.AtRest n) {errands : List Errand}
    (hsingle : ∀ e ∈ errands, e.isSingle = true) : (s.carryOutAll errands).AtRest n := by
  induction errands generalizing s with
  | nil => exact hs
  | cons e errands ih =>
    obtain ⟨he, hrest⟩ := List.forall_mem_cons.mp hsingle
    refine ih (s := s.carryOut e) ?_ hrest
    cases e with
    | ask seat request limit => exact (hs.perform he seat limit).1
    | drop seat => exact hs.drop seat

end Session

/-- Nobody is busy at a table that has just been laid. -/
lemma Ring.atRest_laid {r : Ring} {pacing : Pacing} {l : Lanes} (hl : r.Preloaded r.seats l)
    (sink : Sink) : (Session.begin (r.laid pacing l) ⟨sink, none⟩).AtRest r.seats := by
  refine ⟨Ring.linked_laid hl, rfl, fun i p hp => ?_⟩
  obtain rfl := Ring.eq_sit_of_laid hp
  rfl

end DiningRing
