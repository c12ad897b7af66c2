/-
# Cancelled calls

A call that is given up loses the forks that are lifted at that moment, and no others.  At a table
that nobody has left none are: a fork that is lifted can be handed back at once, since it is the
only one of its edge and the lane is empty, so that a call is only ever given up in a sleep or
while it waits for a fork to arrive.  So single calls, one after another and each given up at
any limit, leave every edge its one fork (`Session.Intact.perform`), and handing back both forks
always comes to an end.
-/
import DiningRing.Proofs.Live.Errands

namespace DiningRing

namespace Session

variable {n i j : ℕ} {s u : Session} {q : Request}

/-- A table that nobody has left and at which nobody is busy, with one fork on each edge. -/
structure Intact (n : ℕ) (s : Session) : Prop where
  atRest : s.AtRest n
  present : ∀ i < n, s.table.philosopher? i ≠ none
  forks : ∀ e < n, s.table.view.forksOn n e = 1

/-- Such a table is in a sound state if nobody is handing back, and whoever is eating has both
forks in hand. -/
lemma Intact.sound (hs : s.Intact n) (hcalm : ∀ i p, s.table.philosopher? i = some p →
    p.diner.phase ≠ .releasing ∧ (p.diner.phase = .eating → p.hands.both = true)) :
    s.table.view.Sound n := by
  have hdiner : ∀ i < n, ∃ p, s.table.philosopher? i = some p ∧
      s.table.view.diner i = p.diner := by
    intro i hi
    obtain ⟨p, hp⟩ := Option.ne_none_iff_exists'.mp (hs.present i hi)
    refine ⟨p, hp, ?_⟩
    rw [Table.diner_view hp, Philosopher.shown, Philosopher.lifted, hs.atRest.resting i p hp]
    exact p.seen_empty
  refine ⟨hs.atRest.linked.fits, hs.forks, fun i hi heating => ?_, fun i hi hreleasing => ?_⟩
  · obtain ⟨p, hp, hview⟩ := hdiner i hi
    rw [hview] at heating ⊢
    exact (hcalm i p hp).2 heating
  · obtain ⟨p, hp, hview⟩ := hdiner i hi
    rw [hview] at hreleasing
    exact absurd hreleasing (hcalm i p hp).1

/-- Nobody leaves during a call. -/
lemma Intact.seated (hs : s.Intact n) (hu : Underway n s i q u) :
    ∀ j < n, u.table.philosopher? j ≠ none :=
  fun j hj hnone => hs.present j hj ((hu.present j).mp hnone)

lemma Intact.joined (hs : s.Intact n) (hu : Underway n s i q u) {e : ℕ} (he : e < n) :
    u.table.Joined n e :=
  (hu.joined e).mpr ⟨hs.present e he, hs.present _ (Seat.next_lt he)⟩

/-- **A fork that has been lifted can be handed back at once**, at any time of a call. -/
lemma Intact.step_isSome_of_give (hs : s.Intact n) (hu : Underway n s i q u)
    (hgoing : Going n s i q u) {p : Philosopher} {call : Call} {side : Side} {rest : List Instr}
    (hp : u.table.philosopher? i = some p) (hcall : p.call = some call)
    (hagenda : call.agenda = .give side :: rest) : (u.table.step i).isSome = true := by
  refine hu.linked.step_isSome_of_give hp hcall hagenda fun hjoined => ?_
  have he := Seat.edge_lt (hu.linked.lt hp) side
  rw [hgoing.forks _ he hjoined, hs.forks _ he]

/-- A call is given up in a sleep or while it waits for a fork, and then no fork is lifted. -/
lemma Intact.of_step_eq_none (hs : s.Intact n) (hu : Underway n s i q u)
    (hgoing : Going n s i q u) (hstep : u.table.step i = none) {p : Philosopher} {call : Call}
    (hp : u.table.philosopher? i = some p) (hcall : p.call = some call) :
    call.lifted = .empty ∧ ∃ instr ∈ call.agenda, instr.keeps = true := by
  have hreturns := (hu.linked.orderly i p call hp hcall).returns
  cases hu.linked.waits hp hcall hstep with
  | sleep hagenda | fork hagenda =>
    rw [hagenda] at hreturns ⊢
    exact ⟨(hreturns.of_keeps rfl).1, _, List.mem_cons_self, rfl⟩
  | room hagenda =>
    have hsome := hs.step_isSome_of_give hu hgoing hp hcall hagenda
    rw [hstep] at hsome
    cases hsome

/-- **A call that is given up loses no fork.** -/
lemma Intact.cut (hs : s.Intact n) (hu : Underway n s i q u) (hgoing : Going n s i q u)
    (hstep : u.table.step i = none) : (u.cut i).Intact n := by
  obtain ⟨hrest, hpresent⟩ := hu.atRest_cut hs.atRest hgoing
  refine ⟨hrest, fun j hj hnone => hs.present j hj ((hpresent j).mp hnone), fun e he => ?_⟩
  have hforks := hgoing.forks e he (hs.joined hu he)
  rw [hs.forks e he] at hforks
  rcases hgoing.table_cut with ⟨-, htable⟩ | ⟨p, call, hp, hcall, htable⟩
  · rw [htable, hforks]
  · have hlifted := (hs.of_step_eq_none hu hgoing hstep hp hcall).1
    rw [htable, Table.view_retire hp hcall hlifted, hforks]

/-- Handing back both forks is not given up. -/
lemma Intact.ne_release (hs : s.Intact n) (hi : i < n) (hu : Underway n s i q u)
    (hgoing : Going n s i q u) (hstep : u.table.step i = none) : q ≠ .release := by
  rintro rfl
  obtain ⟨p, hp⟩ := Option.ne_none_iff_exists'.mp (hs.seated hu i hi)
  obtain ⟨call, hcall, -, -, p₀, hsuffix⟩ := hgoing.call p hp
  obtain ⟨-, instr, hmem, hkeeps⟩ := hs.of_step_eq_none hu hgoing hstep hp hcall
  have hrelease : ∀ instr ∈ Instr.release, instr.keeps = false := by decide
  rw [hrelease instr (hsuffix.subset hmem)] at hkeeps
  cases hkeeps

/-- **A single call leaves every edge its one fork**, whatever its limit.  It does not find that a
neighbour is gone, and handing back both forks comes to an end. -/
theorem Intact.perform (hs : s.Intact n) (hi : i < n) (hq : q.isSingle = true) (limit : ℕ) :
    (s.perform i q limit).Intact n ∧ ∃ ended, (s.perform i q limit).endOf? i = some ended ∧
      (∀ e, ended.ending = .returned (.error e) → e.LacksForks i) ∧
      (q = .release → ended.ending ≠ .cut) := by
  obtain ⟨moments, hu, ⟨result, hover, hperform⟩ | ⟨hgoing, hstep, hperform⟩⟩ :=
    hs.atRest.exists_perform hq i limit
  · have hcause : ∀ e, result = .error e → e.LacksForks i := by
      intro e he
      cases hover.cause e he with
      | lacks hlacks => exact hlacks
      | endOfStream side hgone => exact absurd hgone (hs.present _ (Slot.neighbor_lt hi side))
      | channelClosed side hgone => exact absurd hgone (hs.present _ (Slot.neighbor_lt hi side))
    obtain ⟨clock, hend⟩ := hover.endOf?
    rw [hperform]
    refine ⟨⟨hu.atRest hs.atRest hover, hs.seated hu, fun e he => ?_⟩, _, hend,
      fun e he => hcause e ?_, fun _ h => by cases h⟩
    · rw [hover.forks e he (hs.joined hu he), hs.forks e he]
      rintro ⟨hclosed, -⟩
      cases hcause _ hclosed
    · injection he
  · rw [hperform]
    refine ⟨hs.cut hu hgoing hstep, _, hgoing.endOf?_cut, fun e he => (by cases he), fun h => ?_⟩
    exact absurd h (hs.ne_release hi hu hgoing hstep)

/-- **So do single calls one after another.** -/
theorem Intact.carryOutAll (hs : s.Intact n) {errands : List Errand}
    (hcalls : ∀ e ∈ errands, ∃ seat < n, ∃ request : Request, ∃ limit,
      request.isSingle = true ∧ e = .ask seat request limit) :
    (s.carryOutAll errands).Intact n := by
  induction errands generalizing s with
  | nil => exact hs
  | cons e errands ih =>
    obtain ⟨⟨seat, hseat, request, limit, hsingle, rfl⟩, hrest⟩ := List.forall_mem_cons.mp hcalls
    exact ih (hs.perform hseat hsingle limit).1 hrest

end Session

lemma Ring.intact_laid {r : Ring} {pacing : Pacing} {l : Lanes} (hn : 2 ≤ r.seats)
    (hl : r.Preloaded r.seats l) (sink : Sink) :
    (Session.begin (r.laid pacing l) ⟨sink, none⟩).Intact r.seats := by
  refine ⟨Ring.atRest_laid hl sink, fun i hi => ?_, fun e he => ?_⟩
  · show (r.laid pacing l).philosopher? i ≠ none
    rw [Ring.philosopher?_laid hi]
    exact Option.some_ne_none _
  · show (r.laid pacing l).view.forksOn r.seats e = 1
    rw [Ring.view_laid hl]
    exact (Ring.sound_initial hn).oneFork e he

end DiningRing
