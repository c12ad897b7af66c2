/-
# Working through an agenda

A live diner goes through its round without a halt until it has to wait: for the clock, for a
fork that it lacks, or for room to hand one back.  `Philosopher.Rests` lists these places with
what the diner then has in its hands, and `Philosopher.Settles` says of a piece of work that
it leads to one of them.

Between two places a diner acts alone: it may start to wait, start to eat and stop eating, for
which it needs nobody (`Diner.Alone`), and it announces just these actions.  So the diner that
others see, with lifted forks counted as held, moves as a diner of the step model does.  The
lemmas go through the round from its end to its beginning, each one instruction further from
the next place of rest.
-/
import DiningRing.Live.Philosopher
import DiningRing.Proofs.State
import DiningRing.Simulation

namespace DiningRing

/-! ### Acting alone -/

namespace Diner

variable {d e f : Diner} {a : Action} {as bs : List Action}

/-- A diner is about to perform an action for which it needs nobody. -/
inductive Willing (d : Diner) : Action → Prop where
  | startWaiting (phase : d.phase = .idle) : Willing d .startWaiting
  | eat (phase : d.phase = .waiting) (both : d.hands.both = true) : Willing d .eat
  | finish (phase : d.phase = .eating) : Willing d .finish

lemma Willing.not_transfers (h : d.Willing a) : a.transfers = false := by
  cases h <;> rfl

/-- Actions for which nobody is needed lead from one diner to another. -/
inductive Alone : Diner → List Action → Diner → Prop where
  | rest (d : Diner) : Alone d [] d
  | act {d e : Diner} {a : Action} {as : List Action} (willing : d.Willing a)
      (later : Alone (d.after a) as e) : Alone d (a :: as) e

end Diner

/-- The time that a diner lets pass before an action. -/
def Action.pause (pacing : Pacing) : Action → ℕ
  | .startWaiting => pacing.think
  | .finish => pacing.eat
  | .take _ | .eat | .give _ => 0

/-! ### What is heard of a diner -/

/-- The event of a notice. -/
def Notice.event? : Notice → Option Event
  | .event e => some e
  | .seated .. => none

/-- The events among some notices. -/
def heard (notices : List Notice) : List Event := notices.filterMap Notice.event?

lemma heard_append (ns ms : List Notice) : heard (ns ++ ms) = heard ns ++ heard ms :=
  List.filterMap_append

/-! ### What is seen of a diner -/

/-- The forks of two pairs of hands. -/
def Hands.join (h k : Hands) : Hands := ⟨h.left || k.left, h.right || k.right⟩

@[simp] lemma Hands.join_empty (h : Hands) : h.join .empty = h := by
  simp [join, empty]

@[simp] lemma Hands.empty_join (h : Hands) : Hands.empty.join h = h := by
  simp [join, empty]

lemma Hands.holds_join (h k : Hands) (side : Side) :
    (h.join k).holds side = (h.holds side || k.holds side) := by
  cases side <;> rfl

lemma Hands.eq_full_of_both {h : Hands} (hb : h.both = true) : h = .full := by
  obtain ⟨l, r⟩ := h
  simp only [both, Bool.and_eq_true] at hb
  rw [full, hb.1, hb.2]

lemma Hands.both_of_holds {h : Hands} {side : Side} (hside : h.holds side = true)
    (hopposite : h.holds side.opposite = true) : h.both = true := by
  cases side <;> simp_all [holds, both, Side.opposite]

lemma Hands.both_set_opposite {h : Hands} {side : Side} (hside : h.holds side = true) :
    (h.set side.opposite true).both = true := by
  have hkept : (h.set side.opposite true).holds side = true := by
    simp [side.opposite_ne, hside]
  exact both_of_holds hkept (by simp)

/-- A philosopher as others see it: the forks that it has lifted count as held. -/
def Philosopher.seen (p : Philosopher) (lifted : Hands) : Diner :=
  ⟨p.diner.phase, p.hands.join lifted⟩

@[simp] lemma Philosopher.seen_empty (p : Philosopher) : p.seen .empty = p.diner := by
  simp [seen, hands]

/-! ### The parts of a round -/

namespace Instr

/-- Hands back both forks that are lifted. -/
def handBack : List Instr := [.give .left, .give .right, .enter .idle]

/-- What follows a meal. -/
def close : List Instr := .enter .releasing :: .lift :: handBack

/-- A meal and what follows it. -/
def dine (pacing : Pacing) : List Instr := .serve :: .pause pacing.eat :: close

/-- The taking of both forks and what follows it. -/
def reach (pacing : Pacing) (o : Order) : List Instr :=
  .acquire o.first :: .acquire o.first.opposite :: dine pacing

end Instr

namespace Philosopher

open Instr

variable {p q : Philosopher} {d : Diner} {lifted : Hands} {w : Work} {agenda : List Instr}
  {call : Call} {a : Action} {slept : Option Action}

/-! ### Places of rest -/

/-- The places of a round at which a diner has to wait, with the forks that it has lifted. -/
inductive Rests (p : Philosopher) : Hands → List Instr → Prop where
  | thinking (phase : p.diner.phase = .idle) :
      Rests p .empty (.pause p.pacing.think :: .enter .waiting :: reach p.pacing p.order)
  | reachingFirst (phase : p.diner.phase = .waiting)
      (lacks : p.hands.holds p.order.first = false) :
      Rests p .empty (reach p.pacing p.order)
  | reachingSecond (phase : p.diner.phase = .waiting)
      (holds : p.hands.holds p.order.first = true)
      (lacks : p.hands.holds p.order.first.opposite = false) :
      Rests p .empty (.acquire p.order.first.opposite :: dine p.pacing)
  | eating (phase : p.diner.phase = .eating) (both : p.hands.both = true) :
      Rests p .empty (.pause p.pacing.eat :: close)
  | givingLeft (diner : p.diner = ⟨.releasing, .empty⟩) : Rests p .full handBack
  | givingRight (diner : p.diner = ⟨.releasing, .empty⟩) :
      Rests p ⟨false, true⟩ [.give .right, .enter .idle]

/-- Work of a philosopher, seen as `d` before it, leads to a place of rest: meanwhile it acts
alone, and what it announces are these actions. -/
structure Settled (p : Philosopher) (d : Diner) (w : Work) (as : List Action)
    (rest : List Instr) : Prop where
  stop : w.stop = .waiting rest
  wiring : w.philosopher.wiring = p.wiring
  order : w.philosopher.order = p.order
  pacing : w.philosopher.pacing = p.pacing
  rests : w.philosopher.Rests w.lifted rest
  alone : d.Alone as (w.philosopher.seen w.lifted)
  heard : heard w.notices = as.filterMap (Simulation.eventOf? p.seat)

/-- Work of a philosopher, seen as `d` before it, leads to some place of rest.  If the
philosopher has `slept`, it has been for the first action; it does not pause for the others. -/
def Settles (p : Philosopher) (slept : Option Action) (d : Diner) (w : Work) : Prop :=
  ∃ as rest, (∀ a ∈ as, a.pause p.pacing = 0) ∧ p.Settled d w (slept.toList ++ as) rest

lemma settles_of_rests (hp : p.Rests lifted agenda) :
    p.Settles none (p.seen lifted) ⟨p, lifted, [], .waiting agenda⟩ :=
  ⟨[], agenda, by simp, rfl, rfl, rfl, rfl, hp, .rest _, rfl⟩

lemma Settles.congr (hq : q.Settles slept d w) (hwiring : q.wiring = p.wiring)
    (horder : q.order = p.order) (hpacing : q.pacing = p.pacing) : p.Settles slept d w := by
  obtain ⟨as, rest, hswift, h⟩ := hq
  have hheard := h.heard
  rw [seat, hwiring] at hheard
  exact ⟨as, rest, hpacing ▸ hswift, h.stop, h.wiring.trans hwiring, h.order.trans horder,
    h.pacing.trans hpacing, h.rests, h.alone, hheard⟩

/-- Work that begins with an action for which nobody is needed. -/
lemma Settles.act {notices : List Notice} (hq : q.Settles none (d.after a) w)
    (hwiring : q.wiring = p.wiring) (horder : q.order = p.order) (hpacing : q.pacing = p.pacing)
    (hd : d.Willing a)
    (hnotices : DiningRing.heard notices = (Simulation.eventOf? p.seat a).toList) :
    p.Settles (some a) d (Work.after notices w) := by
  obtain ⟨as, rest, hswift, h⟩ := hq.congr hwiring horder hpacing
  refine ⟨as, rest, hswift, h.stop, h.wiring, h.order, h.pacing, h.rests, .act hd h.alone, ?_⟩
  rw [Work.after, heard_append, hnotices, h.heard]
  cases heq : Simulation.eventOf? p.seat a <;> simp [heq]

/-- An action before which there is no pause. -/
lemma Settles.of_pause_eq_zero (h : p.Settles (some a) d w) (ha : a.pause p.pacing = 0) :
    p.Settles none d w := by
  obtain ⟨as, rest, hswift, h⟩ := h
  refine ⟨a :: as, rest, fun b hb => ?_, h⟩
  rcases List.mem_cons.mp hb with rfl | hb
  · exact ha
  · exact hswift b hb

/-- A pause of no time is passed over, any other one is a place of rest. -/
lemma settles_pause {ticks : ℕ} (hrests : p.Rests .empty (.pause ticks :: agenda))
    (hticks : a.pause p.pacing = ticks)
    (hgo : p.Settles (some a) p.diner (p.work .empty agenda)) :
    p.Settles none p.diner (p.work .empty (.pause ticks :: agenda)) := by
  have hstay := settles_of_rests hrests
  rw [seen_empty] at hstay
  cases ticks with
  | zero =>
    rw [work]
    exact hgo.of_pause_eq_zero hticks
  | succ ticks =>
    rw [work]
    exact hstay

/-- A fork in hand is not waited for. -/
lemma settles_acquire {side : Side}
    (hrests : p.hands.holds side = false → p.Rests .empty (.acquire side :: agenda))
    (hgo : p.hands.holds side = true → p.Settles none p.diner (p.work .empty agenda)) :
    p.Settles none p.diner (p.work .empty (.acquire side :: agenda)) := by
  rw [work]
  split_ifs with hholds
  · exact hgo hholds
  · have hstay := settles_of_rests (hrests (by simpa using hholds))
    rwa [seen_empty] at hstay

/-! ### From the end of a round to its beginning -/

lemma settles_handBack (hp : p.diner = ⟨.releasing, .empty⟩) :
    p.Settles none ⟨.releasing, .full⟩ (p.work .full handBack) := by
  have h := settles_of_rests (.givingLeft hp)
  rwa [seen, hands, hp, Hands.empty_join] at h

lemma settles_giveRight (hp : p.diner = ⟨.releasing, .empty⟩) :
    p.Settles none ⟨.releasing, ⟨false, true⟩⟩
      (p.work ⟨false, true⟩ [.give .right, .enter .idle]) := by
  have h := settles_of_rests (.givingRight hp)
  rwa [seen, hands, hp, Hands.empty_join] at h

/-- Both forks are lifted, and still seen. -/
lemma settles_lift (hp : p.diner.phase = .releasing) (hboth : p.hands.both = true) :
    p.Settles none p.diner (p.work .empty (.lift :: handBack)) := by
  have hlifted : (p.withHands .empty).diner = ⟨.releasing, .empty⟩ := by
    show (⟨p.diner.phase, .empty⟩ : Diner) = _
    rw [hp]
  have hd : p.diner = ⟨.releasing, .full⟩ := by
    rw [← hp, ← Hands.eq_full_of_both hboth]
    rfl
  rw [work, if_pos hboth, hd]
  exact (settles_handBack hlifted).congr rfl rfl rfl

lemma settles_close (hp : p.diner.phase = .eating) (hboth : p.hands.both = true) :
    p.Settles (some .finish) p.diner (p.work .empty close) := by
  have hq : (p.withPhase .releasing).Settles none (p.withPhase .releasing).diner _ :=
    settles_lift rfl hboth
  rw [close, work]
  refine Settles.act (a := .finish) hq rfl rfl rfl (.finish hp) ?_
  rw [announcement, hp]
  rfl

lemma settles_pauseEat (hp : p.diner.phase = .eating) (hboth : p.hands.both = true) :
    p.Settles none p.diner (p.work .empty (.pause p.pacing.eat :: close)) :=
  settles_pause (.eating hp hboth) rfl (settles_close hp hboth)

lemma settles_dine (hp : p.diner.phase = .waiting) (hboth : p.hands.both = true) :
    p.Settles none p.diner (p.work .empty (dine p.pacing)) := by
  have hq : p.served.Settles none p.served.diner _ := settles_pauseEat rfl hboth
  rw [dine, work, if_pos hboth]
  refine Settles.of_pause_eq_zero (Settles.act (a := .eat) hq rfl rfl rfl (.eat hp hboth) ?_) rfl
  rw [announcement, hp]
  rfl

lemma settles_second (hp : p.diner.phase = .waiting)
    (hfirst : p.hands.holds p.order.first = true) :
    p.Settles none p.diner (p.work .empty (.acquire p.order.first.opposite :: dine p.pacing)) :=
  settles_acquire (.reachingSecond hp hfirst)
    fun hsecond => settles_dine hp (Hands.both_of_holds hfirst hsecond)

lemma settles_reach (hp : p.diner.phase = .waiting) :
    p.Settles none p.diner (p.work .empty (reach p.pacing p.order)) :=
  settles_acquire (.reachingFirst hp) (settles_second hp)

lemma settles_enterWaiting (hp : p.diner.phase = .idle) :
    p.Settles (some .startWaiting) p.diner
      (p.work .empty (.enter .waiting :: reach p.pacing p.order)) := by
  have hq : (p.withPhase .waiting).Settles none (p.withPhase .waiting).diner _ :=
    settles_reach rfl
  rw [work]
  refine Settles.act (a := .startWaiting) hq rfl rfl rfl (.startWaiting hp) ?_
  rw [announcement, hp]
  rfl

lemma settles_round (hp : p.diner.phase = .idle) :
    p.Settles none p.diner (p.work .empty (round p.pacing p.order)) :=
  settles_pause (.thinking hp) rfl (settles_enterWaiting hp)

/-! ### Calls that repeat -/

/-- Work that comes to rest does not reach the end of its agenda. -/
lemma settles_workOn (h : p.Settles slept d (p.work call.lifted agenda)) :
    p.Settles slept d (p.workOn call agenda) := by
  obtain ⟨as, rest, hswift, h⟩ := h
  have hwork : p.workOn call agenda = p.work call.lifted agenda := by
    simp only [workOn, h.stop]
  rw [hwork]
  exact ⟨as, rest, hswift, h⟩

/-- At the end of a round comes another one.  Whoever has handed back both forks is idle from
then on. -/
lemma settles_again (hrepeats : call.repeats = true) (hlifted : call.lifted = .empty)
    (hp : p.diner = ⟨.releasing, .empty⟩) :
    p.Settles none ⟨.idle, .empty⟩ (p.workOn call [.enter .idle]) := by
  have hq : (p.withPhase .idle).Settles none (p.withPhase .idle).diner _ := settles_round rfl
  have hidle : (p.withPhase .idle).diner = ⟨.idle, .empty⟩ := by
    rw [withPhase, hp]
  have hquiet : p.announcement .idle = [] := by
    rw [announcement, hp]
    rfl
  -- nobody is told that a diner is idle again
  have hwork : p.workOn call [.enter .idle]
      = (p.withPhase .idle).work .empty (round p.pacing p.order) := by
    simp [workOn, work, Work.after, hrepeats, hlifted, hquiet, withPhase]
  rw [hwork, ← hidle]
  exact hq.congr rfl rfl rfl

/-- Whoever has been set to work says so and begins a round. -/
lemma settles_greet (hlifted : call.lifted = .empty) (hp : p.diner.phase = .idle) :
    p.Settles none p.diner (p.workOn call (.greet :: round p.pacing p.order)) := by
  refine settles_workOn ?_
  obtain ⟨as, rest, hswift, h⟩ := settles_round hp
  rw [hlifted, work]
  exact ⟨as, rest, hswift, h.stop, h.wiring, h.order, h.pacing, h.rests, h.alone, h.heard⟩

end Philosopher

end DiningRing
