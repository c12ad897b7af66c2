/-
# What diners tell of themselves who are cut off

A diner whose round has been given up begins its next one in the phase in which it is.  It waits
again, and nobody hears of it if it did so before or if it was eating; the forks in its hands stay
there; and whoever was eating is served once more, and says so, before it has finished.  So what a
diner tells runs through sittings, which have one meal or more (`Trace.sittings`), where otherwise
it would run through rounds.

A round can begin in any phase but that of handing back, and from there it goes from phase to phase
(`Instr.Proceeds`).  Working through it, up to any place where the diner has to wait or fails, keeps
what it has told in step with its phase, its hands and its meals (`Philosopher.reports_work`).
-/
import DiningRing.Proofs.Announcements
import DiningRing.Proofs.Live.Agenda

namespace DiningRing

/-! ### Sittings -/

namespace Trace

/-- The transitions of some sittings.  Each number says how many meals a sitting has after its first
one. -/
def sittings (more : List ℕ) : List Transition :=
  more.flatMap fun m => .waiting :: (List.replicate (m + 1) .eating ++ [.finished])

lemma sittings_singleton (m : ℕ) :
    sittings [m] = .waiting :: (List.replicate (m + 1) .eating ++ [.finished]) :=
  List.flatMap_singleton _ _

lemma sittings_append (more later : List ℕ) :
    sittings (more ++ later) = sittings more ++ sittings later :=
  List.flatMap_append

end Trace

namespace Phase

/-- What a diner in a phase has told of the sitting in which it is. -/
inductive Sitting : Phase → List Transition → Prop where
  | idle : Sitting .idle []
  | waiting (m : ℕ) : Sitting .waiting (.waiting :: List.replicate m .eating)
  | eating (m : ℕ) : Sitting .eating (.waiting :: List.replicate (m + 1) .eating)
  | releasing : Sitting .releasing []

variable {phase : Phase} {told : List Transition}

/-- It is the beginning of a sitting. -/
lemma Sitting.isPrefix (h : phase.Sitting told) : ∃ m, told <+: Trace.sittings [m] := by
  cases h with
  | idle | releasing => exact ⟨0, List.nil_prefix⟩
  | waiting m =>
    refine ⟨m, ?_⟩
    rw [Trace.sittings_singleton, List.replicate_succ', List.append_assoc, ← List.cons_append]
    exact List.prefix_append _ _
  | eating m =>
    refine ⟨m, ?_⟩
    rw [Trace.sittings_singleton, ← List.cons_append]
    exact List.prefix_append _ _

/-- Whoever begins to wait is in a sitting, in the one in which it was if there was one. -/
lemma Sitting.wait (h : phase.Sitting told) (hcalm : phase ≠ .releasing) :
    Phase.waiting.Sitting (told ++ (Transition.between? phase .waiting).toList) := by
  cases h with
  | idle => exact .waiting 0
  | waiting m =>
    rw [show (Transition.between? .waiting .waiting).toList = [] from rfl, List.append_nil]
    exact .waiting m
  | eating m =>
    rw [show (Transition.between? .eating .waiting).toList = [] from rfl, List.append_nil]
    exact .waiting (m + 1)
  | releasing => exact absurd rfl hcalm

lemma Sitting.eat (h : Phase.waiting.Sitting told) : Phase.eating.Sitting (told ++ [.eating]) := by
  cases h with
  | waiting m =>
    rw [List.cons_append, ← List.replicate_succ']
    exact .eating m

lemma Sitting.finish (h : Phase.eating.Sitting told) :
    ∃ m, told ++ [.finished] = Trace.sittings [m] := by
  cases h with
  | eating m => exact ⟨m, by rw [Trace.sittings_singleton, List.cons_append]⟩

end Phase

/-! ### Agendas that go from phase to phase -/

/-- An agenda that goes on from a phase: the diner may start to wait anywhere but while it hands
back, what it does next has its place in a round, and it does not come to its end while it hands
back. -/
inductive Instr.Proceeds : Phase → List Instr → Prop where
  | done {phase : Phase} (calm : phase ≠ .releasing) : Proceeds phase []
  | pause {phase : Phase} {ticks : ℕ} {rest : List Instr} (calm : phase ≠ .releasing)
      (later : Proceeds phase rest) : Proceeds phase (.pause ticks :: rest)
  | wait {phase : Phase} {rest : List Instr} (calm : phase ≠ .releasing)
      (later : Proceeds .waiting rest) : Proceeds phase (.enter .waiting :: rest)
  | acquire {side : Side} {rest : List Instr} (later : Proceeds .waiting rest) :
      Proceeds .waiting (.acquire side :: rest)
  | serve {rest : List Instr} (later : Proceeds .eating rest) : Proceeds .waiting (.serve :: rest)
  | finish {rest : List Instr} (later : Proceeds .releasing rest) :
      Proceeds .eating (.enter .releasing :: .lift :: rest)
  | give {side : Side} {rest : List Instr} (later : Proceeds .releasing rest) :
      Proceeds .releasing (.give side :: rest)
  | idle {rest : List Instr} (later : Proceeds .idle rest) :
      Proceeds .releasing (.enter .idle :: rest)

namespace Instr.Proceeds

variable {phase : Phase} {rest : List Instr} {side : Side} {ticks : ℕ}

lemma calm (h : Proceeds phase []) : phase ≠ .releasing := by
  cases h
  assumption

lemma of_pause (h : Proceeds phase (.pause ticks :: rest)) :
    phase ≠ .releasing ∧ Proceeds phase rest := by
  cases h with
  | pause hcalm hlater => exact ⟨hcalm, hlater⟩

lemma of_acquire (h : Proceeds phase (.acquire side :: rest)) :
    phase = .waiting ∧ Proceeds phase rest := by
  cases h with
  | acquire hlater => exact ⟨rfl, hlater⟩

lemma of_give (h : Proceeds phase (.give side :: rest)) :
    phase = .releasing ∧ Proceeds phase rest := by
  cases h with
  | give hlater => exact ⟨rfl, hlater⟩

/-- A round begins in any phase but that of handing back. -/
lemma round (hcalm : phase ≠ .releasing) (pacing : Pacing) (o : Order) :
    Proceeds phase (Instr.round pacing o) :=
  .pause hcalm (.wait hcalm (.acquire (.acquire (.serve (.pause (by decide) (.finish
    (.give (.give (.idle (.done (by decide)))))))))))

end Instr.Proceeds

/-- The instructions that are left when work comes to a stop. -/
def Stop.rest : Stop → List Instr
  | .waiting rest => rest
  | .ended | .failed _ => []

namespace Philosopher

variable {p q : Philosopher} {phase : Phase} {said : List Transition} {agenda : List Instr}
  {notices : List Notice} {w : Work} {call : Call}

/-- What a diner has said fits to it: it has counted the meals of which it has told, it is as far in
its sitting as its phase says, and it has both forks in hand if it is eating. -/
structure Told (p : Philosopher) (said : List Transition) : Prop where
  meals : said.count .eating = p.meals
  sittings : ∃ more told, said = Trace.sittings more ++ told ∧ p.diner.phase.Sitting told
  both : p.diner.phase = .eating → p.hands.both = true

/-- What a diner has said is the beginning of some sittings. -/
lemma Told.isPrefix (h : p.Told said) : ∃ more, said <+: Trace.sittings more := by
  obtain ⟨more, told, rfl, hsitting⟩ := h.sittings
  obtain ⟨m, hprefix⟩ := hsitting.isPrefix
  refine ⟨more ++ [m], ?_⟩
  rw [Trace.sittings_append]
  exact (List.prefix_append_right_inj _).mpr hprefix

/-! ### From phase to phase -/

lemma ofSeat_announcement (p : Philosopher) (phase : Phase) :
    Trace.ofSeat p.seat (heard (p.announcement phase))
      = (Transition.between? p.diner.phase phase).toList := by
  unfold announcement
  split
  next t ht => simp [heard, Notice.event?, Trace.ofSeat, ht]
  next ht => simp [heard, Trace.ofSeat, ht]

lemma seat_of_announcement {e : Event} (he : e ∈ heard (p.announcement phase)) :
    e.seat = p.seat := by
  unfold announcement at he
  split at he
  · obtain rfl : e = _ := by simpa [heard, Notice.event?] using he
    rfl
  · simp [heard] at he

lemma Told.wait (h : p.Told said) (hcalm : p.diner.phase ≠ .releasing) :
    (p.withPhase .waiting).Told
      (said ++ Trace.ofSeat p.seat (heard (p.announcement .waiting))) := by
  obtain ⟨more, told, hsaid, hsitting⟩ := h.sittings
  rw [ofSeat_announcement]
  refine ⟨?_, ⟨more, _, ?_, hsitting.wait hcalm⟩, fun heating => by cases heating⟩
  · rw [List.count_append, h.meals]
    cases p.diner.phase <;> rfl
  · rw [hsaid, List.append_assoc]

lemma Told.serve (h : p.Told said) (hp : p.diner.phase = .waiting) (hboth : p.hands.both = true) :
    p.served.Told (said ++ Trace.ofSeat p.seat (heard (p.announcement .eating))) := by
  obtain ⟨more, told, hsaid, hsitting⟩ := h.sittings
  rw [ofSeat_announcement, hp]
  rw [hp] at hsitting
  refine ⟨?_, ⟨more, _, ?_, hsitting.eat⟩, fun _ => hboth⟩
  · rw [List.count_append, h.meals]
    rfl
  · rw [hsaid, List.append_assoc]
    rfl

lemma Told.finish (h : p.Told said) (hp : p.diner.phase = .eating) :
    (p.withPhase .releasing).Told
      (said ++ Trace.ofSeat p.seat (heard (p.announcement .releasing))) := by
  obtain ⟨more, told, hsaid, hsitting⟩ := h.sittings
  rw [ofSeat_announcement, hp]
  rw [hp] at hsitting
  obtain ⟨m, hm⟩ := hsitting.finish
  refine ⟨?_, ⟨more ++ [m], [], ?_, .releasing⟩, fun heating => by cases heating⟩
  · rw [List.count_append, h.meals]
    rfl
  · rw [hsaid, List.append_assoc, List.append_nil, Trace.sittings_append, ← hm]
    rfl

lemma Told.idle (h : p.Told said) (hp : p.diner.phase = .releasing) :
    (p.withPhase .idle).Told (said ++ Trace.ofSeat p.seat (heard (p.announcement .idle))) := by
  obtain ⟨more, told, hsaid, hsitting⟩ := h.sittings
  rw [ofSeat_announcement, hp]
  rw [hp] at hsitting
  cases hsitting
  refine ⟨?_, ⟨more, [], ?_, .idle⟩, fun heating => by cases heating⟩
  · rw [List.count_append, h.meals]
    rfl
  · rw [hsaid]
    exact List.append_nil _

/-- Whoever is not eating may have anything in its hands. -/
lemma Told.withHands (h : p.Told said) (hp : p.diner.phase ≠ .eating) (hands : Hands) :
    (p.withHands hands).Told said :=
  ⟨h.meals, h.sittings, fun heating => absurd heating hp⟩

lemma Told.withCall (h : p.Told said) (call? : Option Call) :
    ({ p with call := call? } : Philosopher).Told said :=
  ⟨h.meals, h.sittings, h.both⟩

/-! ### Working through an agenda -/

/-- After some work of a diner who has said something before: what it has said by then fits to it,
all of it is about its own seat, and what is left of its agenda goes on from its phase. -/
structure Reports (p : Philosopher) (said : List Transition) (w : Work) : Prop where
  told : w.philosopher.Told (said ++ Trace.ofSeat p.seat (heard w.notices))
  own : ∀ e ∈ heard w.notices, e.seat = p.seat
  proceeds : Instr.Proceeds w.philosopher.diner.phase w.stop.rest

/-- Work that stops where it begins. -/
lemma Told.reports (h : p.Told said) {stop : Stop}
    (hproceeds : Instr.Proceeds p.diner.phase stop.rest) (lifted : Hands) :
    p.Reports said ⟨p, lifted, [], stop⟩ :=
  ⟨by simpa [heard, Trace.ofSeat] using h, by simp [heard], hproceeds⟩

/-- Work that begins with a step to another phase. -/
lemma Reports.after
    (h : q.Reports (said ++ Trace.ofSeat p.seat (heard (p.announcement phase))) w)
    (hseat : q.seat = p.seat) : p.Reports said (Work.after (p.announcement phase) w) := by
  refine ⟨?_, fun e he => ?_, h.proceeds⟩
  · have htold := h.told
    rw [hseat, List.append_assoc, ← Trace.ofSeat_append, ← heard_append] at htold
    exact htold
  · rw [Work.after, heard_append, List.mem_append] at he
    rcases he with he | he
    · exact seat_of_announcement he
    · exact (h.own e he).trans hseat

/-- **Wherever work comes to a stop, what the diner has said fits to it.**  The induction is on why
the agenda goes on from the phase; the diner changes where it goes to another phase or lifts its
forks. -/
theorem reports_work (hproceeds : Instr.Proceeds phase agenda) (hp : p.diner.phase = phase)
    (htold : p.Told said) (lifted : Hands) : p.Reports said (p.work lifted agenda) := by
  induction hproceeds generalizing p said lifted with
  | done hcalm => exact htold.reports (.done (hp ▸ hcalm)) lifted
  | @pause phase ticks rest hcalm hlater ih =>
    cases ticks with
    | zero => exact ih hp htold lifted
    | succ ticks => exact htold.reports (.pause (hp ▸ hcalm) (hp ▸ hlater)) lifted
  | wait hcalm _ ih =>
    rw [work]
    exact (ih rfl (htold.wait (hp ▸ hcalm)) lifted).after rfl
  | acquire hlater ih =>
    rw [work]
    split_ifs
    · exact ih hp htold lifted
    · exact htold.reports (hp ▸ .acquire hlater) lifted
  | serve _ ih =>
    rw [work]
    split_ifs with hboth
    · exact (ih rfl (htold.serve hp hboth) lifted).after rfl
    · exact htold.reports (.done (by rw [hp]; decide)) lifted
  | finish _ ih =>
    -- whoever is eating has both forks, so that it can lift them
    have hboth : (p.withPhase .releasing).hands.both = true := htold.both hp
    rw [work, work, if_pos hboth]
    have hlift := (htold.finish hp).withHands (by simp [withPhase]) .empty
    have hrest := ih (p := (p.withPhase .releasing).withHands .empty) rfl hlift .full
    exact hrest.after rfl
  | give hlater => exact htold.reports (hp ▸ .give hlater) lifted
  | idle _ ih =>
    rw [work]
    exact (ih rfl (htold.idle hp) lifted).after rfl

/-- So it is with work that does not begin again at the end of its agenda. -/
lemma reports_workOn (hproceeds : Instr.Proceeds p.diner.phase agenda) (htold : p.Told said)
    (honce : call.repeats = false) : p.Reports said (p.workOn call agenda) := by
  have hwork : p.workOn call agenda = p.work call.lifted agenda := by
    unfold workOn
    dsimp only
    rw [if_neg (by simp [honce])]
    split <;> rfl
  rw [hwork]
  exact reports_work hproceeds rfl htold call.lifted

end Philosopher

end DiningRing
