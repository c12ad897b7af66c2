/-
# Lifted forks

Between the moment at which a diner lifts both forks out of its hands and the moment at which
the second one is handed back, the forks are nowhere but in the work under way: whoever gives up
the work then loses them.  `Instr.Returns` says of an agenda that it hands back just the forks
that are lifted, the left one first and at once.  Every request asks for an agenda of this kind,
and working through it leaves one (`Philosopher.kept_work`): wherever a diner has to wait for the
clock or for a fork to arrive, no fork is lifted.

Meanwhile no fork comes or goes.  What others see in the hands of the diner, lifted forks counted
as held, is the same before and after.
-/
import DiningRing.Proofs.Live.AtWork

namespace DiningRing

/-! ### Agendas that hand back what they lift -/

namespace Instr

variable {as bs : List Instr} {lifted : Hands} {instr : Instr}

/-- Whether an instruction has nothing to do with lifted forks. -/
def keeps : Instr → Bool
  | lift | give _ => false
  | pause _ | enter _ | acquire _ | serve | greet => true

/-- An agenda hands back the forks that are lifted, and those that it lifts itself. -/
inductive Returns : Hands → List Instr → Prop where
  | done : Returns .empty []
  | keep {instr : Instr} {rest : List Instr} (keeps : instr.keeps = true)
      (later : Returns .empty rest) : Returns .empty (instr :: rest)
  | lift {rest : List Instr} (later : Returns .full rest) : Returns .empty (.lift :: rest)
  | giveLeft {rest : List Instr} (later : Returns ⟨false, true⟩ rest) :
      Returns .full (.give .left :: rest)
  | giveRight {rest : List Instr} (later : Returns .empty rest) :
      Returns ⟨false, true⟩ (.give .right :: rest)

lemma Returns.append (ha : Returns lifted as) (hb : Returns .empty bs) :
    Returns lifted (as ++ bs) := by
  induction ha with
  | done => exact hb
  | keep hkeeps _ ih => exact .keep hkeeps ih
  | lift _ ih => exact .lift ih
  | giveLeft _ ih => exact .giveLeft ih
  | giveRight _ ih => exact .giveRight ih

lemma returns_round (pacing : Pacing) (o : Order) : Returns .empty (round pacing o) :=
  .keep rfl (.keep rfl (.keep rfl (.keep rfl (.keep rfl (.keep rfl (.keep rfl
    (.lift (.giveLeft (.giveRight (.keep rfl .done))))))))))

/-- Whoever waits for anything else than to hand back a fork has none lifted. -/
lemma Returns.of_keeps (h : Returns lifted (instr :: as)) (hkeeps : instr.keeps = true) :
    lifted = .empty ∧ Returns .empty as := by
  cases h with
  | keep _ hlater => exact ⟨rfl, hlater⟩
  | lift => cases hkeeps
  | giveLeft => cases hkeeps
  | giveRight => cases hkeeps

/-- Whoever is to hand back a fork has it lifted. -/
lemma Returns.holds {side : Side} (h : Returns lifted (.give side :: as)) :
    lifted.holds side = true ∧ Returns (lifted.set side false) as := by
  cases h with
  | keep hkeeps => cases hkeeps
  | giveLeft h => exact ⟨rfl, h⟩
  | giveRight h => exact ⟨rfl, h⟩

lemma Returns.of_giveRight (h : Returns lifted (.give .right :: as)) : lifted = ⟨false, true⟩ := by
  cases h with
  | keep hkeeps => cases hkeeps
  | giveRight => rfl

end Instr

/-- Every request hands back what it lifts. -/
lemma Request.returns_agenda (p : Philosopher) (q : Request) :
    Instr.Returns .empty (q.agenda p) := by
  cases q with
  | cycles count =>
    induction count with
    | zero => exact .done
    | succ count ih =>
      rw [agenda, List.replicate_succ, List.flatten_cons]
      exact (Instr.returns_round _ _).append ih
  | acquire side => exact .keep rfl .done
  | acquireAll => exact .keep rfl (.keep rfl .done)
  | eat => exact .keep rfl (.keep rfl .done)
  | release => exact .lift (.giveLeft (.giveRight .done))
  | run => exact .keep rfl (Instr.returns_round _ _)

/-! ### Working through an agenda -/

/-- What work has come to if it is over. -/
def Stop.result? : Stop → Option (Except RingError Unit)
  | .waiting _ => none
  | .ended => some (.ok ())
  | .failed e => some (.error e)

lemma Stop.result?_eq_none_iff {stop : Stop} :
    stop.result? = none ↔ ∃ rest, stop = .waiting rest := by
  cases stop <;> simp [result?]

/-- The errors of a diner at `seat` who lacks forks. -/
inductive RingError.LacksForks (seat : ℕ) : RingError → Prop where
  | eat (h : Hands) : LacksForks seat (.eatWithoutForks seat h)
  | release (h : Hands) : LacksForks seat (.releaseWithoutForks seat h)

namespace Philosopher

variable {p q : Philosopher} {lifted lifted' : Hands} {agenda rest : List Instr} {w : Work}
  {call : Call}

/-- The instructions at which a diner has to wait: for the clock, for a fork that it lacks, or to
hand one back. -/
inductive Stalls (p : Philosopher) : List Instr → Prop where
  | pause (ticks : ℕ) (rest : List Instr) : Stalls p (.pause (ticks + 1) :: rest)
  | acquire {side : Side} (lacks : p.hands.holds side = false) (rest : List Instr) :
      Stalls p (.acquire side :: rest)
  | give (side : Side) (rest : List Instr) : Stalls p (.give side :: rest)

lemma Stalls.of_hands (h : p.Stalls agenda) (hhands : q.hands = p.hands) : q.Stalls agenda := by
  cases h with
  | pause ticks rest => exact .pause ticks rest
  | acquire hlacks rest => exact .acquire (hhands ▸ hlacks) rest
  | give side rest => exact .give side rest

/-- Where work can come to a stop, with the forks that are lifted then: nobody comes to the end
or fails with a fork lifted. -/
inductive StopsAt (p : Philosopher) (agenda : List Instr) : Hands → Stop → Prop where
  | waiting {lifted : Hands} {rest : List Instr} (stalls : p.Stalls rest)
      (returns : Instr.Returns lifted rest) (later : rest <:+ agenda) :
      StopsAt p agenda lifted (.waiting rest)
  | ended : StopsAt p agenda .empty .ended
  | failed {e : RingError} (lacks : e.LacksForks p.seat) : StopsAt p agenda .empty (.failed e)

/-- Work through an agenda that hands back what it lifts: no fork has come or gone, and none that
is still lifted is left behind. -/
structure Kept (p : Philosopher) (lifted : Hands) (agenda : List Instr) (w : Work) : Prop where
  wiring : w.philosopher.wiring = p.wiring
  order : w.philosopher.order = p.order
  pacing : w.philosopher.pacing = p.pacing
  hands : w.philosopher.hands.join w.lifted = p.hands.join lifted
  /-- Forks are lifted out of both hands. -/
  apart : w.lifted = .empty ∨ w.philosopher.hands = .empty
  stops : w.philosopher.StopsAt agenda w.lifted w.stop

lemma StopsAt.of_suffix {stop : Stop} (h : p.StopsAt rest lifted stop) (hrest : rest <:+ agenda) :
    p.StopsAt agenda lifted stop := by
  cases h with
  | waiting hstalls hreturns hlater => exact .waiting hstalls hreturns (hlater.trans hrest)
  | ended => exact .ended
  | failed hlacks => exact .failed hlacks

lemma StopsAt.waiting_iff : p.StopsAt agenda lifted (.waiting rest) ↔
    p.Stalls rest ∧ Instr.Returns lifted rest ∧ rest <:+ agenda := by
  constructor
  · rintro ⟨hstalls, hreturns, hlater⟩
    exact ⟨hstalls, hreturns, hlater⟩
  · rintro ⟨hstalls, hreturns, hlater⟩
    exact .waiting hstalls hreturns hlater

/-- Work that has come to a result leaves no fork lifted, and fails for lack of forks only. -/
lemma StopsAt.of_result {stop : Stop} {result : Except RingError Unit}
    (h : p.StopsAt agenda lifted stop) (hresult : stop.result? = some result) :
    lifted = .empty ∧ ∀ e, result = .error e → e.LacksForks p.seat := by
  cases h with
  | waiting => cases hresult
  | ended =>
    obtain rfl := Option.some.inj hresult
    exact ⟨rfl, fun e he => by cases he⟩
  | failed hlacks =>
    obtain rfl := Option.some.inj hresult
    refine ⟨rfl, fun e he => ?_⟩
    obtain rfl := Except.error.inj he
    exact hlacks

/-- Work that begins with an instruction by which no fork comes or goes. -/
lemma Kept.after {instr : Instr} (notices : List Notice) (h : q.Kept lifted' agenda w)
    (hwiring : q.wiring = p.wiring) (horder : q.order = p.order) (hpacing : q.pacing = p.pacing)
    (hhands : q.hands.join lifted' = p.hands.join lifted) :
    p.Kept lifted (instr :: agenda) (Work.after notices w) :=
  ⟨h.wiring.trans hwiring, h.order.trans horder, h.pacing.trans hpacing, h.hands.trans hhands,
    h.apart, h.stops.of_suffix (List.suffix_cons _ _)⟩

lemma kept_waiting (hstalls : p.Stalls agenda) (hreturns : Instr.Returns lifted agenda)
    (hapart : lifted = .empty ∨ p.hands = .empty) :
    p.Kept lifted agenda ⟨p, lifted, [], .waiting agenda⟩ :=
  ⟨rfl, rfl, rfl, rfl, hapart, .waiting hstalls hreturns List.suffix_rfl⟩

lemma kept_failed {e : RingError} (hlacks : e.LacksForks p.seat) :
    p.Kept .empty agenda ⟨p, .empty, [], .failed e⟩ :=
  ⟨rfl, rfl, rfl, rfl, .inl rfl, .failed hlacks⟩

/-- **No work without waiting makes or loses a fork.**  The induction is on why the agenda hands
back what it lifts: one case for the instructions that leave lifted forks alone, one for each of
the others. -/
theorem kept_work (hreturns : Instr.Returns lifted agenda)
    (hapart : lifted = .empty ∨ p.hands = .empty) :
    p.Kept lifted agenda (p.work lifted agenda) := by
  induction hreturns generalizing p with
  | done => exact ⟨rfl, rfl, rfl, rfl, .inl rfl, .ended⟩
  | @keep instr rest hkeeps hlater ih =>
    cases instr with
    | pause ticks =>
      cases ticks with
      | zero =>
        rw [work]
        exact Kept.after [] (ih (.inl rfl)) rfl rfl rfl rfl
      | succ ticks =>
        rw [work]
        exact kept_waiting (.pause ticks rest) (.keep hkeeps hlater) (.inl rfl)
    | enter phase =>
      rw [work]
      exact Kept.after _ (ih (p := p.withPhase phase) (.inl rfl)) rfl rfl rfl rfl
    | acquire side =>
      rw [work]
      split_ifs with hholds
      · exact Kept.after [] (ih (.inl rfl)) rfl rfl rfl rfl
      · exact kept_waiting (.acquire (by simpa using hholds) rest) (.keep hkeeps hlater) (.inl rfl)
    | serve =>
      rw [work]
      split_ifs with hboth
      · exact Kept.after _ (ih (p := p.served) (.inl rfl)) rfl rfl rfl rfl
      · exact kept_failed (.eat p.hands)
    | greet =>
      rw [work]
      exact Kept.after _ (ih (.inl rfl)) rfl rfl rfl rfl
    | lift | give side => cases hkeeps
  | @lift rest hlater ih =>
    rw [work]
    split_ifs with hboth
    · -- both forks leave the hands, and both are lifted
      refine Kept.after [] (ih (p := p.withHands .empty) (.inr rfl)) rfl rfl rfl ?_
      show Hands.empty.join .full = p.hands.join .empty
      rw [Hands.eq_full_of_both hboth]
      rfl
    · exact kept_failed (.release p.hands)
  | @giveLeft rest hlater ih =>
    rw [work]
    exact kept_waiting (.give .left rest) (.giveLeft hlater) hapart
  | @giveRight rest hlater ih =>
    rw [work]
    exact kept_waiting (.give .right rest) (.giveRight hlater) hapart

/-! ### Calls under way -/

/-- At its end a call that repeats goes on with another round. -/
lemma kept_workOn (hreturns : Instr.Returns call.lifted agenda)
    (hapart : call.lifted = .empty ∨ p.hands = .empty) :
    ∃ agenda', (call.repeats = false → agenda' = agenda) ∧
      p.Kept call.lifted agenda' (p.workOn call agenda) := by
  have hfirst := kept_work hreturns hapart
  cases hstop : (p.work call.lifted agenda).stop with
  | waiting rest =>
    have hwork : p.workOn call agenda = p.work call.lifted agenda := by simp only [workOn, hstop]
    exact ⟨agenda, fun _ => rfl, hwork ▸ hfirst⟩
  | failed e =>
    have hwork : p.workOn call agenda = p.work call.lifted agenda := by simp only [workOn, hstop]
    exact ⟨agenda, fun _ => rfl, hwork ▸ hfirst⟩
  | ended =>
    cases hrepeats : call.repeats with
    | false =>
      have hwork : p.workOn call agenda = p.work call.lifted agenda := by
        simp [workOn, hstop, hrepeats]
      exact ⟨agenda, fun _ => rfl, hwork ▸ hfirst⟩
    | true =>
      have hempty : (p.work call.lifted agenda).lifted = .empty :=
        (hfirst.stops.of_result (congrArg Stop.result? hstop)).1
      have hagain := kept_work (p := (p.work call.lifted agenda).philosopher)
        (Instr.returns_round p.pacing p.order) (.inl rfl)
      have hwork : p.workOn call agenda = Work.after (p.work call.lifted agenda).notices
          ((p.work call.lifted agenda).philosopher.work .empty
            (Instr.round p.pacing p.order)) := by
        simp [workOn, hstop, hrepeats, hempty]
      refine ⟨Instr.round p.pacing p.order, (fun h => by cases h), ?_⟩
      rw [hwork]
      refine ⟨hagain.wiring.trans hfirst.wiring, hagain.order.trans hfirst.order,
        hagain.pacing.trans hfirst.pacing, ?_, hagain.apart, hagain.stops⟩
      rw [← hfirst.hands, hempty]
      exact hagain.hands

/-- A call that hands back what it has lifted, with a pause at the head of the agenda while the
philosopher sleeps. -/
structure Orderly (p : Philosopher) (call : Call) : Prop where
  returns : Instr.Returns call.lifted call.agenda
  apart : call.lifted = .empty ∨ p.hands = .empty
  wakes : call.wake.isSome = true → Instr.pauses call.agenda = true

/-- Whoever is to hand back the left fork has both lifted and none in hand. -/
lemma Orderly.of_giveLeft (h : p.Orderly call) (hagenda : call.agenda = .give .left :: rest) :
    call.lifted = .full ∧ p.hands = .empty := by
  have hfull : call.lifted = .full := by
    have hreturns := h.returns
    rw [hagenda] at hreturns
    cases hlifted : call.lifted
    rw [hlifted] at hreturns
    cases hreturns with
    | keep hkeeps => cases hkeeps
    | giveLeft => rfl
  refine ⟨hfull, h.apart.resolve_left fun hempty => ?_⟩
  rw [hfull] at hempty
  cases hempty

lemma orderly_call (p q : Philosopher) (request : Request) : p.Orderly (request.call q) :=
  ⟨request.returns_agenda q, .inl rfl, fun h => by cases h⟩

end Philosopher

end DiningRing
