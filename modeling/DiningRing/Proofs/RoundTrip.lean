/-
# Reports and explorations that are read back

What is written of a report or an exploration is read back as the same report or exploration, if
its numbers are words.  The text of the scheduler may be any text.  It does not matter in which
layout the object is written, nor in which order its members and those of the outcome come: the
number of an outcome may stand before the kind that says what it means.  Members of other names are
passed over.

An outcome, a report and an exploration are each taken apart the same way: `part` is what has been
read once the members of some names have been, and each member adds its name.

Main statement: `json_round_trip`.
-/
import DiningRing.Decoding
import DiningRing.Proofs.Json.Reading

namespace DiningRing

open Json (Decoder Reads Takes)

/-! ### Names and options -/

lemma Plan.ofName?_name (p : Plan) : Named.ofName? (Named.name p) = some p := by
  cases p <;> rfl

lemma Plan.reads (p : Plan) : Reads Named.decoder (Named.toJson p) p :=
  Json.reads_readName p.ofName?_name

/-- A value that may be none is read, if it is not written as `null` itself. -/
lemma Json.reads_ofOption {α : Type} {d : Decoder α} {f : α → Json} {o : Option α}
    (hnull : ∀ a, f a ≠ .null) (h : ∀ a ∈ o, Reads d (f a) a) :
    Reads (Json.readOption d) (.ofOption (o.map f)) o := by
  cases o with
  | none => exact Json.reads_readOption_none d
  | some a => exact Json.reads_readOption_some (hnull a) (h a rfl)

lemma Json.reads_numbers {ns : List ℕ} (h : ∀ n ∈ ns, n < Word.modulus) :
    Reads (Json.readList Json.readNat) (.numbers ns) ns :=
  Json.reads_readList fun n hn => Json.reads_readNat (h n hn)

lemma Json.number_ne_null (n : ℕ) : Json.number n ≠ .null := Json.noConfusion

lemma Json.numbers_ne_null (ns : List ℕ) : Json.numbers ns ≠ .null := Json.noConfusion

/-! ### Outcomes -/

namespace Outcome

/-- The number of an outcome that has one is a word. -/
def InWords : Outcome → Prop
  | completed => True
  | deadlocked step | scheduleExhausted step => step < Word.modulus

/-- The kind of an outcome. -/
def kind : Outcome → Kind
  | completed => .completed
  | deadlocked _ => .deadlocked
  | scheduleExhausted _ => .scheduleExhausted

/-- What the reader of an outcome keeps: the kind, once it is known, and the other members, the last
one first. -/
abbrev Draft := Option Kind × List (String × Json)

/-- Reads one member of an outcome. -/
def readMember (depth : ℕ) (key : String) (s : Draft) : Decoder Draft := fun cs =>
  if key = "kind" ∧ s.1.isSome then .error .mismatch
  else
    match Json.colon cs with
    | .error e => .error e
    | .ok cs =>
      if key = "kind" then
        match Kind.decoder cs with
        | .error e => .error e
        | .ok (k, cs) => .ok ((some k, s.2), cs)
      else
        match Json.readValue depth cs with
        | .error e => .error e
        | .ok (v, cs) => .ok ((s.1, (key, v) :: s.2), cs)

lemma membersFrom_eq_foldMembers (depth : ℕ) (room : List Char) (isFirst : Bool) (s : Draft)
    (cs : List Char) :
    membersFrom depth room isFirst s.1 s.2 cs
      = (Json.foldMembers (readMember depth) room isFirst s cs).map fun r =>
          ((r.1.1, r.1.2.reverse), r.2) := by
  induction room generalizing isFirst s cs with
  | nil => rfl
  | cons x room ih =>
    rw [membersFrom, Json.foldMembers]
    cases Json.nextKey isFirst cs with
    | error e => rfl
    | ok next =>
      cases next with
      | none => cases Json.closeObject cs <;> rfl
      | some cs =>
        cases hkey : Json.readString cs with
        | error e => simp [hkey, Except.map]
        | ok r =>
          obtain ⟨key, cs⟩ := r
          simp only [hkey, readMember]
          by_cases htwice : key = "kind" ∧ s.1.isSome
          · simp [htwice, Except.map]
          · rw [if_neg htwice, if_neg htwice]
            cases Json.colon cs with
            | error e => rfl
            | ok cs =>
              by_cases hkind : key = "kind"
              · simp only [hkind, if_true]
                cases Kind.decoder cs with
                | error e => rfl
                | ok r => exact ih false (some r.1, s.2) r.2
              · simp only [hkind, if_false]
                cases Json.readValue depth cs with
                | error e => rfl
                | ok r => exact ih false (s.1, (key, r.1) :: s.2) r.2

lemma takes_kind (depth : ℕ) {name : String} {k : Kind} (h : Kind.ofName? name = some k)
    (read : List (String × Json)) :
    Takes (readMember depth) (none, read) ("kind", .string name) (some k, read) := by
  intro l rest hrest
  have htext := Json.reads_readText name l.inner l.space rest (Json.blank_space l) hrest
  simp [readMember, Json.colon_colon, Kind.decoder, htext, h]

lemma takes_step (depth : ℕ) {n : ℕ} (hn : n < Word.modulus) (s : Draft) :
    Takes (readMember depth) s ("step", .number n) (s.1, ("step", .number n) :: s.2) := by
  intro l rest hrest
  have hvalue :=
    Json.reads_readValue_number depth hn l.inner l.space rest (Json.blank_space l) hrest
  simp [readMember, Json.colon_colon, hvalue]

/-- What has been read of an outcome once the members of some names have been. -/
def part (o : Outcome) (ks : List String) : Draft :=
  (if "kind" ∈ ks then some o.kind else none, if "step" ∈ ks then o.members.tail else [])

lemma takes_part {o : Outcome} (h : o.InWords) (depth : ℕ) :
    ∀ m ∈ o.members, ∀ ks, m.1 ∉ ks →
      Takes (readMember depth) (o.part ks) m (o.part (m.1 :: ks)) := by
  intro m hm ks hks
  cases o with
  | completed =>
    obtain rfl := List.mem_singleton.mp hm
    simpa [part, hks] using takes_kind depth rfl _
  | deadlocked n | scheduleExhausted n =>
    rcases List.mem_pair.mp hm with rfl | rfl
    · simpa [part, hks] using takes_kind depth rfl _
    · simpa [part, hks, members] using takes_step depth h _

lemma nodup_members (o : Outcome) : (o.members.map Prod.fst).Nodup := by
  cases o <;> simp [members]

/-- What is left to do once all members are read. -/
lemma ofMembers?_part {o : Outcome} {ks : List String} (h : ∀ m ∈ o.members, m.1 ∈ ks) :
    (o.part ks).1 = some o.kind ∧ ofMembers? o.kind (o.part ks).2.reverse = some o := by
  cases o with
  | completed =>
    have hkind : "kind" ∈ ks := h _ List.mem_cons_self
    simp [part, hkind, members, ofMembers?, ofStep?, kind]
  | deadlocked n | scheduleExhausted n =>
    have hkind : "kind" ∈ ks := h _ List.mem_cons_self
    have hstep : "step" ∈ ks := h _ (List.mem_cons_of_mem _ List.mem_cons_self)
    simp [part, hkind, hstep, members, ofMembers?, ofStep?, kind, number?, Json.number]

/-- **An outcome is read from its members in any order.** -/
theorem reads {o : Outcome} (h : o.InWords) (depth : ℕ) {ms : List (String × Json)}
    (hms : ms.Perm o.members) : Reads (decoder depth) (.object ms) o := by
  intro l lead rest hlead hrest
  have hall : ms.Perm (o.members ++ []) := by rwa [List.append_nil]
  obtain ⟨ks, -, hread, hfills⟩ := Json.exists_fills o.part ms hall o.nodup_members
    (fun m _ => List.not_mem_nil) (takes_part h depth) fun m hm => absurd hm List.not_mem_nil
  have hempty : o.part [] = (none, []) := rfl
  rw [hempty] at hfills
  have hfold := Json.foldMembers_membersText l hfills true rest (Nat.le_refl _)
  have hmembers := membersFrom_eq_foldMembers depth (Json.membersText l true ms ++ rest) true
    (none, []) (Json.membersText l true ms ++ rest)
  rw [hfold] at hmembers
  obtain ⟨hkind, hmade⟩ := ofMembers?_part hread
  rw [decoder, Json.dropBlanks_render hlead, Json.render_object]
  simp only [List.cons_append, hmembers, Except.map, hkind, hmade]

end Outcome

/-! ### Reports -/

namespace Report

/-- The numbers of a report are words. -/
structure InWords (r : Report) : Prop where
  seats : r.seats < Word.modulus
  steps : r.steps < Word.modulus
  outcome : r.outcome.InWords
  meals : ∀ n ∈ r.meals, n < Word.modulus
  longestWait : ∀ n ∈ r.longestWait, n < Word.modulus
  firstMeal : ∀ o ∈ r.firstMeal, ∀ n ∈ o, n < Word.modulus

/-- The members of a report, with the outcome written by members of its own. -/
def membersWith (r : Report) (outcome : List (String × Json)) : List (String × Json) :=
  r.members.map fun m => if m.1 = "outcome" then (m.1, .object outcome) else m

lemma membersWith_members (r : Report) : r.membersWith r.outcome.members = r.members := by
  simp [membersWith, members, Outcome.toJson]

/-- What has been read of a report once the members of some names have been. -/
def part (r : Report) (ks : List String) : Draft where
  seats := if "seats" ∈ ks then some r.seats else none
  plan := if "plan" ∈ ks then some r.plan else none
  scheduler := if "scheduler" ∈ ks then some r.scheduler else none
  steps := if "steps" ∈ ks then some r.steps else none
  outcome := if "outcome" ∈ ks then some r.outcome else none
  meals := if "meals" ∈ ks then some r.meals else none
  longestWait := if "longest_wait" ∈ ks then some r.longestWait else none
  firstMeal := if "first_meal" ∈ ks then some r.firstMeal else none

lemma takes_part {r : Report} (h : r.InWords) {outcome : List (String × Json)}
    (houtcome : outcome.Perm r.outcome.members) :
    ∀ m ∈ r.membersWith outcome, ∀ ks, m.1 ∉ ks →
      Takes (Json.readMember Draft.fields) (r.part ks) m (r.part (m.1 :: ks)) := by
  intro m hm ks hks
  simp only [membersWith, members, List.map_cons, List.map_nil, List.mem_cons, List.not_mem_nil,
    or_false, String.reduceEq, if_false, if_true] at hm
  -- field by field: the draft does not have it yet, and its value is read
  rcases hm with rfl | rfl | rfl | rfl | rfl | rfl | rfl | rfl
  · exact Json.takes_keep rfl (if_neg hks) (Json.reads_readNat h.seats) (by simp [part])
  · exact Json.takes_keep rfl (if_neg hks) r.plan.reads (by simp [part])
  · exact Json.takes_keep rfl (if_neg hks) (Json.reads_readText r.scheduler) (by simp [part])
  · exact Json.takes_keep rfl (if_neg hks) (Json.reads_readNat h.steps) (by simp [part])
  · exact Json.takes_keep rfl (if_neg hks) (Outcome.reads h.outcome 125 houtcome) (by simp [part])
  · exact Json.takes_keep rfl (if_neg hks) (Json.reads_numbers h.meals) (by simp [part])
  · exact Json.takes_keep rfl (if_neg hks) (Json.reads_numbers h.longestWait) (by simp [part])
  · have hmeals : ∀ o ∈ r.firstMeal, Reads (Json.readOption Json.readNat)
        (.ofOption (o.map Json.number)) o := fun o ho =>
      Json.reads_ofOption Json.number_ne_null fun n hn => Json.reads_readNat (h.firstMeal o ho n hn)
    exact Json.takes_keep rfl (if_neg hks) (Json.reads_readList hmeals) (by simp [part])

lemma finish_part {r : Report} {ks : List String} (h : ∀ k ∈ r.members.map Prod.fst, k ∈ ks) :
    Draft.finish (r.part ks) = some r := by
  simp only [members, List.map_cons, List.map_nil, List.forall_mem_cons] at h
  simp [Draft.finish, part, h]

/-- **A report is read from its members in any order**, the members of the outcome in any order, and
members of other names. -/
theorem reads {r : Report} (h : r.InWords) {outcome extra ms : List (String × Json)}
    (houtcome : outcome.Perm r.outcome.members)
    (hextra : ∀ m ∈ extra, m.1 ∉ r.members.map Prod.fst)
    (hms : ms.Perm (r.membersWith outcome ++ extra)) : Reads decoder (.object ms) r := by
  have hnames : (r.membersWith outcome).map Prod.fst = r.members.map Prod.fst := by
    simp [membersWith, members]
  refine Json.reads_readRecord r.part rfl (takes_part h houtcome) ?_ ?_ hextra hms
  · intro ks hks
    refine finish_part fun k hk => ?_
    rw [← hnames] at hk
    obtain ⟨m, hm, rfl⟩ := List.mem_map.mp hk
    exact hks m hm
  · rw [hnames]
    simp [members]

end Report

/-! ### Explorations -/

namespace Exploration

/-- The numbers of an exploration are words. -/
structure InWords (e : Exploration) : Prop where
  seats : e.seats < Word.modulus
  states : e.states < Word.modulus
  transitions : e.transitions < Word.modulus
  depth : e.depth < Word.modulus
  deadlock : ∀ path ∈ e.deadlock, ∀ n ∈ path, n < Word.modulus

/-- What has been read of an exploration once the members of some names have been. -/
def part (e : Exploration) (ks : List String) : Draft where
  seats := if "seats" ∈ ks then some e.seats else none
  plan := if "plan" ∈ ks then some e.plan else none
  states := if "states" ∈ ks then some e.states else none
  transitions := if "transitions" ∈ ks then some e.transitions else none
  depth := if "depth" ∈ ks then some e.depth else none
  complete := if "complete" ∈ ks then some e.complete else none
  deadlock := if "deadlock" ∈ ks then some e.deadlock else none

lemma takes_part {e : Exploration} (h : e.InWords) :
    ∀ m ∈ e.members, ∀ ks, m.1 ∉ ks →
      Takes (Json.readMember Draft.fields) (e.part ks) m (e.part (m.1 :: ks)) := by
  intro m hm ks hks
  simp only [members, List.mem_cons, List.not_mem_nil, or_false] at hm
  rcases hm with rfl | rfl | rfl | rfl | rfl | rfl | rfl
  · exact Json.takes_keep rfl (if_neg hks) (Json.reads_readNat h.seats) (by simp [part])
  · exact Json.takes_keep rfl (if_neg hks) e.plan.reads (by simp [part])
  · exact Json.takes_keep rfl (if_neg hks) (Json.reads_readNat h.states) (by simp [part])
  · exact Json.takes_keep rfl (if_neg hks) (Json.reads_readNat h.transitions) (by simp [part])
  · exact Json.takes_keep rfl (if_neg hks) (Json.reads_readNat h.depth) (by simp [part])
  · exact Json.takes_keep rfl (if_neg hks) (Json.reads_readBool e.complete) (by simp [part])
  · exact Json.takes_keep rfl (if_neg hks) (Json.reads_ofOption Json.numbers_ne_null
      fun path hpath => Json.reads_numbers (h.deadlock path hpath)) (by simp [part])

lemma finish_part {e : Exploration} {ks : List String} (h : ∀ m ∈ e.members, m.1 ∈ ks) :
    Draft.finish (e.part ks) = some e := by
  simp only [members, List.forall_mem_cons] at h
  simp [Draft.finish, part, h]

/-- **An exploration is read from its members in any order**, and members of other names. -/
theorem reads {e : Exploration} (h : e.InWords) {extra ms : List (String × Json)}
    (hextra : ∀ m ∈ extra, m.1 ∉ e.members.map Prod.fst)
    (hms : ms.Perm (e.members ++ extra)) : Reads decoder (.object ms) e :=
  Json.reads_readRecord e.part rfl (takes_part h) (fun _ => finish_part)
    (by simp [members]) hextra hms

end Exploration

/-! ### The round trip -/

/-- **Reports and explorations are read back from what is written of them**, whatever the text of
the scheduler and whatever numbers of 64 bits they hold.  The same holds in either layout for an
object that has their members in any order and members of other names between them, a report's
outcome having its members in any order. -/
theorem json_round_trip :
    (∀ r : Report, r.InWords →
      Report.ofJsonText r.jsonText = .ok r ∧
      ∀ (l : Json.Layout) (outcome extra members : List (String × Json)),
        outcome.Perm r.outcome.members →
        (∀ m ∈ extra, m.1 ∉ r.members.map Prod.fst) →
        members.Perm (r.membersWith outcome ++ extra) →
        Report.ofJsonText (String.ofList (Json.render l (.object members))) = .ok r) ∧
    ∀ e : Exploration, e.InWords → ∀ l : Json.Layout,
      Json.decode Exploration.decoder (String.ofList (Json.render l e.toJson)) = .ok e ∧
      ∀ extra members : List (String × Json),
        (∀ m ∈ extra, m.1 ∉ e.members.map Prod.fst) →
        members.Perm (e.members ++ extra) →
        Json.decode Exploration.decoder (String.ofList (Json.render l (.object members)))
          = .ok e := by
  have hnone : ∀ names : List String, ∀ m ∈ ([] : List (String × Json)), m.1 ∉ names :=
    fun _ m hm => absurd hm List.not_mem_nil
  refine ⟨fun r h => ⟨?_, fun l outcome extra members houtcome hextra hmembers =>
    Json.decode_render (Report.reads h houtcome hextra hmembers) l⟩, fun e h l => ⟨?_,
    fun extra members hextra hmembers =>
      Json.decode_render (Exploration.reads h hextra hmembers) l⟩⟩
  · refine Json.decode_render (Report.reads h (List.Perm.refl _) (hnone _) ?_) (.indented 0)
    rw [List.append_nil, Report.membersWith_members]
  · refine Json.decode_render (Exploration.reads h (hnone _) ?_) l
    rw [List.append_nil]

/-- A report with the largest word in it and a scheduler whose name is written with escapes. -/
def Report.sample : Report where
  seats := 2
  plan := .uniform
  scheduler := "a \"lap\"\\\n\x01"
  steps := 18446744073709551615
  outcome := .deadlocked 4
  meals := [1, 0]
  longestWait := [3, 18446744073709551615]
  firstMeal := [some 2, none]

/-- An exploration of two seats that meets a deadlock. -/
def Exploration.sample : Exploration where
  seats := 2
  plan := .uniform
  states := 18446744073709551615
  transitions := 12
  depth := 4
  complete := false
  deadlock := some [0, 1, 0, 1]

/-- The sample as it is written; backwards, behind an unknown member, with the step of the outcome
before its kind; and an exploration in both ways. -/
theorem json_round_trip_of_samples :
    Report.ofJsonText Report.sample.jsonText = .ok .sample ∧
    Report.ofJsonText (Json.compact (.object [
      ("note", .array [.null, .decimal 15 (-1), .object [("seats", .bool true)]]),
      ("first_meal", .array [.number 2, .null]),
      ("longest_wait", .numbers [3, 18446744073709551615]), ("meals", .numbers [1, 0]),
      ("outcome", .object [("step", .number 4), ("kind", .string "deadlocked")]),
      ("steps", .number 18446744073709551615), ("scheduler", .string "a \"lap\"\\\n\x01"),
      ("plan", .string "uniform"), ("seats", .number 2)])) = .ok .sample ∧
    Json.decode Exploration.decoder (Json.pretty Exploration.sample.toJson) = .ok .sample ∧
    Json.decode Exploration.decoder (Json.compact (.object [
      ("seed", .null), ("deadlock", .numbers [0, 1, 0, 1]), ("complete", .bool false),
      ("depth", .number 4), ("transitions", .number 12),
      ("states", .number 18446744073709551615), ("plan", .string "uniform"),
      ("seats", .number 2)])) = .ok .sample := by
  have hstep : Outcome.InWords (.deadlocked 4) := show 4 < Word.modulus by decide
  have hreport : Report.sample.InWords :=
    ⟨by decide, by decide, hstep, by decide, by decide, by decide⟩
  have hexploration : Exploration.sample.InWords :=
    ⟨by decide, by decide, by decide, by decide, by decide⟩
  obtain ⟨hwritten, hbackwards⟩ := json_round_trip.1 .sample hreport
  obtain ⟨hexplored, -⟩ := json_round_trip.2 .sample hexploration (.indented 0)
  refine ⟨hwritten, ?_, hexplored, ?_⟩
  · refine hbackwards .compact [("step", .number 4), ("kind", .string "deadlocked")]
      [("note", .array [.null, .decimal 15 (-1), .object [("seats", .bool true)]])] _
      (List.Perm.swap _ _ _) (by simp [Report.members]) ?_
    exact (List.reverse_perm _).symm.trans (.of_eq rfl)
  · refine (json_round_trip.2 .sample hexploration .compact).2 [("seed", .null)] _
      (by simp [Exploration.members]) ?_
    exact (List.reverse_perm _).symm.trans (.of_eq rfl)

end DiningRing
