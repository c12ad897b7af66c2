/-
# Values that are read

A decoder reads a value (`Reads`) if from its text, in either layout, behind blanks and in front of
anything that does not go on with a number, it returns what the value stands for and the characters
after it.  The decoders of numbers, flags, texts, names, options and lists do so, a list because its
items are read.

Objects are read member by member into what has been read before.  Two readers do so, that of
records and that of outcomes, and both are `foldMembers` with a reader of one member.  An object of
which each member takes the draft of some names to the draft of one name more may have its members
in any order, and further members that leave each draft as it is (`exists_fills`).

Main statements: `foldMembers_membersText`, `exists_fills` and `reads_readRecord`.
-/
import Mathlib.Data.List.Nodup
import DiningRing.Json.Decode
import DiningRing.Proofs.Json.Passing

namespace DiningRing.Json

variable {α σ : Type} {d : Decoder α} {j : Json} {a : α}

/-- Each text of a value is read, up to its end. -/
def Reads (d : Decoder α) (j : Json) (a : α) : Prop :=
  ∀ (l : Layout) (lead rest : List Char), Blank lead → Halts rest →
    d (lead ++ (render l j ++ rest)) = .ok (a, rest)

lemma halts_nil : Halts [] := by
  intro c hc
  simp at hc

/-- A text that is nothing but the value. -/
lemma decode_render (h : Reads d j a) (l : Layout) :
    decode d (String.ofList (render l j)) = .ok a := by
  have hread := h l [] [] blank_nil halts_nil
  rw [List.nil_append, List.append_nil] at hread
  rw [decode, String.toList_ofList, hread]
  rfl

/-! ### Scalars -/

lemma readNumber_number {n : ℕ} (hn : n < Word.modulus) (l : Layout) {rest : List Char}
    (hrest : Halts rest) :
    readNumber (render l (number n) ++ rest) = .ok (.integer n, rest) := by
  rw [number, render]
  exact readNumber_digitsOf hn hrest

lemma exists_render_number (l : Layout) (n : ℕ) :
    ∃ c cs, render l (number n) = c :: cs ∧ isDigit c = true := by
  rw [number, render]
  exact exists_digitsOf_eq_cons n

lemma reads_readNat {n : ℕ} (hn : n < Word.modulus) : Reads readNat (number n) n := by
  intro l lead rest hlead hrest
  obtain ⟨c, cs, hcons, hc⟩ := exists_render_number l n
  have hstarts : startsNumber (render l (number n) ++ rest) = true := by
    rw [hcons, List.cons_append, startsNumber, hc, Bool.or_true]
  rw [readNat, dropBlanks_render hlead, if_pos hstarts, readNumber_number hn l hrest]

lemma reads_readBool (b : Bool) : Reads readBool (.bool b) b := by
  intro l lead rest hlead hrest
  rw [readBool, dropBlanks_render hlead]
  cases b <;> rfl

lemma dropBlanks_string {lead : List Char} (hlead : Blank lead) (l : Layout) (s : String)
    (rest : List Char) :
    dropBlanks (lead ++ (render l (.string s) ++ rest))
      = '\x22' :: (s.toList.flatMap escape ++ '\x22' :: rest) := by
  rw [dropBlanks_render hlead, render, quoted_append]

lemma reads_readText (s : String) : Reads readText (.string s) s := by
  intro l lead rest hlead hrest
  rw [readText, dropBlanks_string hlead]
  exact readString_written s rest

lemma reads_readName {ofName? : String → Option α} {name : String} (h : ofName? name = some a) :
    Reads (readName ofName?) (.string name) a := by
  intro l lead rest hlead hrest
  have htext := reads_readText name l [] rest blank_nil hrest
  rw [List.nil_append, render, quoted_append] at htext
  rw [readName, dropBlanks_string hlead]
  simp only [htext, h]

lemma reads_readOption_none (d : Decoder α) : Reads (readOption d) .null none := by
  intro l lead rest hlead hrest
  rw [readOption, dropBlanks_render hlead]
  rfl

/-- A value that is not `null` does not begin with the letter of `null`. -/
lemma reads_readOption_some (hj : j ≠ .null) (h : Reads d j a) :
    Reads (readOption d) j (some a) := by
  intro l lead rest hlead hrest
  obtain ⟨c, cs, hcons, -, -, -, hnull⟩ := exists_render_eq_cons l j
  have hc : c ≠ 'n' := fun hc => hj (hnull hc)
  have hread := h l [] rest blank_nil hrest
  rw [List.nil_append, hcons, List.cons_append] at hread
  rw [readOption, dropBlanks_render hlead, hcons, List.cons_append]
  simp [hc, hread]

lemma reads_readValue_number (depth : ℕ) {n : ℕ} (hn : n < Word.modulus) :
    Reads (readValue depth) (number n) (number n) := by
  intro l lead rest hlead hrest
  obtain ⟨c, cs, hcons, hc⟩ := exists_render_number l n
  have hdrop := dropBlanks_render hlead l (number n) rest
  have hread := readNumber_number hn l hrest
  rw [hcons, List.cons_append] at hdrop hread
  rw [hcons, List.cons_append]
  unfold readValue
  rw [hdrop]
  split
  case h_8 e es _ _ _ _ _ _ hsame =>
    obtain ⟨rfl, rfl⟩ := List.cons.inj hsame
    rw [if_pos (Or.inr hc), hread]
    rfl
  all_goals
    simp_all [isDigit]

/-! ### Lists -/

lemma itemsFrom_itemsText (l : Layout) {f : α → Json} {as : List α}
    (h : ∀ a ∈ as, Reads d (f a) a) (isFirst : Bool) (read : List α) {rest room : List Char}
    (hroom : (itemsText l isFirst (as.map f) ++ rest).length ≤ room.length) :
    itemsFrom d room isFirst read (itemsText l isFirst (as.map f) ++ rest)
      = .ok (read.reverse ++ as, rest) := by
  induction as generalizing isFirst read room with
  | nil =>
    obtain ⟨y, room, rfl, -⟩ := exists_room (length_itemsText_nil l isFirst) hroom
    simp only [List.map_nil, itemsFrom, nextItem_end, closeArray_end, List.append_nil]
    rfl
  | cons a as ih =>
    rw [List.map_cons] at hroom ⊢
    have hlength := length_itemsText_cons l isFirst (f a) (as.map f)
    have hpos := length_render_pos l.inner (f a)
    obtain ⟨y, room, rfl, hlong⟩ := exists_room (by omega) hroom
    have hitem := h a List.mem_cons_self l.inner [] (itemsText l false (as.map f) ++ rest)
      blank_nil (halts_itemsText l rest (as.map f))
    rw [List.nil_append] at hitem
    simp only [itemsFrom, nextItem_itemsText, hitem]
    rw [ih (fun a ha => h a (List.mem_cons_of_mem _ ha)) false (a :: read)
      (by rw [List.length_append]; omega), List.reverse_cons, List.append_assoc]
    rfl

/-- A list is read if its items are. -/
lemma reads_readList {f : α → Json} {as : List α} (h : ∀ a ∈ as, Reads d (f a) a) :
    Reads (readList d) (.array (as.map f)) as := by
  intro l lead rest hlead hrest
  rw [readList, dropBlanks_render hlead, render_array]
  exact itemsFrom_itemsText l h true [] (Nat.le_refl _)

/-! ### Objects -/

/-- Reads the members of an object by `member`, each into what has been read before. -/
def foldMembers (member : String → σ → Decoder σ) : List Char → Bool → σ → Decoder σ
  | [], _, _, _ => .error .truncated
  | _ :: room, isFirst, s, cs =>
    match nextKey isFirst cs with
    | .error e => .error e
    | .ok none => (closeObject cs).map (Prod.mk s)
    | .ok (some cs) =>
      match readString cs with
      | .error e => .error e
      | .ok (key, cs) =>
        match member key s cs with
        | .error e => .error e
        | .ok (s, cs) => foldMembers member room false s cs

lemma membersFrom_eq_foldMembers (fields : List (RecordField σ)) :
    membersFrom fields = foldMembers (readMember fields) := by
  funext room
  induction room with
  | nil => rfl
  | cons x room ih =>
    funext isFirst s cs
    rw [membersFrom, ih]
    rfl

variable {member : String → σ → Decoder σ} {s t u : σ} {m : String × Json}
  {ms : List (String × Json)}

/-- A member of an object takes what has been read before to what has been read then. -/
def Takes (member : String → σ → Decoder σ) (s : σ) (m : String × Json) (t : σ) : Prop :=
  ∀ (l : Layout) (rest : List Char), Halts rest →
    member m.1 s (l.colon ++ (render l.inner m.2 ++ rest)) = .ok (t, rest)

/-- The members of an object, one after the other, take what has been read before to what has been
read then. -/
inductive Fills (member : String → σ → Decoder σ) : σ → List (String × Json) → σ → Prop
  | nil (s : σ) : Fills member s [] s
  | cons {s t u : σ} {m : String × Json} {ms : List (String × Json)} :
    Takes member s m t → Fills member t ms u → Fills member s (m :: ms) u

/-- **An object is read member by member**, whatever its layout. -/
theorem foldMembers_membersText (l : Layout) (h : Fills member s ms t) (isFirst : Bool)
    (rest : List Char) {room : List Char}
    (hroom : (membersText l isFirst ms ++ rest).length ≤ room.length) :
    foldMembers member room isFirst s (membersText l isFirst ms ++ rest) = .ok (t, rest) := by
  induction h generalizing isFirst room with
  | nil s =>
    obtain ⟨y, room, rfl, -⟩ := exists_room (length_membersText_nil l isFirst) hroom
    simp only [foldMembers, nextKey_end, closeObject_end]
    rfl
  | @cons s t u m ms htakes _ ih =>
    obtain ⟨k, v⟩ := m
    have hlength := length_membersText_cons l isFirst k v ms
    obtain ⟨y, room, rfl, hlong⟩ := exists_room (by omega) hroom
    have hmember := htakes l (membersText l false ms ++ rest) (halts_membersText l rest ms)
    simp only [foldMembers, nextKey_membersText, readString_written, hmember]
    exact ih false (by rw [List.length_append]; omega)

lemma exists_perm_cons {β : Type} {x : β} {xs : List β} (h : x ∈ xs) :
    ∃ others, xs.Perm (x :: others) := by
  obtain ⟨before, after, rfl⟩ := List.append_of_mem h
  exact ⟨before ++ after, List.perm_middle⟩

/-- **The members of an object may have any order.**  `part` says what has been read once the
members of some names have been: each of the `known` members adds its name, and the `extra` ones
change nothing. -/
theorem exists_fills (part : List String → σ) (members : List (String × Json))
    {known extra : List (String × Json)} {ks : List String}
    (hperm : members.Perm (known ++ extra)) (hnodup : (known.map Prod.fst).Nodup)
    (hnew : ∀ m ∈ known, m.1 ∉ ks)
    (hknown : ∀ m ∈ known, ∀ ks, m.1 ∉ ks → Takes member (part ks) m (part (m.1 :: ks)))
    (hextra : ∀ m ∈ extra, ∀ s, Takes member s m s) :
    ∃ ks' : List String, ks ⊆ ks' ∧ (∀ m ∈ known, m.1 ∈ ks') ∧
      Fills member (part ks) members (part ks') := by
  induction members generalizing known extra ks with
  | nil =>
    obtain ⟨rfl, -⟩ := List.append_eq_nil_iff.mp hperm.nil_eq.symm
    exact ⟨ks, List.Subset.refl ks, fun m hm => absurd hm List.not_mem_nil, .nil _⟩
  | cons m ms ih =>
    rcases List.mem_append.mp (hperm.subset List.mem_cons_self) with hm | hm
    · -- a known one: the names of the others are not read yet either
      obtain ⟨others, hothers⟩ := exists_perm_cons hm
      have hmem : ∀ m' ∈ others, m' ∈ known := fun m' hm' =>
        hothers.symm.subset (List.mem_cons_of_mem m hm')
      have hnames := (hothers.map Prod.fst).nodup_iff.mp hnodup
      rw [List.map_cons, List.nodup_cons] at hnames
      have hnew' : ∀ m' ∈ others, m'.1 ∉ m.1 :: ks := by
        intro m' hm' hin
        rcases List.mem_cons.mp hin with hsame | hread
        · exact hnames.1 (hsame ▸ List.mem_map_of_mem hm')
        · exact hnew m' (hmem m' hm') hread
      obtain ⟨ks', hks, hread, hfills⟩ := ih (hperm.trans (hothers.append_right extra)).cons_inv
        hnames.2 hnew' (fun m' hm' => hknown m' (hmem m' hm')) hextra
      refine ⟨ks', fun k hk => hks (List.mem_cons_of_mem _ hk), fun m' hm' => ?_,
        .cons (hknown m hm ks (hnew m hm)) hfills⟩
      rcases List.mem_cons.mp (hothers.subset hm') with rfl | hm'
      · exact hks List.mem_cons_self
      · exact hread m' hm'
    · -- one that is passed over
      obtain ⟨others, hothers⟩ := exists_perm_cons hm
      have hrest : (known ++ extra).Perm (m :: (known ++ others)) :=
        (hothers.append_left known).trans List.perm_middle
      obtain ⟨ks', hks, hread, hfills⟩ := ih (hperm.trans hrest).cons_inv hnodup hnew hknown
        fun m' hm' => hextra m' (hothers.symm.subset (List.mem_cons_of_mem m hm'))
      exact ⟨ks', hks, hread, .cons (hextra m hm _) hfills⟩

/-! ### Records -/

variable {fields : List (RecordField σ)}

/-- A field that is kept takes its member where the draft does not have it yet. -/
lemma takes_keep {name : String} {get : σ → Option α} {put : σ → α → σ} {v : Json}
    (hfield : fields.find? (fun f => f.name == name) = some (.keep name get put d))
    (hget : get s = none) (hread : Reads d v a) (hput : put s a = t) :
    Takes (readMember fields) s (name, v) t := by
  intro l rest hrest
  have hvalue := hread l.inner l.space rest (blank_space l) hrest
  simp only [readMember, hfield, colon_colon]
  simp only [RecordField.keep, hget, Option.isSome_none, hvalue, hput]
  rfl

/-- A member of a name that no field has is passed over. -/
lemma takes_unknown (hname : m.1 ∉ fields.map RecordField.name) (s : σ) :
    Takes (readMember fields) s m s := by
  intro l rest hrest
  have hfield : fields.find? (fun f => f.name == m.1) = none := by
    rw [List.find?_eq_none]
    intro f hf heq
    exact hname (beq_iff_eq.mp heq ▸ List.mem_map_of_mem hf)
  simp only [readMember, hfield, colon_colon, skip_render (blank_space l) hrest]
  rfl

/-- **A record is read from an object with its members in any order**, and with members of other
names. -/
theorem reads_readRecord {blank : σ} {finish : σ → Option α} (part : List String → σ)
    {known extra members : List (String × Json)} (hblank : part [] = blank)
    (hknown : ∀ m ∈ known, ∀ ks, m.1 ∉ ks →
      Takes (readMember fields) (part ks) m (part (m.1 :: ks)))
    (hfinish : ∀ ks, (∀ m ∈ known, m.1 ∈ ks) → finish (part ks) = some a)
    (hnodup : (known.map Prod.fst).Nodup)
    (hextra : ∀ m ∈ extra, m.1 ∉ fields.map RecordField.name)
    (hperm : members.Perm (known ++ extra)) :
    Reads (readRecord fields blank finish) (.object members) a := by
  intro l lead rest hlead hrest
  obtain ⟨ks, -, hread, hfills⟩ := exists_fills part members hperm hnodup
    (fun m _ => List.not_mem_nil) hknown fun m hm => takes_unknown (hextra m hm)
  rw [hblank] at hfills
  have hmembers := foldMembers_membersText l hfills true rest (Nat.le_refl _)
  rw [readRecord, dropBlanks_render hlead, render_object]
  simp only [List.cons_append, membersFrom_eq_foldMembers, hmembers, hfinish ks hread]

end DiningRing.Json
